/-
What the breaker guarantees over whole histories.

In a half-open state the counters are those of the calls made since the period began:
`consecutiveOK` counts the successes reported, and `halfOpenIssued` the requests that asked.
-/
import GoServices.Gateway.Breaker

namespace GoServices.Gateway.Breaker

open List Option Entry

/-! ## Where a transition can lead -/

section
variable {b : Breaker} {a : Call} {p : Breaker × Bool}

section
variable (h : Transition b a p)
include h

theorem Transition.into_halfOpen (hp : p.1.state = .halfOpen) :
    (b.state = .opened ∧ p.1.consecutiveOK = 0 ∧ p.1.halfOpenIssued = 1 ∧ p.2 = true ∧
      ∃ r now, a = .allow r now) ∨
    (b.state = .halfOpen ∧ p.1.consecutiveOK = b.consecutiveOK ∧
      p.1.halfOpenIssued = int32 (b.halfOpenIssued + 1) ∧
      p.2 = decide (p.1.halfOpenIssued ≤ int32 b.cfg.maxHalfOpenRequests) ∧
      ∃ r now, a = .allow r now) ∨
    (b.state = .halfOpen ∧ p.1.consecutiveOK = int32 (b.consecutiveOK + 1) ∧
      p.1.consecutiveOK < int32 b.cfg.halfOpenSuccessThreshold ∧
      p.1.halfOpenIssued = b.halfOpenIssued ∧ ∃ r, a = .success r) := by
  cases h with
  | allowTrial r now hstate => exact .inr (.inl ⟨hstate, rfl, rfl, rfl, r, now, rfl⟩)
  | allowLate r now hstate => exact .inl ⟨hstate, rfl, rfl, rfl, r, now, rfl⟩
  | successTrial r hstate hfew => exact .inr (.inr ⟨hstate, rfl, hfew, rfl, r, rfl⟩)
  | _ => simp_all [trip]

theorem Transition.into_closed (hp : p.1.state = .closed) :
    (b.state = .closed ∧ p.1.consecutiveFail = b.consecutiveFail ∧ ∃ r now, a = .allow r now) ∨
    (b.state = .closed ∧ p.1.consecutiveFail = int32 (b.consecutiveFail + 1) ∧
      p.1.consecutiveFail < int32 b.cfg.failureThreshold ∧ ∃ r now, a = .failure r now) ∨
    p.1.consecutiveFail = 0 := by
  cases h with
  | allowClosed r now hstate => exact .inl ⟨hstate, rfl, r, now, rfl⟩
  | failureClosed r now hstate hfew => exact .inr (.inl ⟨hstate, rfl, hfew, r, now, rfl⟩)
  | successClosed r hstate | successCloses r hstate hmany => exact .inr (.inr rfl)
  | _ => simp_all [trip]

theorem Transition.from_closed (hb : b.state = .closed) (hp : p.1.state = .opened) :
    ∃ r now, a = .failure r now ∧ int32 b.cfg.failureThreshold ≤ int32 (b.consecutiveFail + 1) := by
  cases h with
  | failureTrips r now hstate hmany => exact ⟨r, now, rfl, hmany⟩
  | _ => simp_all

theorem Transition.around_opened :
    (b.state ≠ .opened ∧ p.1.state ≠ .opened) ∨
    (∃ r now, a = .failure r now ∧ b.state ≠ .opened ∧ p.1.state = .opened ∧ p.1.openedAt = now) ∨
    (b.state = .opened ∧ p.1 = b ∧ ∀ r now, a = .allow r now → p.2 = false) ∨
    (∃ r now, a = .allow r now ∧ b.state = .opened ∧ p.1.state ≠ .opened ∧
      int64 (b.openedAt + b.cfg.openDuration) ≤ now) := by
  cases h with
  | failureTrips r now hstate | failureTrial r now hstate =>
    exact .inr (.inl ⟨r, now, rfl, by simp [hstate], rfl, rfl⟩)
  | allowEarly r now hstate => exact .inr (.inr (.inl ⟨hstate, rfl, fun _ _ _ => rfl⟩))
  | successOpen r hstate | failureOpen r now hstate => exact .inr (.inr (.inl ⟨hstate, rfl, nofun⟩))
  | allowLate r now hstate htime => exact .inr (.inr (.inr ⟨r, now, rfl, hstate, nofun, htime⟩))
  | _ => exact .inl (by simp_all)

end

end

/-- The configuration that `New` stores never changes. -/
def Configured (cfg : Config) (s : History) : Prop := s.breaker.cfg = (newWithClock cfg).cfg

variable {s s' : History} {a : Call} {cfg : Config} {now : Int} {log : List Entry}

theorem step_configured (hs : Configured cfg s) (h : step s a = some s') :
    Configured cfg s' := by
  obtain ⟨-, p, htrans, rfl⟩ := step_eq_some h
  exact htrans.cfg_eq.trans hs

/-! ## The successes of a half-open period -/

/-- In a half-open state `consecutiveOK` counts the successes reported in the period, which
did not reach the threshold, and nothing else was reported. -/
structure TrialCounted (s : History) : Prop where
  counted : s.breaker.consecutiveOK = (requests succeeds (trial s.log)).length
  few : s.breaker.consecutiveOK = 0 ∨
    s.breaker.consecutiveOK < int32 s.breaker.cfg.halfOpenSuccessThreshold
  noFailure : requests reports (trial s.log) = requests succeeds (trial s.log)

theorem TrialCounted.int32_succ (h : TrialCounted s) :
    int32 (s.breaker.consecutiveOK + 1) = s.breaker.consecutiveOK + 1 := by
  have hmax := int32_lt s.breaker.cfg.halfOpenSuccessThreshold
  have hcount := h.counted
  have hfew := h.few
  exact int32_eq (by omega) (by omega)

theorem step_trialCounted (hs : s.breaker.state = .halfOpen → TrialCounted s)
    (h : step s a = some s') (hhalf : s'.breaker.state = .halfOpen) : TrialCounted s' := by
  obtain ⟨-, p, htrans, rfl⟩ := step_eq_some h
  have hcfg := htrans.cfg_eq
  obtain ⟨hb, hok, -, -, r, now, rfl⟩ | ⟨hb, hok, -, -, r, now, rfl⟩ |
    ⟨hb, hok, hfew, -, r, rfl⟩ := htrans.into_halfOpen hhalf
  · refine ⟨?_, .inl hok, ?_⟩
    · rw [trial_record_opens hb hhalf]
      exact hok
    · rw [trial_record_opens hb hhalf]
      rfl
  · obtain ⟨hcount, hlt, hnone⟩ := hs hb
    refine ⟨?_, ?_, ?_⟩
    · rw [trial_record hb, requests_concat, length_append]
      exact hok.trans hcount
    · show p.1.consecutiveOK = 0 ∨ p.1.consecutiveOK < int32 p.1.cfg.halfOpenSuccessThreshold
      rw [hok, hcfg]
      exact hlt
    · rw [trial_record hb, requests_concat, requests_concat, hnone]
      rfl
  have hsum := hok.trans (hs hb).int32_succ
  obtain ⟨hcount, hlt, hnone⟩ := hs hb
  refine ⟨?_, .inr ?_, ?_⟩
  · rw [trial_record hb, requests_concat, length_append]
    show p.1.consecutiveOK = _
    rw [hsum, hcount]
    rfl
  · show p.1.consecutiveOK < int32 p.1.cfg.halfOpenSuccessThreshold
    rw [hcfg]
    exact hfew
  · rw [trial_record hb, requests_concat, requests_concat, hnone]
    rfl

/-! ## The requests of a half-open period -/

def ShortTrial (s : History) (_ : Call) : Prop :=
  s.breaker.state = .halfOpen → (trial s.log).length + 1 < 2 ^ 31

/-- In a half-open state `halfOpenIssued` counts the requests of the period that asked, of
which the first `MaxHalfOpenRequests` were let through. -/
structure TrialIssued (s : History) : Prop where
  issued : s.breaker.halfOpenIssued = (requests asks (trial s.log)).length
  granted : ((requests grants (trial s.log)).length : Int) =
    min ((requests asks (trial s.log)).length : Int) s.breaker.cfg.maxHalfOpenRequests

theorem step_trialIssued (hpos : 1 ≤ s.breaker.cfg.maxHalfOpenRequests)
    (hfits : s.breaker.cfg.maxHalfOpenRequests < 2 ^ 31)
    (hs : s.breaker.state = .halfOpen → TrialIssued s) (hshort : ShortTrial s a)
    (h : step s a = some s') (hhalf : s'.breaker.state = .halfOpen) : TrialIssued s' := by
  obtain ⟨-, p, htrans, rfl⟩ := step_eq_some h
  have hcfg : (record s a p).breaker.cfg = s.breaker.cfg := htrans.cfg_eq
  obtain ⟨hb, -, hissued, hp, r, now, rfl⟩ | ⟨hb, -, hissued, hp, r, now, rfl⟩ |
    ⟨hb, -, -, hissued, r, rfl⟩ := htrans.into_halfOpen hhalf
  · refine ⟨?_, ?_⟩
    · rw [trial_record_opens hb hhalf]
      exact hissued
    · rw [trial_record_opens hb hhalf, hcfg, hp]
      show (1 : Int) = min 1 s.breaker.cfg.maxHalfOpenRequests
      omega
  · obtain ⟨hcount, hgranted⟩ := hs hb
    have hlen := length_requests_le asks (trial s.log)
    have hbound := hshort hb
    have hnext : int32 (s.breaker.halfOpenIssued + 1) = s.breaker.halfOpenIssued + 1 :=
      int32_eq (by omega) (by omega)
    rw [hissued, hnext, int32_eq (by omega) hfits] at hp
    refine ⟨?_, ?_⟩
    · rw [trial_record hb, requests_concat, length_append]
      show p.1.halfOpenIssued = _
      rw [hissued, hnext, hcount]
      rfl
    rw [trial_record hb, requests_concat, requests_concat, length_append, length_append, hcfg]
    by_cases hroom : s.breaker.halfOpenIssued + 1 ≤ s.breaker.cfg.maxHalfOpenRequests
    · rw [hp, decide_eq_true hroom]
      simp only [grants, asks, if_true, toList_some, length_singleton]
      omega
    rw [hp, decide_eq_false hroom]
    simp only [grants, asks, Bool.false_eq_true, if_false, toList_some,
      toList_none, length_singleton, length_nil]
    omega
  · obtain ⟨hcount, hgranted⟩ := hs hb
    refine ⟨?_, ?_⟩
    · rw [trial_record hb, requests_concat, length_append]
      exact hissued.trans hcount
    · rw [trial_record hb, requests_concat, requests_concat, hcfg]
      simpa [grants, asks] using hgranted

theorem step_asks_nodup (hs : (requests asks s.log).Nodup) (h : step s a = some s') :
    (requests asks s'.log).Nodup := by
  obtain ⟨hen, p, -, rfl⟩ := step_eq_some h
  refine requests_nodup_concat hs fun q hq => ?_
  cases a with
  | allow r now =>
    cases hq
    exact hen.2
  | success r | failure r now => cases hq

theorem trial_grants_nodup (hs : (requests asks s.log).Nodup) :
    (requests grants (trial s.log)).Nodup :=
  (hs.sublist ((trial_suffix s.log).sublist.filterMap asks)).sublist
    (requests_sublist grants_or (trial s.log))

theorem exists_unreported (hsuccess : 1 ≤ s.breaker.cfg.halfOpenSuccessThreshold)
    (hmax : s.breaker.cfg.halfOpenSuccessThreshold ≤ s.breaker.cfg.maxHalfOpenRequests)
    (hfits : s.breaker.cfg.maxHalfOpenRequests < 2 ^ 31)
    (hnames : (requests asks s.log).Nodup) (hok : TrialCounted s) (hissued : TrialIssued s)
    (hhalf : s.breaker.state = .halfOpen) (hrefused : (s.breaker.allow now).2 = false) :
    ∃ r ∈ requests grants (trial s.log), r ∉ requests reports (trial s.log) := by
  by_contra hall
  have hsub : requests grants (trial s.log) ⊆ requests succeeds (trial s.log) := by
    intro r hr
    by_contra hnot
    exact hall ⟨r, hr, by rwa [hok.noFailure]⟩
  have hle := ((trial_grants_nodup hnames).subperm hsub).length_le
  have hcount := hok.counted
  have hasked := hissued.issued
  have hfull : ¬ s.breaker.halfOpenIssued + 1 ≤ s.breaker.cfg.maxHalfOpenRequests := by
    intro hroom
    simp only [allow, hhalf, decide_eq_false_iff_not] at hrefused
    rw [int32_eq (by omega) (by omega), int32_eq (by omega) hfits] at hrefused
    exact hrefused hroom
  have hgranted := hissued.granted
  have hfew := hok.few
  rw [int32_eq (by omega) (by omega)] at hfew
  omega

/-! ## Failures while closed -/

def ClosedStreak (log streak : List Entry) : Prop :=
  streak <:+ log ∧ ∀ e ∈ streak, e.before.state = .closed ∧ e.succeeds = none

theorem ClosedStreak.concat {streak : List Entry} {e : Entry} (h : ClosedStreak log streak)
    (hclosed : e.before.state = .closed) (hnot : e.succeeds = none) :
    ClosedStreak (log ++ [e]) (streak ++ [e]) := by
  obtain ⟨⟨earlier, hlog⟩, hstreak⟩ := h
  refine ⟨⟨earlier, by rw [← append_assoc, hlog]⟩, fun f hf => ?_⟩
  obtain hf | rfl := mem_concat_cases hf
  · exact hstreak f hf
  · exact ⟨hclosed, hnot⟩

def FailuresCounted (s : History) : Prop :=
  ∃ streak, ClosedStreak s.log streak ∧
    s.breaker.consecutiveFail = (requests fails streak).length ∧
    s.breaker.consecutiveFail < s.breaker.cfg.failureThreshold

theorem step_failuresCounted (hpos : 1 ≤ s.breaker.cfg.failureThreshold)
    (hfits : s.breaker.cfg.failureThreshold < 2 ^ 31)
    (hs : s.breaker.state = .closed → FailuresCounted s) (h : step s a = some s')
    (hclosed : s'.breaker.state = .closed) : FailuresCounted s' := by
  obtain ⟨-, p, htrans, rfl⟩ := step_eq_some h
  have hcfg : (record s a p).breaker.cfg = s.breaker.cfg := htrans.cfg_eq
  obtain ⟨hb, hfail, r, now, rfl⟩ | ⟨hb, hfail, hfew, r, now, rfl⟩ | hfail :=
    htrans.into_closed hclosed
  · obtain ⟨streak, hstreak, hcount, hlt⟩ := hs hb
    refine ⟨_, hstreak.concat hb rfl, ?_, ?_⟩
    · rw [requests_concat, length_append]
      exact hfail.trans hcount
    · rw [hcfg]
      exact hfail ▸ hlt
  · obtain ⟨streak, hstreak, hcount, hlt⟩ := hs hb
    have hsum : p.1.consecutiveFail = s.breaker.consecutiveFail + 1 := by
      rw [hfail]
      exact int32_eq (by omega) (by omega)
    refine ⟨_, hstreak.concat hb rfl, ?_, ?_⟩
    · rw [requests_concat, length_append]
      show p.1.consecutiveFail = _
      rw [hsum, hcount]
      rfl
    · rw [hcfg]
      rwa [int32_eq (by omega) hfits] at hfew
  · refine ⟨[], ⟨nil_suffix, fun _ he => absurd he not_mem_nil⟩, hfail, ?_⟩
    rw [hcfg]
    show p.1.consecutiveFail < _
    omega

theorem FailuresCounted.of_trip (hs : FailuresCounted s) (hpos : 1 ≤ s.breaker.cfg.failureThreshold)
    (hfits : s.breaker.cfg.failureThreshold < 2 ^ 31) (hclosed : s.breaker.state = .closed)
    (h : step s a = some s') (htrip : s'.breaker.state = .opened) :
    ∃ streak, ClosedStreak s'.log streak ∧
      ((requests fails streak).length : Int) = s.breaker.cfg.failureThreshold := by
  obtain ⟨streak, hstreak, hcount, hlt⟩ := hs
  obtain ⟨-, p, htrans, rfl⟩ := step_eq_some h
  obtain ⟨r, now, rfl, hmany⟩ := htrans.from_closed hclosed htrip
  refine ⟨_, hstreak.concat hclosed rfl, ?_⟩
  rw [int32_eq (by omega) hfits, int32_eq (by omega) (by omega)] at hmany
  rw [requests_concat, length_append]
  show ((_ + 1 : Nat) : Int) = _
  omega

/-! ## The open period -/

/-- The end of the open period that a report may start is an `int64`. -/
def EndsInRange (cfg : Config) : Call → Prop
  | .failure _ now => now + cfg.openDuration < 2 ^ 63
  | _ => True

/-- Every `Allow` within the duration after a trip is refused. -/
def RefusedWhileOpen (duration : Int) (log : List Entry) : Prop :=
  log.Pairwise fun e f => ∀ t r t', e.tripsAt t → f.call = .allow r t' → t' < t + duration →
    f.answer = false

structure OpenKept (s : History) : Prop where
  range : s.breaker.state = .opened → s.breaker.openedAt + s.breaker.cfg.openDuration < 2 ^ 63
  trips : ∀ e ∈ s.log, ∀ t, e.tripsAt t → (s.breaker.state = .opened ∧ t ≤ s.breaker.openedAt) ∨
      t + s.breaker.cfg.openDuration ≤ s.now
  refused : RefusedWhileOpen s.breaker.cfg.openDuration s.log

theorem Enabled.now_le (h : Enabled s a) : s.now ≤ a.time s.now := by
  cases a with
  | allow r now => exact h.1
  | success r => exact le_refl _
  | failure r now => exact h

theorem RefusedWhileOpen.concat {duration : Int} {f : Entry} (h : RefusedWhileOpen duration log)
    (hf : ∀ r t', f.call = .allow r t' → f.answer = false ∨
      ∀ e ∈ log, ∀ t, e.tripsAt t → t + duration ≤ t') :
    RefusedWhileOpen duration (log ++ [f]) := by
  refine pairwise_append.mpr ⟨h, pairwise_singleton _ _, ?_⟩
  intro e he f' hf' t r t' htrip hcall hearly
  rw [mem_singleton.mp hf'] at hcall ⊢
  rcases hf r t' hcall with hno | hover
  · exact hno
  · have hend := hover e he t htrip
    omega

theorem OpenKept.over (hs : OpenKept s) (hnot : s.breaker.state ≠ .opened) (hnow : s.now ≤ now) :
    ∀ e ∈ s.log, ∀ t, e.tripsAt t → t + s.breaker.cfg.openDuration ≤ now := by
  intro e he t htrip
  rcases hs.trips e he t htrip with ⟨hopen, -⟩ | hover
  · exact absurd hopen hnot
  · exact hover.trans hnow

theorem OpenKept.record_of_over {p : Breaker × Bool} (hs : OpenKept s)
    (hcfg : p.1.cfg = s.breaker.cfg) (hnot : p.1.state ≠ .opened)
    (hover : ∀ e ∈ s.log, ∀ t, e.tripsAt t → t + s.breaker.cfg.openDuration ≤ a.time s.now) :
    OpenKept (record s a p) := by
  have hcfg' : (record s a p).breaker.cfg = s.breaker.cfg := hcfg
  refine ⟨fun hopen => absurd hopen hnot, ?_, ?_⟩
  · intro e he t htrip
    rcases mem_append.mp he with he | he
    · right
      rw [hcfg']
      exact hover e he t htrip
    · rw [mem_singleton.mp he] at htrip
      exact absurd htrip.2.2 hnot
  · rw [hcfg']
    refine hs.refused.concat fun r t' hcall => .inr ?_
    have ha : a = .allow r t' := hcall
    rw [ha] at hover
    exact hover

theorem step_openKept (hs : OpenKept s)
    (hduration : s.breaker.cfg.openDuration = cfg.openDuration) (ha : EndsInRange cfg a)
    (h : step s a = some s') : OpenKept s' := by
  obtain ⟨hen, p, htrans, rfl⟩ := step_eq_some h
  have hcfg := htrans.cfg_eq
  have hcfg' : (record s a p).breaker.cfg = s.breaker.cfg := hcfg
  have hnow := hen.now_le
  obtain ⟨hb, hp⟩ | ⟨r, now, rfl, hb, hp, hat⟩ | ⟨hb, hp, hno⟩ | ⟨r, now, rfl, hb, hp, htime⟩ :=
    htrans.around_opened
  · exact hs.record_of_over hcfg hp (hs.over hb hnow)
  · refine ⟨fun _ => ?_, ?_, ?_⟩
    · rw [hcfg', hduration]
      show p.1.openedAt + cfg.openDuration < 2 ^ 63
      rw [hat]
      exact ha
    · intro e he t htrip
      rcases mem_append.mp he with he | he
      · right
        rw [hcfg']
        exact hs.over hb hnow e he t htrip
      rw [mem_singleton.mp he] at htrip
      obtain ⟨⟨r', hcall⟩, -, -⟩ := htrip
      cases hcall
      exact .inl ⟨hp, le_of_eq hat.symm⟩
    · rw [hcfg']
      exact hs.refused.concat nofun
  · refine ⟨fun _ => ?_, ?_, ?_⟩
    · show p.1.openedAt + p.1.cfg.openDuration < 2 ^ 63
      rw [hp]
      exact hs.range hb
    · intro e he t htrip
      rcases mem_append.mp he with he | he
      · show (p.1.state = .opened ∧ t ≤ p.1.openedAt) ∨ t + p.1.cfg.openDuration ≤ _
        rw [hp]
        exact (hs.trips e he t htrip).imp_right fun hover => hover.trans hnow
      · rw [mem_singleton.mp he] at htrip
        exact absurd hb htrip.2.1
    · rw [hcfg']
      exact hs.refused.concat fun r t' hcall => .inl (hno r t' hcall)
  · refine hs.record_of_over hcfg hp fun e he t htrip => ?_
    rcases hs.trips e he t htrip with ⟨-, hle⟩ | hover
    · -- the open period that ends here began no earlier than this trip
      have hend := (le_int64 (hs.range hb)).trans htime
      show _ ≤ now
      omega
    · exact hover.trans hnow

/-! ## Whole histories -/

/-- The thresholds are the same numbers as `int32`. -/
structure Config.Fits (cfg : Config) : Prop where
  failures : 1 ≤ cfg.failureThreshold ∧ cfg.failureThreshold < 2 ^ 31
  successes : 1 ≤ cfg.halfOpenSuccessThreshold ∧ cfg.halfOpenSuccessThreshold < 2 ^ 31
  trials : cfg.maxHalfOpenRequests < 2 ^ 31

def InRange (cfg : Config) (s : History) (a : Call) : Prop := ShortTrial s a ∧ EndsInRange cfg a

instance (cfg : Config) (s : History) : ∀ a, Decidable (InRange cfg s a)
  | .failure _ _ => inferInstanceAs (Decidable ((_ → _ < _) ∧ _ < _))
  | .allow _ _ | .success _ => inferInstanceAs (Decidable ((_ → _ < _) ∧ True))

structure Guarded (cfg : Config) (s : History) : Prop where
  configured : Configured cfg s
  names : (requests asks s.log).Nodup
  counted : s.breaker.state = .halfOpen → TrialCounted s
  issued : s.breaker.state = .halfOpen → TrialIssued s
  failures : s.breaker.state = .closed → FailuresCounted s
  kept : OpenKept s

section
variable {cfg : Config} {s s' : History} {a : Call}

section
variable (h : Configured cfg s)
include h

theorem Configured.failureThreshold : s.breaker.cfg.failureThreshold = cfg.failureThreshold := by
  rw [h, newWithClock_cfg]

theorem Configured.openDuration : s.breaker.cfg.openDuration = cfg.openDuration := by
  rw [h, newWithClock_cfg]

theorem Configured.halfOpenSuccessThreshold :
    s.breaker.cfg.halfOpenSuccessThreshold = cfg.halfOpenSuccessThreshold := by
  rw [h, newWithClock_cfg]

theorem Configured.maxHalfOpenRequests :
    s.breaker.cfg.maxHalfOpenRequests =
      max cfg.maxHalfOpenRequests cfg.halfOpenSuccessThreshold := by
  rw [h, newWithClock_cfg]

end

theorem start_guarded (hcfg : cfg.Fits) (now : Int) : Guarded cfg (start cfg now) where
  configured := rfl
  names := nodup_nil
  counted := nofun
  issued := nofun
  failures := fun _ => by
    refine ⟨[], ⟨nil_suffix, fun _ he => absurd he not_mem_nil⟩, rfl, ?_⟩
    have hpos := hcfg.failures.1
    show 0 < (newWithClock cfg).cfg.failureThreshold
    rw [newWithClock_cfg]
    show 0 < cfg.failureThreshold
    omega
  kept := ⟨nofun, fun _ he => absurd he not_mem_nil, List.Pairwise.nil⟩

theorem step_guarded (hcfg : cfg.Fits) (hs : Guarded cfg s) (ha : InRange cfg s a)
    (h : step s a = some s') : Guarded cfg s' := by
  have hfail := hs.configured.failureThreshold
  have hmax := hs.configured.maxHalfOpenRequests
  obtain ⟨⟨hf1, hf2⟩, ⟨hs1, hs2⟩, hm⟩ := hcfg
  exact {
    configured := step_configured hs.configured h
    names := step_asks_nodup hs.names h
    counted := step_trialCounted hs.counted h
    issued := step_trialIssued (by omega) (by omega) hs.issued ha.1 h
    failures := step_failuresCounted (by omega) (by omega) hs.failures h
    kept := step_openKept hs.kept hs.configured.openDuration ha.2 h }

end

/-- With thresholds that fit, in every history of calls within the ranges of the counters:
`Allow` is refused while a trip lasts; a half-open period lets through no more than the
stored `MaxHalfOpenRequests`; a closed breaker trips only at the end of a streak of
`FailureThreshold` failures; and while a half-open breaker refuses, a request that was let
through in the period has not reported. -/
theorem histories_guarded (cfg : Config) (hcfg : cfg.Fits) (now : Int) (calls : List Call)
    (s : History) (hrange : RunMeets step (InRange cfg) (start cfg now) calls)
    (hrun : run step (start cfg now) calls = some s) :
    RefusedWhileOpen cfg.openDuration s.log ∧
    (s.breaker.state = .halfOpen → ((requests grants (trial s.log)).length : Int) ≤
        max cfg.maxHalfOpenRequests cfg.halfOpenSuccessThreshold) ∧
    (s.breaker.state = .closed → ∀ a s', step s a = some s' → s'.breaker.state = .opened →
      ∃ streak, ClosedStreak s'.log streak ∧
        ((requests fails streak).length : Int) = cfg.failureThreshold) ∧
    (s.breaker.state = .halfOpen → ∀ t, (s.breaker.allow t).2 = false →
      ∃ r ∈ requests grants (trial s.log), r ∉ requests reports (trial s.log)) := by
  have hs : Guarded cfg s :=
    run_invariant_of_meets (I := Guarded cfg) (fun s a s' => step_guarded hcfg)
      (start_guarded hcfg now) hrange hrun
  have hfail := hs.configured.failureThreshold
  have hsuccess := hs.configured.halfOpenSuccessThreshold
  have hmax := hs.configured.maxHalfOpenRequests
  obtain ⟨⟨hf1, hf2⟩, ⟨hs1, hs2⟩, hm⟩ := hcfg
  refine ⟨?_, ?_, ?_, ?_⟩
  · rw [← hs.configured.openDuration]
    exact hs.kept.refused
  · intro hhalf
    have hgranted := (hs.issued hhalf).granted
    omega
  · intro hclosed a s' h htrip
    rw [← hfail]
    exact (hs.failures hclosed).of_trip (by omega) (by omega) hclosed h htrip
  intro hhalf t hrefused
  exact exists_unreported (by omega) (by omega) (by omega) hs.names (hs.counted hhalf)
    (hs.issued hhalf) hhalf hrefused

theorem histories_guarded_trial :
    ∃ s, run step (start ⟨1, 10, 1, 1⟩ 0)
        [.allow 1 0, .failure 1 0, .allow 2 5, .allow 3 10, .allow 4 11] = some s ∧
      s.breaker.state = .halfOpen ∧ (s.breaker.allow 12).2 = false ∧
      ∃ r ∈ requests grants (trial s.log), r ∉ requests reports (trial s.log) := by
  have hfits : Config.Fits ⟨1, 10, 1, 1⟩ := ⟨by decide, by decide, by decide⟩
  refine exists_some_imp (A := fun s => s.breaker.state = .halfOpen ∧
    (s.breaker.allow 12).2 = false)
    (by decide +kernel) fun s hrun ⟨hhalf, hrefused⟩ => ?_
  exact ⟨hhalf, hrefused,
    (histories_guarded _ hfits _ _ s (by decide +kernel) hrun).2.2.2 hhalf 12 hrefused⟩

/-- A `FailureThreshold` of 2^31 is negative as an `int32`: the first failure trips. -/
theorem wide_threshold_trips :
    ∃ s ∈ run step (start ⟨2 ^ 31, 10, 1, 1⟩ 0) [.allow 1 0], s.breaker.state = .closed ∧
      ∃ s' ∈ step s (.failure 1 0), s'.breaker.state = .opened ∧
        ((requests fails s'.log).length : Int) < 2 ^ 31 := by
  decide +kernel

end GoServices.Gateway.Breaker
