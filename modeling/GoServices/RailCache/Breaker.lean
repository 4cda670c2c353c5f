/-
The circuit breaker around the store of the rail search cache.

`allow` lets calls through while the breaker is closed and one probe after the cooldown.
-/
import GoServices.Base.Run
import GoServices.Base.Table

namespace GoServices.RailCache

open List

inductive Outcome
  | ok
  | miss
  | failed
  deriving DecidableEq

def Outcome.success : Outcome → Bool
  | .ok | .miss => true
  | .failed => false

structure Breaker where
  threshold : Int
  cooldown : Int
  failures : Int
  /-- The zero time is `none`. -/
  openUntil : Option Int
  halfOpen : Bool

def newBreaker (threshold cooldown : Int) : Breaker := ⟨threshold, cooldown, 0, none, false⟩

namespace Breaker

def allow (b : Breaker) (now : Int) : Breaker × Bool × Bool :=
  match b.openUntil with
  | none => (b, true, false)
  | some openUntil =>
    if now < openUntil then (b, false, false)
    else if b.halfOpen then (b, false, false)
    else ({ b with halfOpen := true }, true, true)

/-- The breaker after the outcome of a call, with what `stateChanged` is called with. -/
def record (b : Breaker) (outcome : Outcome) (probe : Bool) (now : Int) : Breaker × Option Bool :=
  if outcome.success then
    ({ b with failures := 0, openUntil := none, halfOpen := false },
      if b.openUntil.isSome then some false else none)
  else if probe then
    ({ b with openUntil := some (now + b.cooldown), halfOpen := false }, none)
  else
    let b := { b with failures := b.failures + 1 }
    if b.failures ≥ b.threshold && b.openUntil.isNone then
      ({ b with openUntil := some (now + b.cooldown) }, some true)
    else (b, none)

end Breaker

/-! ## Calls -/

/-- A call through the breaker: `GetWithTTL`, `SetEx`, `Del` and `Acquire` all go this way. -/
inductive Call
  | admitted (probe : Bool)
  | inner (probe : Bool)
  | answered (probe : Bool) (outcome : Outcome)
  /-- The call has returned, with `ErrBreakerOpen` or with what the inner call returned. -/
  | returned (rejected : Bool)
  deriving DecidableEq

def Call.probing : Call → Bool
  | .admitted probe | .inner probe | .answered probe _ => probe
  | .returned _ => false

structure State where
  breaker : Breaker
  calls : Table Nat Call
  clock : Int
  deadlines : List Int

inductive Label
  | allow (call : Nat) (now : Int)
  | start (call : Nat) (now : Int)
  | answer (call : Nat) (outcome : Outcome) (now : Int)
  | record (call : Nat) (now : Int)

def Label.now : Label → Int
  | .allow _ now | .start _ now | .answer _ _ now | .record _ now => now

variable (s : State)

def State.setCall (n : Nat) (c : Call) : State := { s with calls := s.calls.set n c }

def State.allow (s : State) (n : Nat) (now : Int) : State :=
  match s.breaker.allow now with
  | (b, true, probe) => { s with breaker := b }.setCall n (.admitted probe)
  | (b, false, _) => { s with breaker := b }.setCall n (.returned true)

def State.record (s : State) (n : Nat) (probe : Bool) (outcome : Outcome) (now : Int) : State :=
  let b := (s.breaker.record outcome probe now).1
  let deadlines := s.deadlines ++ b.openUntil.toList
  { s with breaker := b, deadlines := deadlines }.setCall n (.returned false)

def step (a : Label) : Option State :=
  if a.now < s.clock then none
  else
    let s := { s with clock := a.now }
    match a with
    | .allow n now =>
      match s.calls.get? n with
      | none => some (s.allow n now)
      | some _ => none
    | .start n _ =>
      match s.calls.get? n with
      | some (.admitted probe) => some (s.setCall n (.inner probe))
      | _ => none
    | .answer n outcome _ =>
      match s.calls.get? n with
      | some (.inner probe) => some (s.setCall n (.answered probe outcome))
      | _ => none
    | .record n now =>
      match s.calls.get? n with
      | some (.answered probe outcome) => some (s.record n probe outcome now)
      | _ => none

def State.new (threshold cooldown now : Int) : State :=
  ⟨newBreaker threshold cooldown, .empty, now, []⟩

def State.Probing (n : Nat) : Prop := ∃ c, s.calls.get? n = some c ∧ c.probing = true

def Kept (a : Label) : Prop :=
  (∀ n now, a = .start n now → ∀ u ∈ s.deadlines, u ≤ now) ∧
  ∀ s', step s a = some s' → (∀ m n, s'.Probing m → s'.Probing n → m = n) ∧
    (s.breaker.openUntil ≠ none → s'.breaker.openUntil = none →
      ∃ n now outcome, a = .record n now ∧ s.calls.get? n = some (.answered true outcome) ∧
        outcome.success = true)

def Call.ordinarySuccess : Call → Bool
  | .answered false outcome => outcome.success
  | _ => false

def OnTime : Label → Prop
  | .start n now => s.calls.get? n = some (.admitted false) → ∀ u ∈ s.breaker.openUntil, u ≤ now
  | .record n _ => ∀ c ∈ s.calls.get? n, c.ordinarySuccess = true → s.breaker.openUntil = none
  | _ => True

instance (s : State) : ∀ a, Decidable (OnTime s a) := fun _ => by
  unfold OnTime
  split <;> infer_instance

/-! ## One step -/

def State.closed (s : State) (n : Nat) (now : Int) : State :=
  { s with
    breaker := { s.breaker with failures := 0, openUntil := none, halfOpen := false }
    clock := now
    calls := s.calls.set n (.returned false) }

inductive Trans (s : State) : Label → State → Prop
  | allowed (n now : _) (hnew : s.calls.get? n = none) (hclosed : s.breaker.openUntil = none) :
    Trans s (.allow n now) { s with clock := now, calls := s.calls.set n (.admitted false) }
  | rejected (n now : _) (hnew : s.calls.get? n = none) :
    Trans s (.allow n now) { s with clock := now, calls := s.calls.set n (.returned true) }
  | probe (n now u : _) (hnew : s.calls.get? n = none)
    (hopen : s.breaker.openUntil = some u) (hcooled : u ≤ now)
    (hhalf : s.breaker.halfOpen = false) :
    Trans s (.allow n now) { s with
      breaker := { s.breaker with halfOpen := true }
      clock := now
      calls := s.calls.set n (.admitted true) }
  | start (n now probe : _) (hcall : s.calls.get? n = some (.admitted probe)) :
    Trans s (.start n now) { s with clock := now, calls := s.calls.set n (.inner probe) }
  | answer (n now probe outcome : _) (hcall : s.calls.get? n = some (.inner probe)) :
    Trans s (.answer n outcome now)
      { s with clock := now, calls := s.calls.set n (.answered probe outcome) }
  | succeeded (n now probe outcome : _)
    (hcall : s.calls.get? n = some (.answered probe outcome)) (hsuccess : outcome.success = true) :
    Trans s (.record n now) (s.closed n now)
  | probeFailed (n now outcome : _) (hcall : s.calls.get? n = some (.answered true outcome)) :
    Trans s (.record n now) { s with
      breaker := { s.breaker with openUntil := some (now + s.breaker.cooldown), halfOpen := false }
      clock := now
      deadlines := s.deadlines ++ [now + s.breaker.cooldown]
      calls := s.calls.set n (.returned false) }
  | tripped (n now outcome : _)
    (hcall : s.calls.get? n = some (.answered false outcome)) (hfailed : outcome.success = false)
    (hclosed : s.breaker.openUntil = none) :
    Trans s (.record n now) { s with
      breaker := { s.breaker with
        failures := s.breaker.failures + 1
        openUntil := some (now + s.breaker.cooldown) }
      clock := now
      deadlines := s.deadlines ++ [now + s.breaker.cooldown]
      calls := s.calls.set n (.returned false) }
  | counted (n now outcome : _)
    (hcall : s.calls.get? n = some (.answered false outcome)) (hfailed : outcome.success = false) :
    Trans s (.record n now) { s with
      breaker := { s.breaker with failures := s.breaker.failures + 1 }
      clock := now
      deadlines := s.deadlines ++ s.breaker.openUntil.toList
      calls := s.calls.set n (.returned false) }

theorem allow_trans {s : State} {n : Nat} (now : Int) (hnew : s.calls.get? n = none) :
    Trans s (.allow n now) ({ s with clock := now }.allow n now) := by
  unfold State.allow
  cases hopen : s.breaker.openUntil with
  | none =>
    have hallow : s.breaker.allow now = (s.breaker, true, false) := by
      simp only [Breaker.allow, hopen]
    rw [hallow]
    exact .allowed n now hnew hopen
  | some u =>
    by_cases hrefuse : now < u ∨ s.breaker.halfOpen = true
    · have hallow : s.breaker.allow now = (s.breaker, false, false) := by
        rcases hrefuse with hcooling | hhalf
        · simp [Breaker.allow, hopen, hcooling]
        · simp [Breaker.allow, hopen, hhalf]
      rw [hallow]
      exact .rejected n now hnew
    · rw [not_or, not_lt, Bool.not_eq_true] at hrefuse
      have hallow : s.breaker.allow now = ({ s.breaker with halfOpen := true }, true, true) := by
        simp [Breaker.allow, hopen, not_lt.mpr hrefuse.1, hrefuse.2]
      rw [hallow]
      exact .probe n now u hnew hopen hrefuse.1 hrefuse.2

theorem record_trans {s : State} {n : Nat} {probe : Bool} {outcome : Outcome} (now : Int)
    (hcall : s.calls.get? n = some (.answered probe outcome)) :
    Trans s (.record n now) ({ s with clock := now }.record n probe outcome now) := by
  unfold State.record
  cases hsuccess : outcome.success with
  | true =>
    have hrecord : (s.breaker.record outcome probe now).1 =
        { s.breaker with failures := 0, openUntil := none, halfOpen := false } := by
      simp [Breaker.record, hsuccess]
    simp only [hrecord, Option.toList_none, append_nil]
    exact .succeeded n now probe outcome hcall hsuccess
  | false =>
    cases probe with
    | true =>
      have hrecord : (s.breaker.record outcome true now).1 =
          { s.breaker with openUntil := some (now + s.breaker.cooldown), halfOpen := false } := by
        simp [Breaker.record, hsuccess]
      simp only [hrecord]
      exact .probeFailed n now outcome hcall
    | false =>
      by_cases htrip : s.breaker.threshold ≤ s.breaker.failures + 1 ∧ s.breaker.openUntil = none
      · have hrecord : (s.breaker.record outcome false now).1 = { s.breaker with
            failures := s.breaker.failures + 1
            openUntil := some (now + s.breaker.cooldown) } := by
          simp [Breaker.record, hsuccess, htrip]
        simp only [hrecord]
        exact .tripped n now outcome hcall hsuccess htrip.2
      · have hrecord : (s.breaker.record outcome false now).1 =
            { s.breaker with failures := s.breaker.failures + 1 } := by
          simp [Breaker.record, hsuccess, htrip]
        simp only [hrecord]
        exact .counted n now outcome hcall hsuccess

theorem step_trans {s s' : State} {a : Label} (h : step s a = some s') :
    s.clock ≤ a.now ∧ Trans s a s' := by
  revert h
  fun_cases step s a <;> rintro ⟨⟩
  · exact ⟨not_lt.mp ‹_›, allow_trans _ ‹_›⟩
  · exact ⟨not_lt.mp ‹_›, .start _ _ _ ‹_›⟩
  · exact ⟨not_lt.mp ‹_›, .answer _ _ _ _ ‹_›⟩
  · exact ⟨not_lt.mp ‹_›, record_trans _ ‹_›⟩

/-! ## The promise -/

structure Inv (s : State) : Prop where
  recorded : ∀ u, s.breaker.openUntil = some u → u ∈ s.deadlines
  cooled : ∀ u ∈ s.deadlines, u ≤ s.clock ∨ ∃ v, s.breaker.openUntil = some v ∧ u ≤ v
  probing : ∀ n, s.Probing n → s.breaker.halfOpen = true ∧ s.breaker.openUntil ≠ none ∧
    ∀ u ∈ s.deadlines, u ≤ s.clock
  one : ∀ m n, s.Probing m → s.Probing n → m = n

theorem new_inv (threshold cooldown now : Int) : Inv (State.new threshold cooldown now) where
  recorded := nofun
  cooled := fun _ h => absurd h List.not_mem_nil
  probing := by
    rintro n ⟨c, hc, -⟩
    cases hc
  one := by
    rintro m n ⟨c, hc, -⟩
    cases hc

section Step

variable {s s' : State} {a : Label} {n : Nat} {c : Call}

theorem probing_set (h : s'.calls = s.calls.set n c) {m : Nat}
    (hm : s'.Probing m) : (m = n ∧ c.probing = true) ∨ (m ≠ n ∧ s.Probing m) := by
  obtain ⟨d, hd, hprobing⟩ := hm
  rw [h] at hd
  obtain ⟨rfl, rfl⟩ | ⟨hne, hd⟩ := Table.set_cases hd
  · exact .inl ⟨rfl, hprobing⟩
  · exact .inr ⟨hne, d, hd, hprobing⟩

theorem Inv.closed (h : Inv s) (hclosed : s.breaker.openUntil = none) :
    (∀ n, ¬s.Probing n) ∧ ∀ u ∈ s.deadlines, u ≤ s.clock := by
  refine ⟨fun n hn => (h.probing n hn).2.1 hclosed, fun u hu => ?_⟩
  obtain hle | ⟨v, hv, -⟩ := h.cooled u hu
  · exact hle
  · rw [hclosed] at hv
    cases hv

theorem Inv.quiet (h : Inv s) (hopen : s'.breaker.openUntil = s.breaker.openUntil)
    (hhalf : s'.breaker.halfOpen = s.breaker.halfOpen) (hclock : s.clock ≤ s'.clock)
    (hdeadlines : ∀ u, u ∈ s'.deadlines ↔ u ∈ s.deadlines)
    (hprobing : ∀ n, s'.Probing n → s.Probing n) : Inv s' where
  recorded := fun u hu => (hdeadlines u).mpr (h.recorded u (hopen ▸ hu))
  cooled := by
    intro u hu
    rw [hopen]
    exact (h.cooled u ((hdeadlines u).mp hu)).imp_left fun hle => le_trans hle hclock
  probing := by
    intro n hn
    obtain ⟨hhalf', hopen', hle⟩ := h.probing n (hprobing n hn)
    rw [hopen, hhalf]
    exact ⟨hhalf', hopen', fun u hu => le_trans (hle u ((hdeadlines u).mp hu)) hclock⟩
  one := fun m n hm hn => h.one m n (hprobing m hm) (hprobing n hn)

theorem Inv.last_probe (h : Inv s) (hn : s.Probing n)
    (hcalls : s'.calls = s.calls.set n c) (hc : c.probing = false) (m : Nat) : ¬s'.Probing m := by
  intro hm
  obtain ⟨-, hprobing⟩ | ⟨hne, hm⟩ := probing_set hcalls hm
  · rw [hc] at hprobing
    cases hprobing
  · exact hne (h.one m n hm hn)

theorem Inv.succeeded (h : Inv s) {now : Int} {probe : Bool} {outcome : Outcome}
    (hclock : s.clock ≤ now) (hcall : s.calls.get? n = some (.answered probe outcome))
    (htime : probe = false → s.breaker.openUntil = none) :
    Inv (s.closed n now) := by
  -- Either the probe reports, or the breaker is closed and there is none.
  have hnone : (∀ m, ¬State.Probing (s.closed n now) m) ∧ ∀ u ∈ s.deadlines, u ≤ s.clock := by
    cases probe with
    | true =>
      have hn : s.Probing n := ⟨_, hcall, rfl⟩
      exact ⟨h.last_probe hn rfl rfl, (h.probing n hn).2.2⟩
    | false =>
      obtain ⟨hnot, hle⟩ := h.closed (htime rfl)
      refine ⟨fun m hm => ?_, hle⟩
      obtain ⟨-, hprobing⟩ | ⟨-, hm⟩ := probing_set rfl hm
      · cases hprobing
      · exact hnot m hm
  exact {
    recorded := nofun
    cooled := fun u hu => .inl (le_trans (hnone.2 u hu) hclock)
    probing := fun m hm => absurd hm (hnone.1 m)
    one := fun m _ hm => absurd hm (hnone.1 m) }

theorem Inv.reopened (hle : ∀ u ∈ s.deadlines, u ≤ s'.clock) {v : Int}
    (hopen : s'.breaker.openUntil = some v) (hdeadlines : s'.deadlines = s.deadlines ++ [v])
    (hnot : ∀ m, ¬s'.Probing m) : Inv s' where
  recorded := by
    intro u hu
    rw [hopen] at hu
    cases hu
    rw [hdeadlines]
    exact mem_concat_self
  cooled := by
    intro u hu
    rw [hdeadlines] at hu
    rcases mem_append.mp hu with hu | hu
    · exact .inl (hle u hu)
    · exact .inr ⟨v, hopen, le_of_eq (mem_singleton.mp hu)⟩
  probing := fun m hm => absurd hm (hnot m)
  one := fun m _ hm => absurd hm (hnot m)

theorem step_inv (h : Inv s) (htime : OnTime s a) (hstep : step s a = some s') : Inv s' := by
  obtain ⟨hclock, htrans⟩ := step_trans hstep
  cases htrans with
  | allowed n now | rejected n now =>
    refine h.quiet rfl rfl hclock (fun _ => Iff.rfl) fun m hm => ?_
    obtain ⟨-, hprobing⟩ | ⟨-, hm⟩ := probing_set rfl hm
    · cases hprobing
    · exact hm
  | start n now probe hcall | answer n now probe outcome hcall =>
    refine h.quiet rfl rfl hclock (fun _ => Iff.rfl) fun m hm => ?_
    obtain ⟨rfl, hprobing⟩ | ⟨-, hm⟩ := probing_set rfl hm
    · exact ⟨_, hcall, hprobing⟩
    · exact hm
  | probe n now u hnew hopen hcooled hhalf =>
    have hnot : ∀ m, ¬s.Probing m := by
      intro m hm
      have := (h.probing m hm).1
      rw [hhalf] at this
      cases this
    have hle : ∀ d ∈ s.deadlines, d ≤ now := by
      intro d hd
      obtain hd | ⟨v, hv, hd⟩ := h.cooled d hd
      · exact le_trans hd hclock
      rw [hopen] at hv
      cases hv
      exact le_trans hd hcooled
    have honly : ∀ m, State.Probing { s with
        breaker := { s.breaker with halfOpen := true }
        clock := now
        calls := s.calls.set n (.admitted true) } m → m = n := by
      intro m hm
      obtain ⟨hmn, -⟩ | ⟨-, hm⟩ := probing_set rfl hm
      · exact hmn
      · exact absurd hm (hnot m)
    exact {
      recorded := h.recorded
      cooled := fun d hd => .inl (hle d hd)
      probing := fun m _ => ⟨rfl, by rw [hopen]; exact Option.some_ne_none u, hle⟩
      one := fun m k hm hk => (honly m hm).trans (honly k hk).symm }
  | succeeded n now probe outcome hcall hsuccess =>
    refine h.succeeded hclock hcall fun hprobe => ?_
    rw [hprobe] at hcall
    exact htime _ hcall hsuccess
  | probeFailed n now outcome hcall =>
    have hn : s.Probing n := ⟨_, hcall, rfl⟩
    exact Inv.reopened (fun u hu => le_trans ((h.probing n hn).2.2 u hu) hclock) rfl rfl
      (h.last_probe hn rfl rfl)
  | tripped n now outcome hcall hfailed hclosed =>
    obtain ⟨hnot, hle⟩ := h.closed hclosed
    refine Inv.reopened (fun u hu => le_trans (hle u hu) hclock) rfl rfl fun m hm => ?_
    obtain ⟨-, hprobing⟩ | ⟨-, hm⟩ := probing_set rfl hm
    · cases hprobing
    · exact hnot m hm
  | counted n now outcome hcall hfailed =>
    refine h.quiet rfl rfl hclock (fun u => ?_) fun m hm => ?_
    · rw [mem_append, or_iff_left_iff_imp, Option.mem_toList]
      exact h.recorded u
    obtain ⟨-, hprobing⟩ | ⟨-, hm⟩ := probing_set rfl hm
    · cases hprobing
    · exact hm

theorem step_kept_of_onTime (h : Inv s) (htime : OnTime s a) (hstep : step s a = some s') :
    Kept s a := by
  have hinv := step_inv h htime hstep
  obtain ⟨hclock, htrans⟩ := step_trans hstep
  refine ⟨?_, fun t ht => ?_⟩
  · rintro n now rfl u hu
    cases htrans with
    | start _ _ probe hcall =>
      cases probe with
      | true => exact le_trans ((h.probing n ⟨_, hcall, rfl⟩).2.2 u hu) hclock
      | false =>
        obtain hle | ⟨v, hv, hle⟩ := h.cooled u hu
        · exact le_trans hle hclock
        · exact le_trans hle (htime hcall v hv)
  rw [hstep] at ht
  cases ht
  refine ⟨hinv.one, fun hopen hclosed => ?_⟩
  cases htrans with
  | succeeded n now probe outcome hcall hsuccess =>
    cases probe with
    | true => exact ⟨n, now, outcome, rfl, hcall, hsuccess⟩
    | false => exact absurd (htime _ hcall hsuccess) hopen
  | probeFailed | tripped => cases hclosed
  | _ => exact absurd hclosed hopen

theorem onTime_of_kept (h : Inv s) (hkept : Kept s a) (hstep : step s a = some s') :
    OnTime s a := by
  obtain ⟨hstart, hafter⟩ := hkept
  cases a with
  | allow | answer => trivial
  | start n now => exact fun _ u hu => hstart n now rfl u (h.recorded u hu)
  | record n now =>
    intro c hcall hsuccess
    by_contra hopen
    obtain ⟨outcome, rfl, hok⟩ : ∃ outcome, c = .answered false outcome ∧
        outcome.success = true := by
      unfold Call.ordinarySuccess at hsuccess
      split at hsuccess <;> try cases hsuccess
      exact ⟨_, rfl, hsuccess⟩
    have hclosed : s'.breaker.openUntil = none := by
      have htrans := (step_trans hstep).2
      cases htrans with
      | succeeded => rfl
      | probeFailed _ _ _ hcall' =>
        rw [hcall] at hcall'
        cases hcall'
      | tripped _ _ _ hcall' hfailed | counted _ _ _ hcall' hfailed =>
        rw [hcall] at hcall'
        cases hcall'
        rw [hok] at hfailed
        cases hfailed
    obtain ⟨m, _, _, heq, hprobe, -⟩ := (hafter s' hstep).2 hopen hclosed
    cases heq
    rw [hcall] at hprobe
    cases hprobe

end Step

/-- The breaker keeps its promise throughout a run exactly when every call is on time. -/
theorem kept_iff_onTime (threshold cooldown now : Int) (as : List Label) (s : State)
    (hrun : run step (State.new threshold cooldown now) as = some s) :
    RunMeets step Kept (State.new threshold cooldown now) as ↔
      RunMeets step OnTime (State.new threshold cooldown now) as :=
  runMeets_iff (fun _ _ _ h htime hstep => step_inv h htime hstep)
    (fun _ _ _ h hstep => ⟨fun hkept => onTime_of_kept h hkept hstep,
      fun htime => step_kept_of_onTime h htime hstep⟩)
    (new_inv threshold cooldown now) hrun

theorem kept_iff_onTime_probe :
    RunMeets step Kept (State.new 1 10 0)
      [.allow 1 0, .start 1 0, .answer 1 .failed 1, .record 1 1, .allow 2 5, .allow 3 11,
        .start 3 11, .answer 3 .miss 12, .record 3 12, .allow 4 13, .start 4 13] := by
  refine (kept_iff_onTime 1 10 0 _ _ (Option.eq_some_of_isSome ?_)).mpr ?_ <;> decide +kernel

/-- Calls 1 and 2 are let through; the failure of call 1 opens the breaker until 11, and the
late success of call 2 closes it at 2, so that call 3 starts at 3. -/
theorem stray_success_closes :
    (∃ s ∈ run step (State.new 1 10 0)
        [.allow 1 0, .allow 2 0, .start 1 0, .start 2 0, .answer 1 .failed 1, .record 1 1,
          .answer 2 .ok 2],
      s.breaker.openUntil = some 11 ∧ s.calls.get? 2 = some (.answered false .ok) ∧
      ∃ s' ∈ run step s [.record 2 2, .allow 3 3, .start 3 3],
        s'.breaker.openUntil = none ∧ s'.calls.get? 3 = some (.inner false)) ∧
    ∃ s ∈ run step (State.new 1 10 0)
        [.allow 1 0, .allow 2 0, .start 1 0, .start 2 0, .answer 1 .failed 1, .record 1 1,
          .answer 2 .ok 2, .allow 3 11, .start 3 11, .record 2 12, .allow 4 12, .start 4 12,
          .answer 4 .failed 12, .record 4 12, .allow 5 22],
      s.calls.get? 3 = some (.inner true) ∧ s.calls.get? 5 = some (.admitted true) := by
  decide +kernel

end GoServices.RailCache
