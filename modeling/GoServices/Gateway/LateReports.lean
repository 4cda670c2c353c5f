/-
Which successes close the breaker.

`Success` does not say whose success it reports, and between its load, its addition and its
store under the lock other calls run.
-/
import GoServices.Gateway.Breaker

namespace GoServices.Gateway.Breaker.Atomics

open List

/-! ## The calls, one atomic operation at a time -/

/-- The next operation of a request.  It asks with `Allow` and, once admitted, reports once. -/
inductive Pc where
  | idle
  -- `Allow` and `tryTransitionToHalfOpen`
  | addIssued | loadOpenedAt
  | lockHalfOpen | loadOpen | storeOK | storeIssued | storeHalfOpen | unlockAllow (answer : Bool)
  | admitted | refused
  -- `Success`
  | storeFail | addOK | lockClosed | loadHalfOpen | storeClosed
  -- `Failure` and `trip`
  | addFail | lockOpen | storeOpen | storeOpenedAt
  -- the end of the locked parts of both
  | clearFail | unlockReport
  | reported
  deriving DecidableEq

/-- The breaker, its mutex, and one request. -/
structure View where
  breaker : Breaker
  locked : Bool
  pc : Pc

def View.goto (v : View) (pc : Pc) : View := { v with pc := pc }

def View.lock (v : View) (pc : Pc) : Option View :=
  if v.locked then none else some { v with locked := true, pc := pc }

/-- One operation inside a call; `now` is any reading of the clock, also an earlier one. -/
def View.next (now : Int) (v : View) : Option View :=
  let b := v.breaker
  match v.pc with
  | .idle | .admitted | .refused | .reported => none
  | .addIssued =>
    let issued := int32 (b.halfOpenIssued + 1)
    { v with breaker.halfOpenIssued := issued }.goto
      (if issued ≤ int32 b.cfg.maxHalfOpenRequests then .admitted else .refused)
  | .loadOpenedAt =>
    v.goto (if now < int64 (b.openedAt + b.cfg.openDuration) then .refused else .lockHalfOpen)
  | .lockHalfOpen => v.lock .loadOpen
  | .loadOpen => v.goto (if b.state ≠ .opened then .unlockAllow false else .storeOK)
  | .storeOK => { v with breaker.consecutiveOK := 0 }.goto .storeIssued
  | .storeIssued => { v with breaker.halfOpenIssued := 1 }.goto .storeHalfOpen
  | .storeHalfOpen => { v with breaker.state := .halfOpen }.goto (.unlockAllow true)
  | .unlockAllow answer => { v with locked := false }.goto (if answer then .admitted else .refused)
  | .storeFail => { v with breaker.consecutiveFail := 0 }.goto .reported
  | .addOK =>
    let ok := int32 (b.consecutiveOK + 1)
    { v with breaker.consecutiveOK := ok }.goto
      (if ok ≥ int32 b.cfg.halfOpenSuccessThreshold then .lockClosed else .reported)
  | .lockClosed => v.lock .loadHalfOpen
  | .loadHalfOpen => v.goto (if b.state = .halfOpen then .storeClosed else .unlockReport)
  | .storeClosed => { v with breaker.state := .closed }.goto .clearFail
  | .addFail =>
    let fail := int32 (b.consecutiveFail + 1)
    { v with breaker.consecutiveFail := fail }.goto
      (if fail ≥ int32 b.cfg.failureThreshold then .lockOpen else .reported)
  | .lockOpen => v.lock .storeOpen
  | .storeOpen => { v with breaker.state := .opened }.goto .storeOpenedAt
  | .storeOpenedAt => { v with breaker.openedAt := now }.goto .clearFail
  | .clearFail => { v with breaker.consecutiveFail := 0 }.goto .unlockReport
  | .unlockReport => { v with locked := false }.goto .reported

inductive Action where
  | allow
  | success
  | failure
  | next (now : Int)

/-- A call begins with the load of the state, which says what comes next. -/
def Action.load : Action → Circuit → Pc
  | .allow, .closed => .admitted
  | .allow, .halfOpen => .addIssued
  | .allow, .opened => .loadOpenedAt
  | .success, .closed => .storeFail
  | .success, .halfOpen => .addOK
  | .failure, .closed => .addFail
  | .failure, .halfOpen => .lockOpen
  | _, _ => .reported

def View.act (v : View) (a : Action) : Option View :=
  match a with
  | .next now => v.next now
  | .allow => if v.pc = .idle then v.goto (a.load v.breaker.state) else none
  | _ => if v.pc = .admitted then v.goto (a.load v.breaker.state) else none

/-! ## A call that runs alone -/

/-- The next `n` operations, with no other request in between. -/
def View.alone (now : Int) : Nat → View → Option View
  | 0, v => v
  | n + 1, v => (v.next now).bind (View.alone now n)

def first : Call → Pc × Action
  | .allow .. => (.idle, .allow)
  | .success _ => (.admitted, .success)
  | .failure .. => (.admitted, .failure)

def last (answer : Bool) : Call → Pc
  | .allow .. => if answer then .admitted else .refused
  | .success _ | .failure .. => .reported

/-- Uninterrupted, the operations of a call are the call of the breaker's model. -/
theorem perform_alone (b : Breaker) (a : Call) (now : Int) : ∃ n,
    (View.act ⟨b, false, (first a).1⟩ (first a).2).bind (View.alone (a.time now) n) =
      some ⟨(b.perform a).1, false, last (b.perform a).2 a⟩ := by
  have h := perform_transition b a
  generalize b.perform a = p at h ⊢
  cases h with
  | allowClosed r now hstate | successOpen r hstate | failureOpen r now hstate =>
    refine ⟨0, ?_⟩
    simp [View.act, Action.load, View.alone, View.goto, first, last, hstate]
  | allowTrial r now hstate | allowEarly r now hstate htime | successClosed r hstate =>
    refine ⟨1, ?_⟩
    simp_all [View.act, Action.load, View.alone, View.next, View.goto, first, last, Call.time]
  | successTrial r hstate hfew | failureClosed r now hstate hfew =>
    refine ⟨1, ?_⟩
    simp [View.act, Action.load, View.alone, View.next, View.goto, first, last, hstate,
      not_le.mpr hfew]
  | allowLate r now hstate htime =>
    refine ⟨7, ?_⟩
    simp [View.act, Action.load, View.alone, View.next, View.goto, View.lock, first, last,
      Call.time, hstate, not_lt.mpr htime]
  | successCloses r hstate hmany | failureTrips r now hstate hmany =>
    refine ⟨6, ?_⟩
    simp [View.act, Action.load, View.alone, View.next, View.goto, View.lock, first, last,
      Call.time, hstate, hmany, trip]
  | failureTrial r now hstate =>
    refine ⟨5, ?_⟩
    simp [View.act, Action.load, View.alone, View.next, View.goto, View.lock, first, last,
      Call.time, hstate, trip]

/-! ## Runs of many requests -/

structure State where
  breaker : Breaker
  locked : Bool
  pcs : Nat → Pc

def start (cfg : Config) : State := ⟨newWithClock cfg, false, fun _ => .idle⟩

def State.view (s : State) (r : Nat) : View := ⟨s.breaker, s.locked, s.pcs r⟩

def State.put (s : State) (r : Nat) (v : View) : State :=
  ⟨v.breaker, v.locked, Function.update s.pcs r v.pc⟩

structure Moment where
  request : Nat
  action : Action
  before : View
  after : View

structure History where
  state : State
  log : List Moment

def step (s : History) (a : Nat × Action) : Option History :=
  ((s.state.view a.1).act a.2).map fun v =>
    ⟨s.state.put a.1 v, s.log ++ [⟨a.1, a.2, s.state.view a.1, v⟩]⟩

/-- The requests admitted since the breaker last became half-open. -/
def admitted (log : List Moment) : List Nat :=
  log.foldl (fun rs m =>
    if m.before.breaker.state ≠ .halfOpen ∧ m.after.breaker.state = .halfOpen then []
    else if m.after.pc = .admitted then rs ++ [m.request] else rs) []

def succeeded (log : List Moment) : List Nat :=
  log.filterMap fun m =>
    match m.action with
    | .success => some m.request
    | _ => none

def ownSuccesses (log : List Moment) : Finset Nat :=
  ((admitted log).filter (· ∈ succeeded log)).toFinset

/-- The requests whose success has been added to `consecutiveOK` since it was last set to 0. -/
def counted (log : List Moment) : List Nat :=
  log.foldl (fun rs m =>
    if m.before.pc = .storeOK then []
    else if m.before.pc = .addOK then rs ++ [m.request] else rs) []

/-- The request that closes is counted, and all that are were admitted in this period. -/
def OnTime (cfg : Config) (log : List Moment) (r : Nat) : Prop :=
  cfg.halfOpenSuccessThreshold ≤ 0 ∨ cfg.halfOpenSuccessThreshold < 2 ^ 31 ∧ r ∈ counted log ∧
    ∀ q ∈ counted log, q ∈ admitted log
  deriving Decidable

/-! ## What is counted -/

/-- After the addition of `Success`. -/
def Pc.added : Pc → Bool
  | .lockClosed | .loadHalfOpen | .storeClosed | .clearFail | .unlockReport | .reported => true
  | _ => false

/-- On the way to closing the breaker. -/
def Pc.closing : Pc → Bool
  | .lockClosed | .loadHalfOpen | .storeClosed => true
  | _ => false

/-- What an operation does to the count. -/
inductive Effect (v w : View) : Prop
  | add (hpc : v.pc = .addOK) (hok : w.breaker.consecutiveOK = int32 (v.breaker.consecutiveOK + 1))
      (hadded : w.pc.added) (hclosing : w.pc.closing →
        int32 v.breaker.cfg.halfOpenSuccessThreshold ≤ w.breaker.consecutiveOK)
  | reset (hpc : v.pc = .storeOK) (hok : w.breaker.consecutiveOK = 0)
  | keep (hadd : v.pc ≠ .addOK) (hreset : v.pc ≠ .storeOK)
      (hok : w.breaker.consecutiveOK = v.breaker.consecutiveOK)
      (hadded : v.pc.added → w.pc.added) (hclosing : w.pc.closing → v.pc.closing)

structure Acts (v : View) (a : Action) (w : View) : Prop where
  cfg : w.breaker.cfg = v.breaker.cfg
  calls : w.pc = .addOK → a = .success
  closes : w.breaker.state = .closed → v.breaker.state = .closed ∨ v.pc = .storeClosed
  effect : Effect v w

theorem next_acts {v w : View} {now : Int} (h : v.next now = some w) : Acts v (.next now) w := by
  obtain ⟨b, locked, pc⟩ := v
  cases pc with
  | idle | admitted | refused | reported => cases h
  | addOK =>
    cases h
    refine ⟨rfl, fun hpc => ?_, .inl, .add rfl rfl ?_ ?_⟩ <;> dsimp only [View.goto] at * <;>
      split at * <;> simp_all [Pc.added, Pc.closing]
  | storeOK =>
    cases h
    exact ⟨rfl, nofun, .inl, .reset rfl rfl⟩
  | lockHalfOpen | lockClosed | lockOpen =>
    dsimp only [View.next, View.lock] at h
    split at h <;> cases h
    refine ⟨rfl, nofun, .inl, .keep nofun nofun rfl ?_ ?_⟩ <;> simp [Pc.added, Pc.closing]
  | addIssued | loadOpenedAt | loadOpen | unlockAllow | loadHalfOpen | addFail =>
    cases h
    refine ⟨rfl, ?_, .inl, .keep nofun nofun rfl ?_ ?_⟩ <;> dsimp only [View.goto] <;> split <;>
      simp [Pc.added, Pc.closing]
  | _ =>
    cases h
    refine ⟨rfl, nofun, ?_, .keep nofun nofun rfl ?_ ?_⟩ <;> simp [View.goto, Pc.added, Pc.closing]

theorem act_acts {v w : View} {a : Action} (h : v.act a = some w) : Acts v a w := by
  cases a with
  | next now => exact next_acts h
  | allow | success | failure =>
    dsimp only [View.act] at h
    split at h <;> cases h
    rename_i hpc
    cases v.breaker.state <;>
      refine ⟨rfl, ?_, .inl, .keep ?_ ?_ rfl ?_ ?_⟩ <;>
      simp [View.goto, Action.load, Pc.added, Pc.closing, hpc]

section
variable {cfg : Config} {s s' : History} {a : Nat × Action}

theorem step_eq_some (h : step s a = some s') :
    ∃ v, Acts (s.state.view a.1) a.2 v ∧ s' =
      ⟨s.state.put a.1 v, s.log ++ [⟨a.1, a.2, s.state.view a.1, v⟩]⟩ := by
  obtain ⟨v, hv, rfl⟩ := Option.map_eq_some_iff.mp h
  exact ⟨v, act_acts hv, rfl⟩

structure Counts (cfg : Config) (s : History) : Prop where
  threshold : s.state.breaker.cfg.halfOpenSuccessThreshold = cfg.halfOpenSuccessThreshold
  low : -2 ^ 31 ≤ s.state.breaker.consecutiveOK
  high : s.state.breaker.consecutiveOK ≤ (counted s.log).length
  once : (counted s.log).Nodup
  calls : ∀ r, s.state.pcs r = .addOK → r ∈ succeeded s.log
  each : ∀ r ∈ counted s.log, (s.state.pcs r).added ∧ r ∈ succeeded s.log ∧
    ((s.state.pcs r).closing → int32 cfg.halfOpenSuccessThreshold ≤ (counted s.log).length)

theorem counted_concat (log : List Moment) (m : Moment) : counted (log ++ [m]) =
    if m.before.pc = .storeOK then []
    else if m.before.pc = .addOK then counted log ++ [m.request] else counted log := by
  simp [counted]

theorem succeeded_concat (log : List Moment) (m : Moment) :
    succeeded (log ++ [m]) = succeeded log ++ succeeded [m] :=
  filterMap_append

theorem State.pcs_put (s : State) (r q : Nat) (v : View) :
    (s.put r v).pcs q = if q = r then v.pc else s.pcs q :=
  Function.update_apply ..

theorem counts_step (hs : Counts cfg s) (h : step s a = some s') : Counts cfg s' := by
  obtain ⟨v, hacts, rfl⟩ := step_eq_some h
  obtain ⟨r, a⟩ := a
  have hthreshold := (congrArg Config.halfOpenSuccessThreshold hacts.cfg).trans hs.threshold
  have hlater : ∀ q ∈ succeeded s.log,
      q ∈ succeeded (s.log ++ [⟨r, a, s.state.view r, v⟩]) := fun q hq => by
    rw [succeeded_concat]
    exact mem_append_left _ hq
  have hcalls : ∀ q, (s.state.put r v).pcs q = .addOK →
      q ∈ succeeded (s.log ++ [⟨r, a, s.state.view r, v⟩]) := by
    intro q hq
    rw [State.pcs_put] at hq
    split at hq
    · rename_i heq
      rw [succeeded_concat, heq, show a = .success from hacts.calls hq]
      exact mem_append_right _ mem_cons_self
    · exact hlater q (hs.calls q hq)
  have hcounted := counted_concat s.log ⟨r, a, s.state.view r, v⟩
  cases hacts.effect with
  | add hpc hok hadded hclosing =>
    rw [if_neg (by simp [hpc]), if_pos hpc] at hcounted
    have hnew : r ∉ counted s.log := fun hr => by
      simpa [show s.state.pcs r = .addOK from hpc, Pc.added] using (hs.each r hr).1
    have hhigh : v.breaker.consecutiveOK ≤ (counted s.log ++ [r]).length := by
      rw [hok, length_append]
      refine (int32_le (x := s.state.breaker.consecutiveOK + 1) (by linarith [hs.low])).trans ?_
      exact Int.add_le_add_right hs.high 1
    refine ⟨hthreshold, hok ▸ le_int32 _, ?_, ?_, hcalls, ?_⟩ <;> dsimp only <;> rw [hcounted]
    · exact hhigh
    · exact concat_eq_append ▸ hs.once.concat hnew
    intro q hq
    rw [State.pcs_put]
    rcases mem_concat_cases hq with hq | rfl
    · rw [if_neg (ne_of_mem_of_not_mem hq hnew)]
      obtain ⟨hold, hcalled, hmany⟩ := hs.each q hq
      exact ⟨hold, hlater q hcalled, fun h => (hmany h).trans (by simp)⟩
    · rw [if_pos rfl]
      exact ⟨hadded, hlater _ (hs.calls _ hpc), fun h => hs.threshold ▸ (hclosing h).trans hhigh⟩
  | reset hpc hok =>
    rw [if_pos hpc] at hcounted
    refine ⟨hthreshold, by simp [State.put, hok], ?_, ?_, hcalls, ?_⟩ <;> dsimp only <;>
      rw [hcounted]
    · exact hok.le
    · exact nodup_nil
    · exact nofun
  | keep hadd hreset hok hadded hclosing =>
    rw [if_neg hreset, if_neg hadd] at hcounted
    refine ⟨hthreshold, hok ▸ hs.low, ?_, ?_, hcalls, ?_⟩ <;> dsimp only <;> rw [hcounted]
    · exact hok ▸ hs.high
    · exact hs.once
    intro q hq
    obtain ⟨hold, hcalled, hmany⟩ := hs.each q hq
    rw [State.pcs_put]
    by_cases hqr : q = r
    · subst hqr
      rw [if_pos rfl]
      exact ⟨hadded hold, hlater q hcalled, fun h => hmany (hclosing h)⟩
    · rw [if_neg hqr]
      exact ⟨hold, hlater q hcalled, hmany⟩

theorem counts_run {as : List (Nat × Action)} (h : run step ⟨start cfg, []⟩ as = some s) :
    Counts cfg s := by
  have hthreshold : (newWithClock cfg).cfg.halfOpenSuccessThreshold =
      cfg.halfOpenSuccessThreshold := by
    rw [newWithClock_cfg]
  refine run_invariant (fun s a s' hs hstep => counts_step hs hstep) ?_ h
  exact ⟨hthreshold, by simp [start, newWithClock], le_rfl, nodup_nil, nofun, nofun⟩

/-- When the breaker goes from half-open to closed, `HalfOpenSuccessThreshold` requests admitted
in this half-open period have called `Success`, if the request that closes it is still counted
and every counted request was admitted in this period. -/
theorem closes_on_own {as : List (Nat × Action)} {r : Nat} {op : Action}
    (hrun : run step ⟨start cfg, []⟩ as = some s) (hstep : step s (r, op) = some s')
    (hopen : s.state.breaker.state = .halfOpen) (hclosed : s'.state.breaker.state = .closed)
    (htime : OnTime cfg s.log r) :
    cfg.halfOpenSuccessThreshold ≤ (ownSuccesses s.log).card := by
  have hs := counts_run hrun
  obtain ⟨v, hacts, rfl⟩ := step_eq_some hstep
  have hpc : s.state.pcs r = .storeClosed := by
    rcases hacts.closes hclosed with hstate | hpc
    · exact absurd (hopen.symm.trans hstate) (by decide)
    · exact hpc
  rcases htime with hpos | ⟨hfits, hr, hown⟩
  · omega
  by_cases hpos : cfg.halfOpenSuccessThreshold ≤ 0
  · omega
  have hmany := (hs.each r hr).2.2 (by rw [hpc]; rfl)
  rw [int32_eq (by omega) hfits] at hmany
  have hsub : (counted s.log).toFinset ⊆ ownSuccesses s.log := by
    intro q hq
    rw [mem_toFinset] at hq
    simp [ownSuccesses, hown q hq, (hs.each q hq).2.1]
  have hcard := Finset.card_le_card hsub
  rw [toFinset_card_of_nodup hs.once] at hcard
  omega

end

/-- A call and `n` operations of it. -/
def call (r : Nat) (a : Action) (n : Nat) (now : Int) : List (Nat × Action) :=
  (r, a) :: replicate n (r, .next now)

/-- The calls of both trial requests overlap. -/
theorem closes_on_own_trial :
    ∃ s ∈ run step ⟨start ⟨1, 10, 2, 2⟩, []⟩
        (call 1 .allow 0 0 ++ call 1 .failure 6 0 ++ call 2 .allow 7 10 ++ call 3 .allow 1 10 ++
          call 2 .success 0 10 ++ call 3 .success 1 10 ++ replicate 3 (2, .next 10)),
      ∃ s' ∈ step s (2, .next 10), s'.state.breaker.state = .closed ∧
        2 ≤ ((ownSuccesses s.log).card : Int) := by
  refine exists_some_imp (A := fun s => ∃ s' ∈ step s (2, .next 10),
    s.state.breaker.state = .halfOpen ∧ s'.state.breaker.state = .closed ∧
      OnTime ⟨1, 10, 2, 2⟩ s.log 2) (by decide +kernel) ?_
  rintro s hrun ⟨s', hstep, hopen, hclosed, htime⟩
  exact ⟨s', hstep, hclosed, closes_on_own hrun hstep hopen hclosed htime⟩

/-- First, request 1 was let through before the breaker tripped, and no calls overlap.  Then it
was let through in an earlier half-open period, and its `Success` stopped after the addition. -/
theorem late_success_closes :
    (∃ s ∈ run step ⟨start ⟨1, 10, 1, 1⟩, []⟩
        (call 1 .allow 0 0 ++ call 2 .allow 0 0 ++ call 2 .failure 6 0 ++ call 3 .allow 7 10 ++
          call 1 .success 3 10),
      s.state.breaker.state = .halfOpen ∧ ∃ s' ∈ step s (1, .next 10),
        s'.state.breaker.state = .closed ∧ ownSuccesses s.log = ∅) ∧
    ∃ s ∈ run step ⟨start ⟨1, 10, 1, 2⟩, []⟩
        (call 0 .allow 0 0 ++ call 0 .failure 6 0 ++ call 1 .allow 7 10 ++ call 2 .allow 1 10 ++
          call 1 .success 1 10 ++ call 2 .failure 5 10 ++ call 3 .allow 7 20 ++
          replicate 2 (1, .next 20)),
      s.state.breaker.state = .halfOpen ∧ ∃ s' ∈ step s (1, .next 20),
        s'.state.breaker.state = .closed ∧ ownSuccesses s.log = ∅ := by
  decide +kernel

end GoServices.Gateway.Breaker.Atomics
