/-
The HTTP client of the edge API: calls of `Get` that share a breaker.

A call asks the breaker when it begins and after each failure, and then waits before it tries
again.
-/
import GoServices.Base.Run
import GoServices.Base.Table
import Mathlib

namespace GoServices.InstaScale.Client

open Table

/-- `ClientConfig`, without the deadline of an attempt. -/
structure Config where
  maxRetries : Int
  failThreshold : Int
  openFor : Int

inductive Result
  | body
  | breakerOpen
  | ctxDone
  | lastErr

/-- Where a call of `Get` is in its loop; the number is `attempt`. -/
inductive Pc
  | ready (attempt : Nat)
  | trying (attempt : Nat)
  | failed (attempt : Nat)
  | returned (r : Result)

/-- `attempts` are the calls that started an attempt, and whether the breaker was open then.
Times are counted from the zero value of `time.Time`. -/
structure State where
  now : Int
  failures : Int
  openedUntil : Int
  calls : Table Nat Pc
  attempts : List (Nat × Bool)

inductive Label
  | tick (d : Nat)
  | get (n : Nat)
  | attempt (n : Nat)
  | cancel (n : Nat)
  | succeed (n : Nat)
  | fail (n : Nat)
  | check (n : Nat)

def initial (now : Nat) : State := ⟨now, 0, 0, .empty, []⟩

def State.breakerOpen (s : State) : Bool := s.now < s.openedUntil

def State.move (s : State) (n : Nat) (pc : Pc) : State := { s with calls := s.calls.set n pc }

variable (cfg : Config)

def State.recordFailure (s : State) : State :=
  if s.failures + 1 ≥ cfg.failThreshold then
    { s with failures := 0, openedUntil := s.now + cfg.openFor }
  else { s with failures := s.failures + 1 }

def State.recordSuccess (s : State) : State := { s with failures := 0 }

def Config.enter (attempt : Nat) : Pc :=
  if attempt ≤ cfg.maxRetries then .ready attempt else .returned .lastErr

def step (s : State) : Label → Option State
  | .tick d => some { s with now := s.now + d }
  | .get n =>
    match s.calls.get? n with
    | none => some (s.move n (if s.breakerOpen then .returned .breakerOpen else cfg.enter 0))
    | some _ => none
  | .attempt n =>
    match s.calls.get? n with
    | some (.ready k) =>
      some { s.move n (.trying k) with attempts := (n, s.breakerOpen) :: s.attempts }
    | _ => none
  | .cancel n =>
    match s.calls.get? n with
    -- only the back-off before a retry watches the context
    | some (.ready (_ + 1)) => some (s.move n (.returned .ctxDone))
    | _ => none
  | .succeed n =>
    match s.calls.get? n with
    | some (.trying _) => some (s.recordSuccess.move n (.returned .body))
    | _ => none
  | .fail n =>
    match s.calls.get? n with
    | some (.trying k) => some ((s.recordFailure cfg).move n (.failed k))
    | _ => none
  | .check n =>
    match s.calls.get? n with
    | some (.failed k) =>
      some (s.move n (if s.breakerOpen then .returned .lastErr else cfg.enter (k + 1)))
    | _ => none

def State.Trips (s : State) : Prop :=
  cfg.failThreshold ≤ s.failures + 1 ∧ 0 < cfg.openFor
  deriving Decidable

def Unawaited (s : State) : Label → Prop
  | .fail _ => s.Trips cfg → ∀ m k, s.calls.get? m ≠ some (.ready k)
  | _ => True

section
variable {cfg : Config} {s s' : State} {a : Label}

/-! ## The number of attempts -/

def State.tries (s : State) (n : Nat) : Nat := s.attempts.countP fun a => a.1 = n

def Pc.Within (cfg : Config) (tries : Nat) : Pc → Prop
  | .ready k => tries ≤ k ∧ k ≤ cfg.maxRetries
  | .trying k | .failed k => tries ≤ k + 1 ∧ k ≤ cfg.maxRetries
  | .returned _ => tries ≤ (cfg.maxRetries + 1).toNat

def Bounded (cfg : Config) (s : State) : Prop :=
  ∀ n, match s.calls.get? n with
    | none => s.tries n = 0
    | some pc => pc.Within cfg (s.tries n)

variable {k n tries : Nat} {pc : Pc}

theorem Pc.Within.le (h : pc.Within cfg tries) :
    tries ≤ (cfg.maxRetries + 1).toNat := by
  cases pc with
  | returned r => exact h
  | ready k | trying k | failed k =>
    obtain ⟨htries, hk⟩ := h
    omega

theorem within_enter (h : tries ≤ k) (hle : tries ≤ (cfg.maxRetries + 1).toNat) :
    (cfg.enter k).Within cfg tries := by
  rw [Config.enter]
  split
  · rename_i hk
    exact ⟨h, hk⟩
  · exact hle

/-- A call that moves and makes no attempt. -/
theorem Bounded.move (h : Bounded cfg s) (hpc : pc.Within cfg (s.tries n))
    (hcalls : s'.calls = s.calls.set n pc) (hattempts : s'.attempts = s.attempts) :
    Bounded cfg s' := by
  intro m
  rw [hcalls, State.tries, hattempts]
  by_cases hm : m = n
  · subst hm
    rw [get?_set_self]
    exact hpc
  · rw [get?_set, if_neg hm]
    exact h m

theorem recordFailure_calls (cfg : Config) (s : State) :
    (s.recordFailure cfg).calls = s.calls ∧ (s.recordFailure cfg).attempts = s.attempts := by
  rw [State.recordFailure]
  split <;> exact ⟨rfl, rfl⟩

theorem Bounded.within (h : Bounded cfg s) (hn : s.calls.get? n = some pc) :
    pc.Within cfg (s.tries n) := by
  have hpc := h n
  rw [hn] at hpc
  exact hpc

theorem Bounded.returns (h : Bounded cfg s) (hn : s.calls.get? n = some pc) {r : Result}
    (hcalls : s'.calls = s.calls.set n (.returned r)) (hattempts : s'.attempts = s.attempts)
    : Bounded cfg s' :=
  Bounded.move h (show (Pc.returned r).Within cfg _ from (h.within hn).le) hcalls hattempts

theorem bounded_step (h : Bounded cfg s) (hstep : step cfg s a = some s') : Bounded cfg s' := by
  revert hstep
  fun_cases step cfg s a <;> rintro ⟨⟩
  · exact h
  · rename_i n hn
    have htries : s.tries n = 0 := by
      have hnew := h n
      rw [hn] at hnew
      exact hnew
    refine h.move ?_ rfl rfl
    rw [htries]
    split
    · exact Nat.zero_le _
    · exact within_enter le_rfl (Nat.zero_le _)
  · rename_i n k hn
    obtain ⟨htries, hk⟩ := h.within hn
    intro m
    by_cases hm : m = n
    · subst hm
      simp only [State.move, State.tries, get?_set_self, List.countP_cons, decide_true, if_true]
      exact ⟨Nat.succ_le_succ htries, hk⟩
    · simp only [State.move, State.tries, get?_set, if_neg hm, List.countP_cons,
        Ne.symm hm, decide_false, Bool.false_eq_true, if_false, Nat.add_zero]
      exact h m
  · rename_i hn
    exact h.returns hn rfl rfl
  · rename_i hn
    exact h.returns hn rfl rfl
  · rename_i k hn
    obtain ⟨hcalls, hattempts⟩ := recordFailure_calls cfg s
    have hwithin := h.within hn
    refine Bounded.move h (show (Pc.failed k).Within cfg _ from hwithin) ?_ hattempts
    rw [State.move, hcalls]
  · rename_i k hn
    have hwithin := h.within hn
    refine h.move ?_ rfl rfl
    split
    · exact hwithin.le
    · exact within_enter hwithin.1 hwithin.le

/-! ## The breaker -/

structure Closed (s : State) : Prop where
  ready : ∀ n k, s.calls.get? n = some (.ready k) → s.openedUntil ≤ s.now
  attempts : ∀ a ∈ s.attempts, a.2 = false

theorem breakerOpen_eq_false : s.breakerOpen = false ↔ s.openedUntil ≤ s.now := by
  rw [State.breakerOpen, decide_eq_false_iff_not, Int.not_lt]

/-- A call moves and the breaker stays as it is. -/
theorem Closed.move (h : Closed s) (hpc : ∀ k, pc = .ready k → s.openedUntil ≤ s.now)
    (hcalls : s'.calls = s.calls.set n pc) (hattempts : s'.attempts = s.attempts)
    (htimes : s'.openedUntil = s.openedUntil ∧ s'.now = s.now) : Closed s' := by
  refine ⟨fun m k hm => ?_, hattempts ▸ h.attempts⟩
  rw [htimes.1, htimes.2]
  rw [hcalls] at hm
  by_cases hmn : m = n
  · subst hmn
    rw [get?_set_self] at hm
    exact hpc k (Option.some.inj hm)
  · rw [get?_set, if_neg hmn] at hm
    exact h.ready m k hm

theorem closed_fail (h : Closed s) (hok : s.Trips cfg → ∀ m k, s.calls.get? m ≠ some (.ready k)) :
    Closed ((s.recordFailure cfg).move n (.failed k)) := by
  obtain ⟨hcalls, hattempts⟩ := recordFailure_calls cfg s
  refine ⟨fun m j hm => ?_, fun a ha => h.attempts a (hattempts ▸ ha)⟩
  have hready : s.calls.get? m = some (.ready j) := by
    rw [State.move, hcalls] at hm
    by_cases hmn : m = n
    · subst hmn
      rw [get?_set_self] at hm
      cases hm
    · rwa [get?_set, if_neg hmn] at hm
  have hclosed := h.ready m j hready
  rw [State.move, State.recordFailure]
  split
  · rename_i hthreshold
    -- an opening failure would have found the call about to try
    have hopen : ¬ 0 < cfg.openFor := fun hopen => hok ⟨hthreshold, hopen⟩ m j hready
    dsimp only
    omega
  · exact hclosed

theorem closed_step (h : Closed s) (hok : Unawaited cfg s a) (hstep : step cfg s a = some s') :
    Closed s' := by
  have hasked {pc : Pc} {r : Result} (k : Nat)
      (hk : (if s.breakerOpen then .returned r else pc) = .ready k) : s.openedUntil ≤ s.now := by
    split at hk <;> try cases hk
    rename_i hclosed
    exact breakerOpen_eq_false.mp (Bool.eq_false_of_not_eq_true hclosed)
  revert hstep
  fun_cases step cfg s a <;> rintro ⟨⟩
  · exact ⟨fun n k hn => (h.ready n k hn).trans (Int.le_add_of_nonneg_right (by omega)), h.attempts⟩
  · exact h.move hasked rfl rfl ⟨rfl, rfl⟩
  · rename_i n k hn
    have hmoved : Closed (s.move n (.trying k)) :=
      h.move (fun _ hk => by cases hk) rfl rfl ⟨rfl, rfl⟩
    refine ⟨hmoved.ready, List.forall_mem_cons.mpr ⟨?_, h.attempts⟩⟩
    exact breakerOpen_eq_false.mpr (h.ready n k hn)
  · exact h.move (fun _ hk => by cases hk) rfl rfl ⟨rfl, rfl⟩
  · exact h.move (fun _ hk => by cases hk) rfl rfl ⟨rfl, rfl⟩
  · exact closed_fail h hok
  · exact h.move hasked rfl rfl ⟨rfl, rfl⟩

end

/-- A call makes at most `MaxRetries + 1` attempts, and none starts with the breaker open in a
run where no call is about to try when a failure opens it. -/
theorem get_attempts {cfg : Config} {now : Nat} {as : List Label} {s : State}
    (hrun : run (step cfg) (initial now) as = some s) :
    (∀ n, s.tries n ≤ (cfg.maxRetries + 1).toNat) ∧
      (RunMeets (step cfg) (Unawaited cfg) (initial now) as → ∀ a ∈ s.attempts, a.2 = false) := by
  refine ⟨fun n => ?_, fun hok => ?_⟩
  · have hbounded : Bounded cfg s :=
      run_invariant (I := Bounded cfg) (fun _ _ _ h hstep => bounded_step h hstep)
        (fun _ => rfl) hrun
    cases hn : s.calls.get? n with
    | none =>
      have hnone := hbounded n
      rw [hn] at hnone
      exact hnone.trans_le (Nat.zero_le _)
    | some pc => exact (hbounded.within hn).le
  · have hclosed : Closed s :=
      run_invariant_of_meets (I := Closed) (fun _ _ _ h hok hstep => closed_step h hok hstep)
        ⟨fun _ _ _ => Int.natCast_nonneg now, fun _ ha => by cases ha⟩ hok hrun
    exact hclosed.attempts

def Pc.isReady : Pc → Bool
  | .ready _ => true
  | _ => false

instance (cfg : Config) (s : State) : ∀ a, Decidable (Unawaited cfg s a)
  | .fail _ => decidable_of_iff (s.Trips cfg → ∀ p ∈ s.calls.toList, p.2.isReady = false)
    ⟨fun h htrips m k hk => (nomatch h htrips (m, .ready k) (mem_toList.mpr hk)),
      fun h htrips ⟨m, pc⟩ hp => by
        cases pc with
        | ready k => exact absurd (mem_toList.mp hp) (h htrips m k)
        | _ => rfl⟩
  | .tick _ | .get _ | .attempt _ | .cancel _ | .succeed _ | .check _ => isTrue trivial

/-- The failures of two calls open the breaker, which refuses call 3; call 4 comes later and
tries twice. -/
theorem get_attempts_retry :
    ∃ s, run (step ⟨1, 2, 10⟩) (initial 5)
        [.get 1, .get 2, .attempt 1, .attempt 2, .fail 1, .fail 2, .check 1, .get 3, .tick 10,
          .get 4, .attempt 4, .fail 4, .check 4, .attempt 4, .succeed 4] = some s ∧
      s.openedUntil = 15 ∧ s.tries 3 = 0 ∧ s.tries 4 = 2 ∧ s.tries 4 ≤ 2 ∧
      ∀ a ∈ s.attempts, a.2 = false := by
  refine exists_some_imp (A := fun s => s.openedUntil = 15 ∧ s.tries 3 = 0 ∧ s.tries 4 = 2)
    (by decide +kernel) fun s hrun ⟨hopened, hrefused, htries⟩ => ?_
  have hboth := get_attempts hrun
  exact ⟨hopened, hrefused, htries, hboth.1 4, hboth.2 (by decide +kernel)⟩

/-- Two calls pass the check; the first one fails and opens the breaker, and the second one
tries. -/
theorem attempt_while_open :
    ∃ s ∈ run (step ⟨0, 1, 10⟩) (initial 5) [.get 1, .get 2, .attempt 1, .fail 1, .attempt 2],
      (2, true) ∈ s.attempts := by
  decide +kernel

end GoServices.InstaScale.Client
