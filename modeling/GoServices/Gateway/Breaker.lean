/-
The circuit breaker in front of each backend (`breaker.go`).

A history here is of whole calls, one after another: `Allow`, `Success` and `Failure` are steps.
`LateReports` splits them at their atomic operations.
-/
import GoServices.Base.FixedWidth
import GoServices.Base.Run

namespace GoServices.Gateway

open List

inductive Circuit where
  | closed
  | opened
  | halfOpen
  deriving DecidableEq

/-- `breaker.Config`; the duration is in nanoseconds. -/
structure Breaker.Config where
  failureThreshold : Int
  openDuration : Int
  halfOpenSuccessThreshold : Int
  maxHalfOpenRequests : Int

structure Breaker where
  cfg : Breaker.Config
  state : Circuit
  consecutiveFail : Int
  consecutiveOK : Int
  halfOpenIssued : Int
  openedAt : Int

namespace Breaker

def defaultConfig : Config where
  failureThreshold := 5
  openDuration := 10 * 10 ^ 9
  halfOpenSuccessThreshold := 2
  maxHalfOpenRequests := 5

def newWithClock (cfg : Config) : Breaker where
  cfg :=
    if cfg.maxHalfOpenRequests < cfg.halfOpenSuccessThreshold then
      { cfg with maxHalfOpenRequests := cfg.halfOpenSuccessThreshold }
    else cfg
  state := .closed
  consecutiveFail := 0
  consecutiveOK := 0
  halfOpenIssued := 0
  openedAt := 0

variable (b : Breaker)

def tryTransitionToHalfOpen : Breaker × Bool :=
  if b.state ≠ .opened then (b, false)
  else ({ b with consecutiveOK := 0, halfOpenIssued := 1, state := .halfOpen }, true)

def allow (now : Int) : Breaker × Bool :=
  match b.state with
  | .closed => (b, true)
  | .halfOpen =>
    let issued := int32 (b.halfOpenIssued + 1)
    ({ b with halfOpenIssued := issued }, decide (issued ≤ int32 b.cfg.maxHalfOpenRequests))
  | .opened =>
    if now < int64 (b.openedAt + b.cfg.openDuration) then (b, false)
    else b.tryTransitionToHalfOpen

def success : Breaker :=
  match b.state with
  | .closed => { b with consecutiveFail := 0 }
  | .halfOpen =>
    let b := { b with consecutiveOK := int32 (b.consecutiveOK + 1) }
    if b.consecutiveOK ≥ int32 b.cfg.halfOpenSuccessThreshold then
      -- the state is read again under the lock
      if b.state = .halfOpen then { b with state := .closed, consecutiveFail := 0 } else b
    else b
  | .opened => b

def trip (now : Int) : Breaker :=
  { b with state := .opened, openedAt := now, consecutiveFail := 0 }

def failure (now : Int) : Breaker :=
  match b.state with
  | .closed =>
    let b := { b with consecutiveFail := int32 (b.consecutiveFail + 1) }
    if b.consecutiveFail ≥ int32 b.cfg.failureThreshold then b.trip now else b
  | .halfOpen => b.trip now
  | .opened => b

theorem newWithClock_cfg (cfg : Config) :
    (newWithClock cfg).cfg = { cfg with
        maxHalfOpenRequests :=
          max cfg.maxHalfOpenRequests cfg.halfOpenSuccessThreshold } := by
  unfold newWithClock
  by_cases h : cfg.maxHalfOpenRequests < cfg.halfOpenSuccessThreshold
  · rw [if_pos h, max_eq_right h.le]
  · rw [if_neg h, max_eq_left (not_lt.mp h)]

/-! ## Calls and what each can do -/

inductive Call where
  | allow (request : Nat) (now : Int)
  | success (request : Nat)
  | failure (request : Nat) (now : Int)

/-- The breaker after a call, and the answer of `Allow`. -/
def perform : Call → Breaker × Bool
  | .allow _ now => b.allow now
  | .success _ => (b.success, true)
  | .failure _ now => (b.failure now, true)

inductive Transition (b : Breaker) : Call → Breaker × Bool → Prop
  | allowClosed (r now : _) (hstate : b.state = .closed) :
      Transition b (.allow r now) (b, true)
  | allowTrial (r now : _) (hstate : b.state = .halfOpen) :
      Transition b (.allow r now)
        ({ b with halfOpenIssued := int32 (b.halfOpenIssued + 1) },
          decide (int32 (b.halfOpenIssued + 1) ≤ int32 b.cfg.maxHalfOpenRequests))
  | allowEarly (r now : _) (hstate : b.state = .opened)
      (htime : now < int64 (b.openedAt + b.cfg.openDuration)) :
      Transition b (.allow r now) (b, false)
  | allowLate (r now : _) (hstate : b.state = .opened)
      (htime : int64 (b.openedAt + b.cfg.openDuration) ≤ now) :
      Transition b (.allow r now)
        ({ b with consecutiveOK := 0, halfOpenIssued := 1, state := .halfOpen }, true)
  | successClosed (r : _) (hstate : b.state = .closed) :
      Transition b (.success r) ({ b with consecutiveFail := 0 }, true)
  | successTrial (r : _) (hstate : b.state = .halfOpen)
      (hfew : int32 (b.consecutiveOK + 1) < int32 b.cfg.halfOpenSuccessThreshold) :
      Transition b (.success r)
        ({ b with consecutiveOK := int32 (b.consecutiveOK + 1) }, true)
  | successCloses (r : _) (hstate : b.state = .halfOpen)
      (hmany : int32 b.cfg.halfOpenSuccessThreshold ≤ int32 (b.consecutiveOK + 1)) :
      Transition b (.success r)
        ({ b with
            consecutiveOK := int32 (b.consecutiveOK + 1)
            state := .closed
            consecutiveFail := 0 }, true)
  | successOpen (r : _) (hstate : b.state = .opened) : Transition b (.success r) (b, true)
  | failureClosed (r now : _) (hstate : b.state = .closed)
      (hfew : int32 (b.consecutiveFail + 1) < int32 b.cfg.failureThreshold) :
      Transition b (.failure r now)
        ({ b with consecutiveFail := int32 (b.consecutiveFail + 1) }, true)
  | failureTrips (r now : _) (hstate : b.state = .closed)
      (hmany : int32 b.cfg.failureThreshold ≤ int32 (b.consecutiveFail + 1)) :
      Transition b (.failure r now) (b.trip now, true)
  | failureTrial (r now : _) (hstate : b.state = .halfOpen) :
      Transition b (.failure r now) (b.trip now, true)
  | failureOpen (r now : _) (hstate : b.state = .opened) :
      Transition b (.failure r now) (b, true)

theorem perform_transition (a : Call) : Transition b a (b.perform a) := by
  cases a with
  | allow r now =>
    cases hstate : b.state with
    | closed => simpa [perform, allow, hstate] using Transition.allowClosed r now hstate
    | halfOpen => simpa [perform, allow, hstate] using Transition.allowTrial r now hstate
    | opened =>
      by_cases htime : now < int64 (b.openedAt + b.cfg.openDuration)
      · simpa [perform, allow, hstate, htime] using Transition.allowEarly r now hstate htime
      · simpa [perform, allow, tryTransitionToHalfOpen, hstate, htime] using
          Transition.allowLate r now hstate (not_lt.mp htime)
  | success r =>
    cases hstate : b.state with
    | closed => simpa [perform, success, hstate] using Transition.successClosed r hstate
    | halfOpen =>
      by_cases hmany : int32 b.cfg.halfOpenSuccessThreshold ≤ int32 (b.consecutiveOK + 1)
      · simpa [perform, success, hstate, hmany] using Transition.successCloses r hstate hmany
      · simpa [perform, success, hstate, hmany] using
          Transition.successTrial r hstate (not_le.mp hmany)
    | opened => simpa [perform, success, hstate] using Transition.successOpen r hstate
  | failure r now =>
    cases hstate : b.state with
    | closed =>
      by_cases hmany : int32 b.cfg.failureThreshold ≤ int32 (b.consecutiveFail + 1)
      · simpa [perform, failure, trip, hstate, hmany] using
          Transition.failureTrips r now hstate hmany
      · simpa [perform, failure, hstate, hmany] using
          Transition.failureClosed r now hstate (not_le.mp hmany)
    | halfOpen => simpa [perform, failure, hstate] using Transition.failureTrial r now hstate
    | opened => simpa [perform, failure, hstate] using Transition.failureOpen r now hstate

theorem Transition.cfg_eq {b : Breaker} {a : Call} {p : Breaker × Bool}
    (h : Transition b a p) : p.1.cfg = b.cfg := by
  cases h <;> rfl

/-! ## Histories -/

structure Entry where
  call : Call
  before : Breaker
  after : Breaker
  answer : Bool

namespace Entry

variable (e : Entry)

def asks : Option Nat :=
  match e.call with
  | .allow r _ => some r
  | _ => none

def grants : Option Nat := if e.answer then e.asks else none

def succeeds : Option Nat :=
  match e.call with
  | .success r => some r
  | _ => none

def fails : Option Nat :=
  match e.call with
  | .failure r _ => some r
  | _ => none

def reports : Option Nat := e.succeeds <|> e.fails

theorem grants_or : e.grants = none ∨ e.grants = e.asks := by
  by_cases h : e.answer = true
  · exact .inr (if_pos h)
  · exact .inl (if_neg h)

def opensTrial : Prop := e.before.state = .opened ∧ e.after.state = .halfOpen
  deriving Decidable

def tripsAt (t : Int) : Prop :=
  (∃ r, e.call = .failure r t) ∧ e.before.state ≠ .opened ∧ e.after.state = .opened

end Entry

variable (role : Entry → Option Nat) (log : List Entry)

def requests : List Nat := log.filterMap role

theorem requests_concat (e : Entry) :
    requests role (log ++ [e]) = requests role log ++ (role e).toList := by
  cases h : role e <;> simp [h, requests]

theorem requests_nodup_concat {role : Entry → Option Nat} {log : List Entry} {e : Entry}
    (h : (requests role log).Nodup) (hnew : ∀ r, role e = some r → r ∉ requests role log) :
    (requests role (log ++ [e])).Nodup := by
  rw [requests_concat]
  cases hrole : role e with
  | none => simpa using h
  | some r =>
    refine nodup_append.mpr ⟨h, pairwise_singleton _ r, fun q hq r' hr' heq => ?_⟩
    rw [heq, mem_singleton.mp hr'] at hq
    exact hnew r hrole hq

theorem requests_sublist {role role' : Entry → Option Nat}
    (h : ∀ e, role e = none ∨ role e = role' e) (log : List Entry) :
    (requests role log).Sublist (requests role' log) := by
  induction log using List.reverseRecOn with
  | nil => exact Sublist.refl _
  | append_singleton log e ih =>
    rw [requests_concat, requests_concat]
    refine ih.append ?_
    rcases h e with hnone | hsame
    · rw [hnone]
      exact nil_sublist _
    · rw [hsame]

theorem length_requests_le :
    (requests role log).length ≤ log.length :=
  length_filterMap_le role log

def trial : List Entry :=
  log.foldl (fun calls e => if e.opensTrial then [e] else calls ++ [e]) []

theorem trial_concat (e : Entry) :
    trial (log ++ [e]) = if e.opensTrial then [e] else trial log ++ [e] := by
  simp [trial]

theorem trial_suffix : trial log <:+ log := by
  induction log using List.reverseRecOn with
  | nil => exact suffix_refl []
  | append_singleton log e ih =>
    rw [trial_concat]
    by_cases h : e.opensTrial
    · rw [if_pos h]
      exact suffix_append log [e]
    rw [if_neg h]
    obtain ⟨earlier, hlog⟩ := ih
    exact ⟨earlier, by rw [← append_assoc, hlog]⟩

structure History where
  breaker : Breaker
  now : Int
  log : List Entry

def Enabled (s : History) : Call → Prop
  | .allow r now => s.now ≤ now ∧ r ∉ requests Entry.asks s.log
  | .success _ => True
  | .failure _ now => s.now ≤ now

instance (s : History) : ∀ a, Decidable (Enabled s a) := fun _ => by
  unfold Enabled
  split <;> infer_instance

/-- The time after a call; `Success` does not look at the clock. -/
def Call.time (now : Int) : Call → Int
  | .allow _ t => t
  | .success _ => now
  | .failure _ t => t

def record (s : History) (a : Call) (p : Breaker × Bool) : History where
  breaker := p.1
  now := a.time s.now
  log := s.log ++ [⟨a, s.breaker, p.1, p.2⟩]

variable {a : Call} {p : Breaker × Bool}

theorem trial_record_opens {s : History} (hs : s.breaker.state = .opened)
    (hp : p.1.state = .halfOpen) :
    trial (record s a p).log = [⟨a, s.breaker, p.1, p.2⟩] :=
  (trial_concat _ _).trans (if_pos ⟨hs, hp⟩)

theorem trial_record {s : History} (hs : s.breaker.state = .halfOpen) :
    trial (record s a p).log = trial s.log ++ [⟨a, s.breaker, p.1, p.2⟩] := by
  refine (trial_concat _ _).trans (if_neg fun he => ?_)
  simp [Entry.opensTrial, hs] at he

def step (s : History) (a : Call) : Option History :=
  if Enabled s a then some (record s a (s.breaker.perform a)) else none

def start (cfg : Config) (now : Int) : History := ⟨newWithClock cfg, now, []⟩

theorem step_eq_some {s s' : History} (h : step s a = some s') :
    Enabled s a ∧ ∃ p, Transition s.breaker a p ∧ s' = record s a p := by
  unfold step at h
  by_cases ha : Enabled s a
  · rw [if_pos ha] at h
    cases h
    exact ⟨ha, _, perform_transition s.breaker a, rfl⟩
  · rw [if_neg ha] at h
    cases h

end Breaker
end GoServices.Gateway
