/-
The failure lab and its ceilings.

Leaked goroutines and retained memory are counted under the lab's mutex.
-/
import GoServices.Base.Run
import Mathlib

namespace GoServices.FailureLab

open List

/-- `Config`.  `database` says whether a pool is configured; durations are nanoseconds. -/
structure Config where
  enabled : Bool
  token : String
  database : Bool
  maxLeakedGoroutines : Int
  maxMemoryMiB : Int
  maxDBHolders : Int
  maxDuration : Int

/-- A ceiling of `New`. -/
def orDefault (value fallback : Int) : Int := if value ≤ 0 then fallback else value

/-- The configuration of the lab that `New` returns. -/
def new (config : Config) : Config :=
  { config with
    maxLeakedGoroutines := orDefault config.maxLeakedGoroutines 256
    maxMemoryMiB := orDefault config.maxMemoryMiB 128
    maxDBHolders := orDefault config.maxDBHolders 32
    maxDuration := orDefault config.maxDuration 30000000000 }

/-- An experiment with what `strconv.Atoi` makes of its query parameters: `none` is an error, as
for a missing one. -/
inductive Experiment
  | goroutineLeak (count : Option Int)
  | memoryPressure (mib : Option Int)
  | dbPoolExhaustion (connections durationMs : Option Int)
  | retryStorm (attempts : Option Int)
  | slowDependency (durationMs : Option Int)
  | alwaysFail
  | reset

/-- `blocked` are the goroutines that wait for the gate, `waiting` and `held` the holders that
wait for a connection and have one, and `asked` the durations that experiments were given. -/
structure State where
  leaked : Int
  blocked : Int
  allocations : List Int
  waiting : Nat
  held : Nat
  asked : List Int

inductive Label
  | request (token : String) (experiment : Experiment)
  | acquire
  | giveUp
  | release

def initial : State := ⟨0, 0, [], 0, 0, []⟩

def boundedInt (value : Option Int) (fallback minimum maximum : Int) : Int :=
  match value with
  | none => fallback
  | some value =>
    if value < minimum then minimum else if value > maximum then maximum else value

def millisecond : Int := 1000000

def boundedDuration (value : Option Int) (fallback maximum : Int) : Int :=
  boundedInt value (fallback / millisecond) 1 (maximum / millisecond) * millisecond

variable (cfg : Config) (s : State)

def State.leakGoroutines (param : Option Int) : State :=
  let count := min (boundedInt param 25 1 cfg.maxLeakedGoroutines)
    (cfg.maxLeakedGoroutines - s.leaked)
  { s with leaked := s.leaked + count, blocked := s.blocked + count.toNat }

def State.allocateMemory (param : Option Int) : State :=
  let requested := min (boundedInt param 16 1 cfg.maxMemoryMiB)
    (cfg.maxMemoryMiB - s.allocations.sum)
  if requested > 0 then { s with allocations := s.allocations ++ [requested] } else s

def State.exhaustDatabase (connections durationMs : Option Int) :
    State :=
  if ¬ cfg.database then s
  else
    let count := boundedInt connections 8 1 cfg.maxDBHolders
    let hold := boundedDuration durationMs 10000000000 cfg.maxDuration
    { s with waiting := s.waiting + count.toNat, asked := hold :: s.asked }

def State.slowDependency (durationMs : Option Int) : State :=
  { s with asked := boundedDuration durationMs 2000000000 cfg.maxDuration :: s.asked }

/-- `reset` closes the gate, which lets every blocked goroutine go. -/
def State.reset : State := { s with leaked := 0, blocked := 0, allocations := [] }

def State.perform : Experiment → State
  | .goroutineLeak count => s.leakGoroutines cfg count
  | .memoryPressure mib => s.allocateMemory cfg mib
  | .dbPoolExhaustion connections durationMs => s.exhaustDatabase cfg connections durationMs
  | .slowDependency durationMs => s.slowDependency cfg durationMs
  | .retryStorm _ | .alwaysFail => s
  | .reset => s.reset

/-- `serveHTTP` lets the request pass. -/
def Config.Authorized (token : String) : Prop :=
  cfg.enabled = true ∧ cfg.token ≠ "" ∧ token = cfg.token
  deriving Decidable

def step : Label → Option State
  | .request token experiment =>
    some (if cfg.Authorized token then s.perform cfg experiment else s)
  | .acquire => if 0 < s.waiting then some { s with waiting := s.waiting - 1, held := s.held + 1 }
    else none
  | .giveUp => if 0 < s.waiting then some { s with waiting := s.waiting - 1 } else none
  | .release => if 0 < s.held then some { s with held := s.held - 1 } else none

section
variable {cfg : Config} {s s' : State} {a : Label} {value : Option Int} {fallback maximum : Int}

theorem one_le_orDefault {value : Int} (h : 1 ≤ fallback) :
    1 ≤ orDefault value fallback := by
  rw [orDefault]
  split <;> omega

theorem boundedInt_le {minimum : Int} (hminimum : minimum ≤ maximum)
    (h : value = none → fallback ≤ maximum) :
    boundedInt value fallback minimum maximum ≤ maximum := by
  cases value with
  | none => exact h rfl
  | some v =>
    dsimp only [boundedInt]
    split
    · exact hminimum
    · split <;> omega

theorem boundedInt_nonneg (hfallback : 0 ≤ fallback) (hmaximum : 0 ≤ maximum)
    : 0 ≤ boundedInt value fallback 1 maximum := by
  cases value with
  | none => exact hfallback
  | some v =>
    dsimp only [boundedInt]
    split
    · decide
    · split <;> omega

/-! ## Goroutines and memory -/

structure Counted (cfg : Config) (s : State) : Prop where
  blocked : s.blocked = s.leaked
  leaked : s.leaked ≤ cfg.maxLeakedGoroutines
  memory : s.allocations.sum ≤ cfg.maxMemoryMiB

theorem counted_initial (cfg : Config) (waiting held : Nat) (asked : List Int) :
    Counted (new cfg) ⟨0, 0, [], waiting, held, asked⟩ := by
  have hgoroutines : 1 ≤ (new cfg).maxLeakedGoroutines := one_le_orDefault (by decide)
  have hmemory : 1 ≤ (new cfg).maxMemoryMiB := one_le_orDefault (by decide)
  refine ⟨rfl, ?_, ?_⟩
  · dsimp only
    omega
  · dsimp only [sum_nil]
    omega

theorem counted_perform (h : Counted (new cfg) s) (e : Experiment) :
    Counted (new cfg) (s.perform (new cfg) e) := by
  have hgoroutines : 1 ≤ (new cfg).maxLeakedGoroutines := one_le_orDefault (by decide)
  cases e with
  | goroutineLeak count =>
    have hcount : 0 ≤ boundedInt count 25 1 (new cfg).maxLeakedGoroutines :=
      boundedInt_nonneg (by decide) (by omega)
    have hblocked := h.blocked
    have hleaked := h.leaked
    refine ⟨?_, ?_, h.memory⟩
    all_goals
      simp only [State.perform, State.leakGoroutines]
      omega
  | memoryPressure mib =>
    simp only [State.perform, State.allocateMemory]
    split
    · refine ⟨h.blocked, h.leaked, ?_⟩
      rw [sum_append, sum_singleton]
      omega
    · exact h
  | dbPoolExhaustion connections durationMs =>
    simp only [State.perform, State.exhaustDatabase]
    split <;> exact ⟨h.blocked, h.leaked, h.memory⟩
  | slowDependency durationMs => exact ⟨h.blocked, h.leaked, h.memory⟩
  | retryStorm attempts | alwaysFail => exact h
  | reset => exact counted_initial cfg s.waiting s.held s.asked

theorem counted_step (h : Counted (new cfg) s) (hstep : step (new cfg) s a = some s') :
    Counted (new cfg) s' := by
  cases a with
  | request token e =>
    cases hstep
    split
    · exact counted_perform h e
    · exact h
  | acquire | giveUp | release =>
    simp only [step, Option.ite_none_right_eq_some] at hstep
    cases hstep.2
    exact ⟨h.blocked, h.leaked, h.memory⟩

/-! ## Connections and durations -/

def DurationFits (cfg : Config) (fallback : Int) : Option Int → Prop
  | none => fallback ≤ cfg.maxDuration
  | some _ => millisecond ≤ cfg.maxDuration

def Fits (cfg : Config) (s : State) : Label → Prop
  | .request _ (.dbPoolExhaustion connections durationMs) =>
    (connections = none → 8 ≤ cfg.maxDBHolders) ∧ s.waiting + s.held = 0 ∧
      DurationFits cfg 10000000000 durationMs
  | .request _ (.slowDependency durationMs) => DurationFits cfg 2000000000 durationMs
  | _ => True

theorem boundedDuration_le (h : DurationFits cfg fallback value) :
    boundedDuration value fallback cfg.maxDuration ≤ cfg.maxDuration := by
  have hbound : boundedInt value (fallback / millisecond) 1 (cfg.maxDuration / millisecond) ≤
      cfg.maxDuration / millisecond := by
    cases value with
    | none => exact Int.ediv_le_ediv (by decide) h
    | some v =>
      have hone : 1 ≤ cfg.maxDuration / millisecond :=
        Int.le_ediv_of_mul_le (by decide) ((Int.one_mul _).trans_le h)
      exact boundedInt_le hone nofun
  exact (Int.mul_le_mul_of_nonneg_right hbound (by decide)).trans
    (Int.ediv_mul_le _ (by decide))

structure Limited (cfg : Config) (s : State) : Prop where
  holders : (s.waiting + s.held : Nat) ≤ cfg.maxDBHolders
  asked : ∀ d ∈ s.asked, d ≤ cfg.maxDuration

theorem limited_step (h : Limited (new cfg) s) (hok : Fits (new cfg) s a)
    (hstep : step (new cfg) s a = some s') : Limited (new cfg) s' := by
  have hholders := h.holders
  have hmax : 1 ≤ (new cfg).maxDBHolders := one_le_orDefault (by decide)
  cases a with
  | acquire | giveUp | release =>
    simp only [step, Option.ite_none_right_eq_some] at hstep
    obtain ⟨hsome, hs'⟩ := hstep
    cases hs'
    refine ⟨?_, h.asked⟩
    dsimp only
    omega
  | request token e =>
    cases hstep
    split
    · cases e with
      | dbPoolExhaustion connections durationMs =>
        obtain ⟨hconnections, hgone, hduration⟩ := hok
        simp only [State.perform, State.exhaustDatabase]
        split
        · exact h
        refine ⟨?_, forall_mem_cons.mpr ⟨boundedDuration_le hduration, h.asked⟩⟩
        have hcount : boundedInt connections 8 1 (new cfg).maxDBHolders ≤ _ :=
          boundedInt_le hmax hconnections
        dsimp only
        omega
      | slowDependency durationMs =>
        exact ⟨hholders, forall_mem_cons.mpr ⟨boundedDuration_le hok, h.asked⟩⟩
      | memoryPressure mib =>
        simp only [State.perform, State.allocateMemory]
        split <;> exact ⟨hholders, h.asked⟩
      | goroutineLeak count | retryStorm attempts | alwaysFail | reset =>
        exact ⟨hholders, h.asked⟩
    · exact h

end

/-- Leaked goroutines and retained memory stay within their ceilings in every run, and the
connections held and the durations where every request fits. -/
theorem lab_ceilings {config : Config} {as : List Label} {s : State}
    (hrun : run (step (new config)) initial as = some s) :
    (s.blocked ≤ (new config).maxLeakedGoroutines ∧ s.allocations.sum ≤ (new config).maxMemoryMiB) ∧
    (RunMeets (step (new config)) (Fits (new config)) initial as →
      s.held ≤ (new config).maxDBHolders ∧ ∀ d ∈ s.asked, d ≤ (new config).maxDuration) := by
  refine ⟨?_, fun hok => ?_⟩
  · have hcounted : Counted (new config) s :=
      run_invariant (I := Counted (new config)) (fun _ _ _ h hstep => counted_step h hstep)
        (counted_initial config 0 0 []) hrun
    exact ⟨hcounted.blocked.trans_le hcounted.leaked, hcounted.memory⟩
  have hmax : 1 ≤ (new config).maxDBHolders := one_le_orDefault (by decide)
  have hlimited : Limited (new config) s := run_invariant_of_meets (I := Limited (new config))
      (fun _ _ _ h hok hstep => limited_step h hok hstep)
      ⟨Int.le_trans (by decide) hmax, fun _ hd => by cases hd⟩ hok hrun
  refine ⟨?_, hlimited.asked⟩
  have hholders := hlimited.holders
  omega

def demo : Config := ⟨true, "t", true, 0, 0, 4, 1000000000⟩

theorem lab_ceilings_clamped :
    ∃ s, run (step (new demo)) initial
        [.request "t" (.dbPoolExhaustion (some 9) (some 5000)), .acquire, .acquire] = some s ∧
      s.held = 2 ∧ s.asked = [1000000000] ∧ (s.held : Int) ≤ (new demo).maxDBHolders := by
  refine exists_some_imp (A := fun s => s.held = 2 ∧ s.asked = [1000000000]) ⟨_, rfl, rfl, rfl⟩
    fun s hrun ⟨hheld, hasked⟩ => ⟨hheld, hasked, ((lab_ceilings hrun).2 ?_).1⟩
  have hduration : DurationFits (new demo) 10000000000 (some 5000) := by
    show millisecond ≤ (new demo).maxDuration
    decide
  exact ⟨⟨nofun, rfl, hduration⟩, fun _ _ => ⟨trivial, fun _ _ => ⟨trivial, fun _ _ => trivial⟩⟩⟩

/-- With its parameters missing the experiment starts eight holders for ten seconds, where four
and one second are the ceilings. -/
theorem fallback_above_ceilings :
    ∃ s ∈ run (step (new demo)) initial
        [.request "t" (.dbPoolExhaustion none none), .acquire, .acquire, .acquire, .acquire,
          .acquire],
      (new demo).maxDBHolders < s.held ∧ ∃ d ∈ s.asked, (new demo).maxDuration < d := by
  decide +kernel

end GoServices.FailureLab
