/-
The admission guard of the control plane.

A request is inside from its `inflight.Add(1)` to the deferred `inflight.Add(-1)`, which runs
whether the handler returns or panics.  A request that is going to be shed is counted as well.
-/
import GoServices.Base.Run

namespace GoServices.Playback.Guard

open List

inductive Priority where
  | low | high

inductive Phase where
  | counted | running | shed
  deriving DecidableEq

/-- A request inside the guard.  `present` is the number of requests inside when it was counted,
itself included; the code does not have it. -/
structure Request where
  id : Nat
  priority : Priority
  n : Int
  present : Nat
  phase : Phase

/-- The latest request stands first in `inside`. -/
structure Admission where
  inflight : Int := 0
  inside : List Request := []

structure Limits where
  softMax : Int
  hardMax : Int

def Limits.limit (c : Limits) : Priority → Int
  | .low => c.softMax
  | .high => c.hardMax

inductive Label where
  | count (id : Nat) (p : Priority)
  | decide (id : Nat)
  | leave (id : Nat) (panics : Bool)

/-- What the comparison of `n` with the limit does to a counted request. -/
def Request.decided (c : Limits) (r : Request) : Request :=
  if r.phase = .counted then
    { r with phase := if r.n > c.limit r.priority then .shed else .running }
  else r

def Admission.step (c : Limits) (a : Admission) : Label → Option Admission
  | .count id p =>
    if a.inside.any (·.id = id) then none
    else some ⟨a.inflight + 1, ⟨id, p, a.inflight + 1, a.inside.length + 1, .counted⟩ :: a.inside⟩
  | .decide id =>
    some { a with inside := a.inside.map fun r => if r.id = id then r.decided c else r }
  | .leave id panics =>
    if a.inside.any fun r => r.id = id ∧ (r.phase = .running ∨ r.phase = .shed ∧ !panics) then
      some ⟨a.inflight - 1, a.inside.eraseP (·.id = id)⟩
    else none

variable {c : Limits}

/-- What is known of a request by itself. -/
structure Request.Sound (c : Limits) (r : Request) : Prop where
  n : r.n = r.present
  running : r.phase = .running → r.n ≤ c.limit r.priority
  shed : r.phase = .shed → c.limit r.priority < r.n

theorem Request.Sound.decided {r : Request} (h : r.Sound c) (id : Nat) :
    (if r.id = id then r.decided c else r).Sound c := by
  simp only [Request.decided]
  split
  · split
    · exact ⟨h.n, by simp, by simp⟩
    · exact h
  · exact h

/-- Each request counted at least those that were there before it and still are. -/
def Nested : List Request → Prop
  | [] => True
  | r :: rest => rest.length + 1 ≤ r.present ∧ Nested rest

variable {rs : List Request}

theorem Nested.sublist {rs' : List Request} (h : Nested rs) (hsub : rs'.Sublist rs) :
    Nested rs' := by
  induction hsub with
  | slnil => trivial
  | cons r _ ih => exact ih h.2
  | cons_cons r hsub ih =>
    have hle := hsub.length_le
    have hr := h.1
    exact ⟨by omega, ih h.2⟩

theorem Nested.map (h : Nested rs) {f : Request → Request} (hf : ∀ r, (f r).present = r.present)
    : Nested (rs.map f) := by
  induction rs with
  | nil => trivial
  | cons r rs ih => exact ⟨by simpa [hf r] using h.1, ih h.2⟩

structure Inv (c : Limits) (a : Admission) : Prop where
  inflight : a.inflight = a.inside.length
  nested : Nested a.inside
  sound : ∀ r ∈ a.inside, r.Sound c

theorem Inv.step {a a' : Admission} {l : Label} (h : Inv c a) (hstep : a.step c l = some a') :
    Inv c a' := by
  have hinflight := h.inflight
  cases l with
  | count id p =>
    simp only [Admission.step, Option.ite_none_left_eq_some, Option.some.injEq] at hstep
    obtain ⟨_, rfl⟩ := hstep
    refine ⟨by simp [hinflight], ⟨Nat.le_refl _, h.nested⟩, forall_mem_cons.mpr ⟨?_, h.sound⟩⟩
    exact ⟨by simp [hinflight], by simp, by simp⟩
  | decide id =>
    cases hstep
    refine ⟨by simp [hinflight], h.nested.map fun r => ?_, ?_⟩
    · simp only [Request.decided]
      split_ifs <;> rfl
    · exact forall_mem_map.mpr fun r hr => (h.sound r hr).decided id
  | leave id panics =>
    simp only [Admission.step, Option.ite_none_right_eq_some, Option.some.injEq] at hstep
    obtain ⟨hany, rfl⟩ := hstep
    obtain ⟨r, hr, hid⟩ := any_eq_true.mp hany
    have hlen := length_eraseP_of_mem (p := (·.id = id)) hr
      (by simpa using (of_decide_eq_true hid).1)
    have hpos := length_pos_of_mem hr
    refine ⟨?_, h.nested.sublist eraseP_sublist, ?_⟩
    · simp only [hlen, hinflight]
      omega
    · exact fun q hq => h.sound q (mem_of_mem_eraseP hq)

/-- The latest running request counted every other that runs. -/
theorem running_le {m : Nat} (h : Nested rs) (hle : ∀ r ∈ rs, r.phase = .running → r.present ≤ m) :
    (rs.filter (·.phase = .running)).length ≤ m := by
  induction rs with
  | nil => simp
  | cons r rs ih =>
    by_cases hr : r.phase = .running
    · have hlen := length_filter_le (fun r : Request => r.phase = .running) rs
      have hn := h.1
      have hm := hle r mem_cons_self hr
      simp only [filter_cons, hr, decide_true, if_true, length_cons]
      omega
    · simpa [hr] using ih h.2 fun q hq => hle q (mem_cons_of_mem r hq)

/-- What the guard promises of its handlers, its shed requests and its counter. -/
theorem guard_admits (hsoft : c.softMax ≤ c.hardMax) {labels : List Label} {a : Admission}
    (hrun : run (Admission.step c) {} labels = some a) :
    (a.inside.filter (·.phase = .running)).length ≤ c.hardMax.toNat ∧
    (∀ r ∈ a.inside, r.priority = .low → r.phase = .running → (r.present : Int) ≤ c.softMax) ∧
    (∀ r ∈ a.inside, r.priority = .high → r.phase = .shed → c.hardMax ≤ (r.present : Int) - 1) ∧
    (a.inside = [] → a.inflight = 0) := by
  have h := run_invariant (I := Inv c) (fun _ _ _ => Inv.step)
    (show Inv c {} from ⟨rfl, trivial, nofun⟩) hrun
  refine ⟨running_le h.nested fun r hr hphase => ?_, fun r hr hp hphase => ?_,
    fun r hr hp hphase => ?_, fun hnone => by simp [h.inflight, hnone]⟩
  · obtain ⟨hn, hle, -⟩ := h.sound r hr
    replace hle := hle hphase
    cases hp : r.priority <;> simp only [hp, Limits.limit] at hle <;> omega
  · obtain ⟨hn, hle, -⟩ := h.sound r hr
    replace hle := hle hphase
    simp only [hp, Limits.limit] at hle
    omega
  obtain ⟨hn, -, hlt⟩ := h.sound r hr
  replace hlt := hlt hphase
  simp only [hp, Limits.limit] at hlt
  omega

theorem guard_admits_two :
    ∃ a, run (Admission.step ⟨1, 2⟩) {} [.count 1 .low, .count 2 .high, .decide 2, .decide 1,
        .count 3 .high, .decide 3, .leave 1 true] = some a ∧ a.inside.length = 2 ∧
      (a.inside.filter (·.phase = .running)).length ≤ 2 := by
  refine exists_some_imp (A := fun a => a.inside.length = 2)
    (by decide +kernel) fun a hrun hlen => ?_
  exact ⟨hlen, (guard_admits (by decide) hrun).1⟩

end GoServices.Playback.Guard
