/-
Last-writer-wins registers.

`merge` compares timestamps and breaks ties by the node.
-/
import GoServices.Base.Extremum
import Mathlib

namespace GoServices.Replication

structure LWWRegister where
  value : String
  ts : Int
  node : String
  deriving DecidableEq

namespace LWWRegister

/-- `Merge`: the register afterwards and whether it changed. -/
def merge (r other : LWWRegister) : LWWRegister × Bool :=
  if other.ts > r.ts ∨ (other.ts = r.ts ∧ other.node > r.node) then (other, true) else (r, false)

def mergeAll (r : LWWRegister) (others : List LWWRegister) : LWWRegister :=
  others.foldl (fun r other => (r.merge other).1) r

/-- What `merge` compares. -/
def stamp (r : LWWRegister) : Int ×ₗ String := toLex (r.ts, r.node)

theorem stamp_lt_iff {r other : LWWRegister} :
    r.stamp < other.stamp ↔ other.ts > r.ts ∨ (other.ts = r.ts ∧ other.node > r.node) := by
  rw [stamp, stamp, Prod.Lex.toLex_lt_toLex]
  exact or_congr_right (and_congr_left fun _ => eq_comm)

theorem merge_eq (r other : LWWRegister) :
    r.merge other = (better stamp r other, decide (r.stamp < other.stamp)) := by
  unfold merge better
  by_cases h : r.stamp < other.stamp
  · rw [if_pos (stamp_lt_iff.mp h), if_pos h, decide_eq_true h]
  · rw [if_neg (fun hlt => h (stamp_lt_iff.mpr hlt)), if_neg h, decide_eq_false h]

theorem mergeAll_eq (r : LWWRegister) (others : List LWWRegister) :
    r.mergeAll others = scan stamp r others := by
  unfold mergeAll scan
  congr 1
  funext r other
  rw [merge_eq]

theorem ext_of_stamp {a b : LWWRegister} (hstamp : a.stamp = b.stamp) (hvalue : a.value = b.value) :
    a = b := by
  have hpair := toLex.injective hstamp
  obtain ⟨va, ta, na⟩ := a
  obtain ⟨vb, tb, nb⟩ := b
  cases hpair
  cases hvalue
  rfl

/-- Merging a multiset of registers into `r` gives one result for all orders, exactly when
those that are newer than `r` and have the highest timestamp and node agree in their
value. -/
theorem merge_order_irrelevant_iff (r : LWWRegister) (others : Multiset LWWRegister) :
    (∀ l₁ l₂ : List LWWRegister, (l₁ : Multiset LWWRegister) = others →
      (l₂ : Multiset LWWRegister) = others → r.mergeAll l₁ = r.mergeAll l₂) ↔
    ∀ a ∈ others, ∀ b ∈ others, r.stamp < a.stamp → (∀ c ∈ others, c.stamp ≤ a.stamp) →
      b.stamp = a.stamp → b.value = a.value := by
  simp only [mergeAll_eq]
  rw [scan_eq_iff]
  constructor
  · intro h a ha b hb hnewer hmax hstamp
    rw [h a b ⟨ha, hnewer, hmax⟩ ⟨hb, by rw [hstamp]; exact hnewer, by rw [hstamp]; exact hmax⟩]
  rintro h a b ⟨ha, hnewer, hmax⟩ ⟨hb, -, hmax'⟩
  have hstamp : a.stamp = b.stamp := le_antisymm (hmax' a ha) (hmax b hb)
  exact ext_of_stamp hstamp (h a ha b hb hnewer hmax hstamp.symm).symm

/-- Two writes of one node at one time. -/
theorem merge_order_matters :
    ((LWWRegister.mk "" 0 "").mergeAll [⟨"x", 5, "a"⟩, ⟨"y", 5, "a"⟩]).value = "x" ∧
      ((LWWRegister.mk "" 0 "").mergeAll [⟨"y", 5, "a"⟩, ⟨"x", 5, "a"⟩]).value = "y" ∧
      [LWWRegister.mk "x" 5 "a", ⟨"y", 5, "a"⟩].Perm [⟨"y", 5, "a"⟩, ⟨"x", 5, "a"⟩] := by
  decide

end LWWRegister

end GoServices.Replication
