/-
A list without the elements at both ends that a predicate holds of.
-/
import Mathlib.Data.List.DropRight

namespace GoServices

open List

section
variable {α β : Type} (p : α → Bool)

def trim (l : List α) : List α := (l.dropWhile p).rdropWhile p

theorem trim_map (f : β → α) (l : List β) : trim p (l.map f) = (trim (p ∘ f) l).map f := by
  rw [trim, dropWhile_map, trim, List.rdropWhile, List.rdropWhile, ← map_reverse,
    dropWhile_map, map_reverse]

theorem dropWhile_rdropWhile {l : List α} (hl : l.dropWhile p = l) :
    (l.rdropWhile p).dropWhile p = l.rdropWhile p := by
  obtain ⟨t, ht⟩ := rdropWhile_prefix p (l := l)
  generalize l.rdropWhile p = m at ht ⊢
  cases m with
  | nil => rfl
  | cons x m =>
    have hx : ¬ p x := by
      rw [← ht, dropWhile_eq_self_iff] at hl
      exact hl (Nat.succ_pos _)
    exact dropWhile_cons_of_neg hx

theorem trim_trim (l : List α) : trim p (trim p l) = trim p l := by
  rw [trim, trim, dropWhile_rdropWhile p (dropWhile_idempotent p l), rdropWhile_idempotent]

end

end GoServices
