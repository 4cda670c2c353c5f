/-
Texts that are joined with a separator.

Joined texts can be told apart when the part before the separator, or the part after it,
does not have it.
-/
import Mathlib.Tactic

namespace GoServices

open List

theorem intercalate_append_singleton {α : Type} (sep l : List α) {ls : List (List α)}
    (h : ls ≠ []) : sep.intercalate (ls ++ [l]) = sep.intercalate ls ++ sep ++ l := by
  induction ls with
  | nil => exact absurd rfl h
  | cons a ls ih =>
    cases ls with
    | nil => simp [intercalate_cons_cons]
    | cons b ls =>
      have hrest := ih (cons_ne_nil b ls)
      simp only [cons_append, intercalate_cons_cons, append_assoc] at hrest ⊢
      rw [hrest]

section
variable {α : Type} {sep : α} {a b a' b' : List α}

theorem append_separator_inj (hb : sep ∉ b) (hb' : sep ∉ b') (h : a ++ sep :: b = a' ++ sep :: b') :
    a = a' ∧ b = b' := by
  rcases append_eq_append_iff.mp h with ⟨c, ha, hc⟩ | ⟨c, ha, hc⟩
  · cases c with
    | nil => exact ⟨by rw [ha, append_nil], (List.cons.inj hc).2⟩
    | cons x c =>
      have htail : b = c ++ sep :: b' := (List.cons.inj hc).2
      exact absurd (htail ▸ mem_append_right c mem_cons_self) hb
  cases c with
  | nil => exact ⟨by rw [ha, append_nil], (List.cons.inj hc).2.symm⟩
  | cons x c =>
    have htail : b' = c ++ sep :: b := (List.cons.inj hc).2
    exact absurd (htail ▸ mem_append_right c mem_cons_self) hb'

theorem separator_append_inj (ha : sep ∉ a) (ha' : sep ∉ a') (h : a ++ sep :: b = a' ++ sep :: b') :
    a = a' ∧ b = b' := by
  have hreverse := congrArg List.reverse h
  simp only [reverse_append, reverse_cons, append_assoc, singleton_append] at hreverse
  have hparts := append_separator_inj (mt mem_reverse.mp ha) (mt mem_reverse.mp ha')
    hreverse
  exact ⟨reverse_inj.mp hparts.2, reverse_inj.mp hparts.1⟩

end

theorem text_separator_inj (sep : Char) {a b a' b' : String} (hb : sep ∉ b.toList)
    (hb' : sep ∉ b'.toList)
    (h : a ++ String.singleton sep ++ b = a' ++ String.singleton sep ++ b') :
    a = a' ∧ b = b' := by
  have hlist := congrArg String.toList h
  simp only [String.toList_append, String.toList_singleton, append_assoc, singleton_append] at hlist
  obtain ⟨ha, hb⟩ := append_separator_inj hb hb' hlist
  exact ⟨String.toList_inj.mp ha, String.toList_inj.mp hb⟩

section
variable {α : Type} [BEq α] [LawfulBEq α] {sep : α} {l : List α}

theorem splitOn_separator (l l' : List α) :
    (l ++ sep :: l').splitOn sep = l.splitOn sep ++ l'.splitOn sep :=
  splitOnP_append_cons l l' (beq_self_eq_true sep)

theorem splitOn_of_notMem (h : sep ∉ l) : l.splitOn sep = [l] := by
  refine splitOnP_eq_singleton fun x hx => ?_
  rw [beq_eq_false_iff_ne]
  rintro rfl
  exact h hx

omit [BEq α] [LawfulBEq α] in
theorem exists_last_separator (h : sep ∈ l) : ∃ a b, l = a ++ sep :: b ∧ sep ∉ b := by
  obtain ⟨b, a, hl, hb⟩ := eq_append_cons_of_mem (mem_reverse.mpr h)
  refine ⟨a.reverse, b.reverse, ?_, mt mem_reverse.mp hb⟩
  rw [← reverse_reverse l, hl]
  simp

end

end GoServices
