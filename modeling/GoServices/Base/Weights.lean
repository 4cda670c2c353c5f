/-
Sums of weights over lists whose entries are replaced, appended and removed.

What a system keeps in its queues can be counted by giving each entry a weight.
-/
import Mathlib.Tactic

namespace GoServices

open List

section Weights

variable {α : Type}

def weigh (f : α → Nat) : List α → Nat
  | [] => 0
  | a :: l => f a + weigh f l

def weighAt (f : Nat → α → Nat) : List α → Nat
  | [] => 0
  | a :: l => f 0 a + weighAt (fun i => f (i + 1)) l

section
variable (f : α → Nat)

@[simp] theorem weigh_nil : weigh f [] = 0 := rfl

@[simp] theorem weigh_cons (a : α) (l : List α) :
    weigh f (a :: l) = f a + weigh f l := rfl

@[simp] theorem weigh_append (l l' : List α) :
    weigh f (l ++ l') = weigh f l + weigh f l' := by
  induction l with
  | nil => exact (Nat.zero_add _).symm
  | cons a l ih =>
    rw [cons_append, weigh_cons, weigh_cons, ih]
    omega

end

section
variable {f : α → Nat} {l : List α} {i j : Nat} {a b : α}

theorem weigh_split (h : l[i]? = some a) :
    weigh f l = weigh f (l.take i) + (f a + weigh f (l.drop (i + 1))) := by
  obtain ⟨hi, rfl⟩ := List.getElem?_eq_some_iff.mp h
  rw [← weigh_cons, ← weigh_append, ← drop_eq_getElem_cons hi, take_append_drop]

theorem weigh_set (h : l[i]? = some a) (b : α) :
    weigh f (l.set i b) + f a = weigh f l + f b := by
  obtain ⟨hi, -⟩ := List.getElem?_eq_some_iff.mp h
  rw [weigh_split h, set_eq_take_append_cons_drop, if_pos hi, weigh_append, weigh_cons]
  omega

theorem weigh_eraseIdx (h : l[i]? = some a) :
    weigh f (l.eraseIdx i) + f a = weigh f l := by
  rw [weigh_split h, eraseIdx_eq_take_drop_succ, weigh_append]
  omega

theorem le_weigh (h : a ∈ l) : f a ≤ weigh f l := by
  induction l with
  | nil => cases h
  | cons c l ih =>
    rw [weigh_cons]
    obtain rfl | h := mem_cons.mp h
    · omega
    · have hrest := ih h
      omega

theorem add_le_weigh (ha : l[i]? = some a) (hb : l[j]? = some b) (hne : i ≠ j) :
    f a + f b ≤ weigh f l := by
  have herase := weigh_eraseIdx (f := f) ha
  have hmem : b ∈ l.eraseIdx i := mem_eraseIdx_iff_getElem?.mpr ⟨j, hne.symm, hb⟩
  have hle := le_weigh (f := f) hmem
  omega

theorem weigh_eq_zero : weigh f l = 0 ↔ ∀ a ∈ l, f a = 0 := by
  constructor
  · intro h a ha
    have hle := le_weigh (f := f) ha
    omega
  intro h
  induction l with
  | nil => rfl
  | cons c l ih =>
    have hhead := h c mem_cons_self
    have hrest := ih fun a ha => h a (mem_cons_of_mem _ ha)
    rw [weigh_cons]
    omega

theorem weigh_ite {l : List Nat} (hl : l.Nodup) (i n : Nat) :
    weigh (fun j => if j = i then n else 0) l = if i ∈ l then n else 0 := by
  induction l with
  | nil => rfl
  | cons j l ih =>
    obtain ⟨hj, hl⟩ := nodup_cons.mp hl
    rw [weigh_cons, ih hl]
    by_cases hji : j = i
    · subst hji
      rw [if_pos rfl, if_neg hj, if_pos mem_cons_self, Nat.add_zero]
    have hmem : i ∈ j :: l ↔ i ∈ l := by
      rw [mem_cons, or_iff_right (Ne.symm hji)]
    rw [if_neg hji, Nat.zero_add]
    simp only [hmem]

theorem exists_of_weigh_pos (h : 0 < weigh f l) : ∃ a ∈ l, 0 < f a := by
  by_contra hnone
  have hzero : weigh f l = 0 := by
    refine weigh_eq_zero.mpr fun a ha => ?_
    by_contra hne
    exact hnone ⟨a, ha, Nat.pos_of_ne_zero hne⟩
  omega

end

section
variable {f : Nat → α → Nat} {l : List α} {i : Nat} {a : α}

theorem weighAt_set (h : l[i]? = some a) (b : α) :
    weighAt f (l.set i b) + f i a = weighAt f l + f i b := by
  induction l generalizing i f with
  | nil => cases h
  | cons c l ih =>
    cases i with
    | zero =>
      cases h
      rw [set_cons_zero, weighAt, weighAt]
      omega
    | succ i =>
      have hrest := ih (f := fun i => f (i + 1)) h
      rw [set_cons_succ, weighAt, weighAt]
      omega

theorem le_weighAt (h : l[i]? = some a) : f i a ≤ weighAt f l := by
  induction l generalizing i f with
  | nil => cases h
  | cons c l ih =>
    cases i with
    | zero =>
      cases h
      exact Nat.le_add_right _ _
    | succ i =>
      have hrest := ih (f := fun i => f (i + 1)) h
      rw [weighAt]
      omega

theorem exists_of_weighAt_pos (h : 0 < weighAt f l) : ∃ i a, l[i]? = some a ∧ 0 < f i a := by
  induction l generalizing f with
  | nil => cases h
  | cons c l ih =>
    rw [weighAt] at h
    by_cases hhead : 0 < f 0 c
    · exact ⟨0, c, rfl, hhead⟩
    · obtain ⟨i, a, hget, hpos⟩ := ih (f := fun i => f (i + 1)) (by omega)
      exact ⟨i + 1, a, hget, hpos⟩

end

theorem getElem?_set_cases {l : List α} {i j : Nat} {a b : α} (h : (l.set i b)[j]? = some a) :
    (j = i ∧ a = b) ∨ (j ≠ i ∧ l[j]? = some a) := by
  rw [getElem?_set] at h
  split at h
  · rename_i hij
    rw [Option.ite_none_right_eq_some] at h
    exact .inl ⟨hij.symm, (Option.some.inj h.2).symm⟩
  · rename_i hij
    exact .inr ⟨Ne.symm hij, h⟩

end Weights

end GoServices
