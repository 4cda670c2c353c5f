/-
A scan that keeps the first element with the largest key.

The scan replaces its element only by one with a strictly larger key, so among several elements
with the largest key the first one stays.
-/
import Mathlib.Tactic

namespace GoServices

open List

section Extremum

variable {α κ : Type} [LinearOrder κ] (key : α → κ)

/-- Replace `a` by an element with a strictly larger key. -/
def better (a b : α) : α := if key a < key b then b else a

def scan (a : α) (bs : List α) : α := bs.foldl (better key) a

theorem scan_cons (a b : α) (bs : List α) : scan key a (b :: bs) = scan key (better key a b) bs :=
  rfl

theorem key_better (a b : α) : key (better key a b) = max (key a) (key b) := by
  unfold better
  split
  · rename_i hlt
    exact (max_eq_right (le_of_lt hlt)).symm
  · rename_i hle
    exact (max_eq_left (not_lt.mp hle)).symm

theorem scan_mem (a : α) (bs : List α) : scan key a bs ∈ a :: bs := by
  induction bs generalizing a with
  | nil => exact mem_singleton_self a
  | cons b bs ih =>
    rw [scan_cons key]
    have hchoice : better key a b = a ∨ better key a b = b := by
      unfold better
      split
      · exact .inr rfl
      · exact .inl rfl
    rcases mem_cons.mp (ih (better key a b)) with heq | hmem
    · rw [heq]
      rcases hchoice with h | h
      · rw [h]
        exact mem_cons_self
      · rw [h]
        exact mem_cons_of_mem _ mem_cons_self
    · exact mem_cons_of_mem _ (mem_cons_of_mem _ hmem)

theorem le_key_scan (a : α) (bs : List α) : ∀ c ∈ a :: bs, key c ≤ key (scan key a bs) := by
  induction bs generalizing a with
  | nil =>
    intro c hc
    rw [mem_singleton.mp hc]
    exact le_rfl
  | cons b bs ih =>
    intro c hc
    have hbest : key (better key a b) ≤ key (scan key (better key a b) bs) := ih _ _ mem_cons_self
    rw [key_better key a b] at hbest
    rcases mem_cons.mp hc with rfl | hc
    · exact le_trans (le_max_left _ _) hbest
    rcases mem_cons.mp hc with rfl | hc
    · exact le_trans (le_max_right _ _) hbest
    · exact ih _ c (mem_cons_of_mem _ hc)

variable {key}

theorem scan_of_le {a : α} {bs : List α} (h : ∀ b ∈ bs, key b ≤ key a) : scan key a bs = a := by
  induction bs with
  | nil => rfl
  | cons b bs ih =>
    have hstay : better key a b = a := if_neg (not_lt.mpr (h b mem_cons_self))
    rw [scan_cons key, hstay]
    exact ih fun c hc => h c (mem_cons_of_mem _ hc)

/-- The elements with the largest key among `bs`, where that is above the key of `a`. -/
def Beats (key : α → κ) (a : α) (bs : Multiset α) (b : α) : Prop :=
  b ∈ bs ∧ key a < key b ∧ ∀ c ∈ bs, key c ≤ key b

theorem scan_beats {a : α} {bs : List α} {b : α} (hb : b ∈ bs) (hlt : key a < key b) :
    Beats key a bs (scan key a bs) := by
  have hle := le_key_scan key a bs
  have habove : key a < key (scan key a bs) := lt_of_lt_of_le hlt (hle b (mem_cons_of_mem _ hb))
  refine ⟨?_, habove, fun c hc => hle c (mem_cons_of_mem _ hc)⟩
  rcases mem_cons.mp (scan_mem key a bs) with heq | hmem
  · rw [heq] at habove
    exact absurd habove (lt_irrefl _)
  · exact hmem

theorem exists_scan_eq [DecidableEq α] {a b : α} {bs : Multiset α} (h : Beats key a bs b) :
    ∃ l : List α, (l : Multiset α) = bs ∧ scan key a l = b := by
  obtain ⟨hmem, hlt, hmax⟩ := h
  induction bs using Quotient.inductionOn with
  | h bs =>
    refine ⟨b :: bs.erase b, Multiset.coe_eq_coe.mpr (perm_cons_erase hmem).symm, ?_⟩
    have hfirst : better key a b = b := if_pos hlt
    rw [scan_cons key, hfirst]
    exact scan_of_le fun c hc => hmax c (mem_of_mem_erase hc)

theorem scan_eq_iff [DecidableEq α] (a : α) (bs : Multiset α) :
    (∀ l₁ l₂ : List α, (l₁ : Multiset α) = bs → (l₂ : Multiset α) = bs →
      scan key a l₁ = scan key a l₂) ↔
    ∀ b c, Beats key a bs b → Beats key a bs c → b = c := by
  constructor
  · intro h b c hb hc
    obtain ⟨l₁, hl₁, hscan₁⟩ := exists_scan_eq hb
    obtain ⟨l₂, hl₂, hscan₂⟩ := exists_scan_eq hc
    rw [← hscan₁, ← hscan₂]
    exact h l₁ l₂ hl₁ hl₂
  intro h l₁ l₂ hl₁ hl₂
  subst hl₁
  have hmem : ∀ c, c ∈ l₂ ↔ c ∈ l₁ := fun c => (Multiset.coe_eq_coe.mp hl₂).mem_iff
  by_cases hstays : ∀ b ∈ l₁, key b ≤ key a
  · rw [scan_of_le hstays, scan_of_le fun b hb => hstays b ((hmem b).mp hb)]
  obtain ⟨b, hb⟩ := not_forall.mp hstays
  obtain ⟨hb, hlt⟩ := Classical.not_imp.mp hb
  rw [not_le] at hlt
  refine h _ _ (scan_beats hb hlt) ?_
  rw [← hl₂]
  exact scan_beats ((hmem b).mpr hb) hlt

end Extremum

end GoServices
