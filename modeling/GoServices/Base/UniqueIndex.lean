/-
Partial unique indexes over the rows of a table.

An index covers the rows its `WHERE` clause selects and gives each of them a key.
-/
import Mathlib.Tactic

namespace GoServices

open List

structure UniqueIndex (ρ κ : Type) where
  covers : ρ → Bool
  key : ρ → κ

namespace UniqueIndex

variable {ρ κ : Type} (ix : UniqueIndex ρ κ)

def Holds (rows : List ρ) : Prop :=
  rows.Pairwise fun q r => ix.covers q = true → ix.covers r = true → ix.key q ≠ ix.key r

/-- Whether inserting `r` is a unique violation. -/
def conflicts [DecidableEq κ] (rows : List ρ) (r : ρ) : Bool :=
  ix.covers r && rows.any fun q => ix.covers q && decide (ix.key q = ix.key r)

variable {ix}

theorem holds_nil : ix.Holds [] := List.Pairwise.nil

theorem Holds.update {rows : List ρ} (h : ix.Holds rows) {f : ρ → ρ}
    (hf : ∀ r ∈ rows, ix.covers (f r) = true → ix.covers r = true ∧ ix.key (f r) = ix.key r) :
    ix.Holds (rows.map f) := by
  unfold Holds
  rw [pairwise_map]
  refine Pairwise.imp_of_mem (fun {q r} hq hr hne hcq hcr => ?_) h
  obtain ⟨hq', hkq⟩ := hf q hq hcq
  obtain ⟨hr', hkr⟩ := hf r hr hcr
  rw [hkq, hkr]
  exact hne hq' hr'

theorem Holds.eq_of_key {rows : List ρ} (h : ix.Holds rows) {q r : ρ} (hq : q ∈ rows)
    (hr : r ∈ rows) (hcq : ix.covers q = true) (hcr : ix.covers r = true)
    (hkey : ix.key q = ix.key r) : q = r := by
  induction h with
  | nil => cases hq
  | cons hhead _ ih =>
    rcases mem_cons.mp hq with rfl | hq'
    · rcases mem_cons.mp hr with rfl | hr'
      · rfl
      · exact absurd hkey (hhead r hr' hcq hcr)
    rcases mem_cons.mp hr with rfl | hr'
    · exact absurd hkey.symm (hhead q hq' hcr hcq)
    · exact ih hq' hr'

variable [DecidableEq κ] {rows : List ρ}

theorem conflicts_eq_true {r : ρ} : ix.conflicts rows r = true ↔
    ix.covers r = true ∧ ∃ q ∈ rows, ix.covers q = true ∧ ix.key q = ix.key r := by
  simp [conflicts]

theorem Holds.insert (h : ix.Holds rows) {r : ρ} (hr : ix.conflicts rows r = false)
    : ix.Holds (rows ++ [r]) := by
  refine pairwise_append.mpr ⟨h, pairwise_singleton _ _, fun q hq r' hr' => ?_⟩
  rw [mem_singleton.mp hr']
  intro hcq hcr hkey
  have : ix.conflicts rows r = true := conflicts_eq_true.mpr ⟨hcr, q, hq, hcq, hkey⟩
  rw [hr] at this
  cases this

theorem Holds.countP_le_one (h : ix.Holds rows) (k : κ) :
    rows.countP (fun r => ix.covers r && decide (ix.key r = k)) ≤ 1 := by
  induction h with
  | nil => exact Nat.zero_le 1
  | cons hhead _ ih =>
    rename_i q rows _
    rw [countP_cons]
    split
    · -- the head has the key, so no other row has it
      rename_i hq
      simp only [Bool.and_eq_true, decide_eq_true_eq] at hq
      have hzero : rows.countP (fun r => ix.covers r && decide (ix.key r = k)) = 0 := by
        refine countP_eq_zero.mpr fun r hr hcov => ?_
        simp only [Bool.and_eq_true, decide_eq_true_eq] at hcov
        exact hhead r hr hq.1 hcov.1 (hq.2.trans hcov.2.symm)
      omega
    · exact ih

end UniqueIndex

end GoServices
