/-
Maps from keys to counts, where a missing key counts zero.

`raise` is the loop that takes over every larger count of another map.
-/
import GoServices.Base.Table

namespace GoServices.Table

open List

variable {κ : Type} [DecidableEq κ]

/-- The read `m[k]`. -/
def read (m : Table κ Nat) (k : κ) : Nat := (m.get? k).getD 0

def raise (m : Table κ Nat) (entries : List (κ × Nat)) : Table κ Nat :=
  entries.foldl (fun m e => if e.2 > m.read e.1 then m.set e.1 e.2 else m) m

theorem read_set (m : Table κ Nat) (n : κ) (c : Nat) (k : κ) :
    (m.set n c).read k = if k = n then c else m.read k := by
  unfold read
  rw [get?_set]
  by_cases h : k = n
  · rw [if_pos h, if_pos h, Option.getD_some]
  · rw [if_neg h, if_neg h]

variable {m : Table κ Nat}

theorem read_of_get? {k : κ} {c : Nat} (h : m.get? k = some c) :
    m.read k = c := by
  rw [read, h, Option.getD_some]

theorem read_of_notMem_keys {k : κ} (h : k ∉ m.keys) : m.read k = 0 := by
  cases hget : m.get? k with
  | none => rw [read, hget, Option.getD_none]
  | some c => exact absurd (mem_keys.mpr ⟨c, hget⟩) h

theorem raise_spec (entries : List (κ × Nat)) (m : Table κ Nat) :
    (∀ k, m.read k ≤ (m.raise entries).read k) ∧
    (∀ e ∈ entries, e.2 ≤ (m.raise entries).read e.1) ∧
    ∀ k, (m.raise entries).read k = m.read k ∨ (k, (m.raise entries).read k) ∈ entries := by
  induction entries generalizing m with
  | nil =>
    refine ⟨fun _ => Nat.le_refl _, fun e he => ?_, fun _ => .inl rfl⟩
    cases he
  | cons e entries ih =>
    obtain ⟨hraise, hcover, hfrom⟩ := ih (if e.2 > m.read e.1 then m.set e.1 e.2 else m)
    have hset : ∀ k, (if e.2 > m.read e.1 then m.set e.1 e.2 else m).read k =
        if k = e.1 then max (m.read k) e.2 else m.read k := by
      intro k
      by_cases hgt : e.2 > m.read e.1
      · rw [if_pos hgt, read_set]
        by_cases hk : k = e.1
        · rw [if_pos hk, if_pos hk, hk]
          omega
        · rw [if_neg hk, if_neg hk]
      rw [if_neg hgt]
      by_cases hk : k = e.1
      · rw [if_pos hk, hk]
        omega
      · rw [if_neg hk]
    refine ⟨fun k => ?_, fun d hd => ?_, fun k => ?_⟩
    · refine Nat.le_trans ?_ (hraise k)
      rw [hset k]
      split <;> omega
    · rcases mem_cons.mp hd with rfl | hd
      · refine Nat.le_trans ?_ (hraise d.1)
        rw [hset, if_pos rfl]
        exact Nat.le_max_right _ _
      · exact hcover d hd
    rcases hfrom k with h | h
    · rw [hset k] at h
      by_cases hk : k = e.1
      · rw [if_pos hk] at h
        rcases Nat.le_total (m.read k) e.2 with hle | hle
        · rw [Nat.max_eq_right hle] at h
          exact .inr (mem_cons.mpr (.inl (Prod.ext hk h)))
        · rw [Nat.max_eq_left hle] at h
          exact .inl h
      · rw [if_neg hk] at h
        exact .inl h
    · exact .inr (mem_cons_of_mem _ h)

theorem read_raise (m other : Table κ Nat) (k : κ) :
    (m.raise other.toList).read k = max (m.read k) (other.read k) := by
  obtain ⟨hraise, hcover, hfrom⟩ := raise_spec other.toList m
  have hle : other.read k ≤ (m.raise other.toList).read k := by
    cases hk : other.get? k with
    | none =>
      rw [read, hk]
      exact Nat.zero_le _
    | some c =>
      rw [read_of_get? hk]
      exact hcover (k, c) (mem_toList.mpr hk)
  have hone : (m.raise other.toList).read k = m.read k ∨
      (m.raise other.toList).read k = other.read k := by
    refine (hfrom k).imp_right fun h => ?_
    rw [read_of_get? (mem_toList.mp h)]
  have := hraise k
  omega

theorem total_eq_sum {S : Finset κ} (hS : ∀ k, k ∉ S → m.read k = 0) :
    m.total (fun _ c => c) = ∑ k ∈ S, m.read k := by
  have hkeys : m.total (fun _ c => c) = (m.keys.map m.read).sum := by
    unfold total keys AList.keys List.keys
    rw [map_map]
    refine congrArg sum (map_congr_left fun e he => ?_)
    exact (read_of_get? (AList.mem_lookup_iff.mpr he)).symm
  rw [hkeys, ← sum_toFinset m.read m.keys_nodup]
  -- Both sums are the sum over the union, as the other terms are zero.
  have hsub : m.keys.toFinset ⊆ m.keys.toFinset ∪ S := Finset.subset_union_left
  rw [Finset.sum_subset hsub fun k _ hk =>
    read_of_notMem_keys fun hmem => hk (mem_toFinset.mpr hmem)]
  exact (Finset.sum_subset Finset.subset_union_right fun k _ hk => hS k hk).symm

end GoServices.Table
