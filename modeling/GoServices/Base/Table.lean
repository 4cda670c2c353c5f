/-
Finite maps with the operations of a Go map.

A `Table κ ν` holds at most one value per key.
-/
import Mathlib.Data.List.AList
import Mathlib.Tactic

namespace GoServices

open List

def Table (κ ν : Type) : Type := AList fun _ : κ => ν

namespace Table

variable {κ ν : Type}

def empty : Table κ ν := (∅ : AList fun _ : κ => ν)

def toList (m : Table κ ν) : List (κ × ν) :=
  (AList.entries m).map fun e => (e.1, e.2)

def keys (m : Table κ ν) : List κ := AList.keys m

/-- `len(m)`. -/
def len (m : Table κ ν) : Nat := (AList.entries m).length

/-- Keep the entries that pass `p`.  This is the loop
`for k, v := range m { if !p(k, v) { delete(m, k) } }`. -/
def filter (p : κ → ν → Bool) (m : Table κ ν) : Table κ ν :=
  { entries := (AList.entries m).filter fun e => p e.1 e.2
    nodupKeys := (AList.nodupKeys m).sublist List.filter_sublist }

def mapValues {μ : Type} (f : ν → μ) (m : Table κ ν) : Table κ μ :=
  { entries := (AList.entries m).map fun e => ⟨e.1, f e.2⟩
    nodupKeys := by
      rw [List.NodupKeys, List.keys, List.map_map]
      exact AList.nodupKeys m }

instance [DecidableEq κ] [DecidableEq ν] : DecidableEq (Table κ ν) := fun m n =>
  decidable_of_iff (AList.entries m = AList.entries n) ⟨AList.ext, fun h => h ▸ rfl⟩

section
variable [DecidableEq κ]

/-- The comma-ok read `v, ok := m[k]`. -/
def get? (m : Table κ ν) (k : κ) : Option ν := AList.lookup k m

/-- The assignment `m[k] = v`. -/
def set (m : Table κ ν) (k : κ) (v : ν) : Table κ ν := AList.insert k v m

/-- `delete(m, k)`. -/
def erase (m : Table κ ν) (k : κ) : Table κ ν := AList.erase k m

@[simp] theorem get?_set_self (m : Table κ ν) (k : κ) (v : ν) : (m.set k v).get? k = some v :=
  AList.lookup_insert m

@[grind =] theorem get?_set (m : Table κ ν) (k : κ) (v : ν) (j : κ) :
    (m.set k v).get? j = if j = k then some v else m.get? j := by
  by_cases h : j = k
  · subst h
    rw [if_pos rfl, get?_set_self]
  · rw [if_neg h]
    exact AList.lookup_insert_ne h

@[grind =] theorem get?_erase (m : Table κ ν) (k j : κ) :
    (m.erase k).get? j = if j = k then none else m.get? j := by
  by_cases h : j = k
  · subst h
    rw [if_pos rfl]
    exact AList.lookup_erase j m
  · rw [if_neg h]
    exact AList.lookup_erase_ne h

variable {m : Table κ ν} {k : κ} {v w : ν}

theorem mem_toList :
    (k, v) ∈ m.toList ↔ m.get? k = some v := by
  have hlookup : m.get? k = some v ↔ (⟨k, v⟩ : Sigma fun _ : κ => ν) ∈ AList.entries m :=
    AList.mem_lookup_iff
  rw [hlookup, toList, mem_map]
  constructor
  · rintro ⟨⟨k', v'⟩, he, heq⟩
    obtain ⟨rfl, rfl⟩ := Prod.mk.inj heq
    exact he
  · exact fun he => ⟨⟨k, v⟩, he, rfl⟩

theorem update_cases {m' : Table κ ν} (h : ∀ j, m'.get? j = if j = k then some v else m.get? j)
    {j : κ} (hw : m'.get? j = some w) : (j = k ∧ w = v) ∨ (j ≠ k ∧ m.get? j = some w) := by
  rw [h] at hw
  split at hw
  · rename_i hj
    exact .inl ⟨hj, (Option.some.inj hw).symm⟩
  · rename_i hj
    exact .inr ⟨hj, hw⟩

theorem set_cases {j : κ} (h : (m.set k v).get? j = some w) :
    (j = k ∧ w = v) ∨ (j ≠ k ∧ m.get? j = some w) :=
  update_cases (m.get?_set k v) h

theorem get?_eq_none_of_sub {m' : Table κ ν} (h : ∀ v, m'.get? k = some v → m.get? k = some v)
    (hm : m.get? k = none) :
    m'.get? k = none := by
  rw [Option.eq_none_iff_forall_ne_some] at hm ⊢
  exact fun v hv => hm v (h v hv)

theorem mem_keys : k ∈ m.keys ↔ ∃ v, m.get? k = some v := by
  rw [← Option.isSome_iff_exists]
  exact AList.lookup_isSome.symm

theorem exists_get?_eq_none [Infinite κ] (m : Table κ ν) : ∃ k, m.get? k = none := by
  obtain ⟨k, hk⟩ := Infinite.exists_notMem_finset m.keys.toFinset
  refine ⟨k, ?_⟩
  rw [mem_toFinset, mem_keys, not_exists] at hk
  exact Option.eq_none_iff_forall_ne_some.mpr hk

@[grind =] theorem get?_filter (p : κ → ν → Bool) (m : Table κ ν) (k : κ) :
    (m.filter p).get? k = (m.get? k).filter (p k) := by
  have hiff : ∀ v, (m.filter p).get? k = some v ↔ m.get? k = some v ∧ p k v = true := by
    intro v
    have h := AList.mem_lookup_iff (a := k) (b := v) (s := m.filter p)
    have h' := AList.mem_lookup_iff (a := k) (b := v) (s := m)
    exact h.trans (mem_filter.trans (and_congr_left' h'.symm))
  ext v
  rw [hiff v, Option.filter_eq_some_iff]

@[grind =] theorem get?_mapValues {μ : Type} (f : ν → μ) (m : Table κ ν) (k : κ) :
    (m.mapValues f).get? k = (m.get? k).map f := by
  ext w
  have h : (m.mapValues f).get? k = some w ↔
      (⟨k, w⟩ : Sigma fun _ : κ => μ) ∈ AList.entries (m.mapValues f) := AList.mem_lookup_iff
  rw [h, Option.map_eq_some_iff]
  constructor
  · intro hw
    obtain ⟨⟨k', v⟩, he, heq⟩ := mem_map.mp hw
    cases heq
    exact ⟨v, AList.mem_lookup_iff.mpr he, rfl⟩
  · rintro ⟨v, hv, rfl⟩
    exact mem_map.mpr ⟨⟨k, v⟩, AList.mem_lookup_iff.mp hv, rfl⟩

/-- A statement about every entry is decided by going through the entries. -/
instance decidableForall (m : Table κ ν) (P : κ → ν → Prop) [∀ k v, Decidable (P k v)] :
    Decidable (∀ k v, m.get? k = some v → P k v) :=
  decidable_of_iff (∀ e ∈ m.toList, P e.1 e.2)
    ⟨fun h k v hkv => h (k, v) (mem_toList.mpr hkv), fun h e he => h e.1 e.2 (mem_toList.mp he)⟩

end

/-! ## The number of entries -/

section Length

theorem keys_nodup (m : Table κ ν) : m.keys.Nodup := AList.keys_nodup m

theorem toList_nodup (m : Table κ ν) : m.toList.Nodup := by
  refine Nodup.of_map Prod.fst ?_
  rw [toList, map_map]
  exact m.keys_nodup

theorem length_keys (m : Table κ ν) : m.keys.length = m.len := length_map _

theorem len_filter_le (p : κ → ν → Bool) (m : Table κ ν) : (m.filter p).len ≤ m.len :=
  length_filter_le _ _

variable [DecidableEq κ]

theorem encard_keys (m : Table κ ν) : {k | ∃ v, m.get? k = some v}.encard = m.len := by
  have hkeys : {k | ∃ v, m.get? k = some v} = (m.keys.toFinset : Set κ) := by
    ext k
    rw [coe_toFinset]
    exact mem_keys.symm
  rw [hkeys, Set.encard_coe_eq_coe_finsetCard, toFinset_card_of_nodup m.keys_nodup, length_keys]

variable {m : Table κ ν}

theorem length_le_len {l : List κ} (hl : l.Nodup) (h : ∀ k ∈ l, ∃ v, m.get? k = some v) :
    l.length ≤ m.len := by
  rw [← length_keys]
  exact (subperm_of_subset hl fun k hk => mem_keys.mpr (h k hk)).length_le

theorem len_le_of_get? {μ : Type} {m' : Table κ μ}
    (h : ∀ k v, m'.get? k = some v → ∃ w, m.get? k = some w) : m'.len ≤ m.len := by
  rw [← length_keys]
  refine length_le_len m'.keys_nodup fun k hk => ?_
  obtain ⟨v, hv⟩ := mem_keys.mp hk
  exact h k v hv

theorem len_eq_length {l : List κ} (hl : l.Nodup) (h : ∀ k, k ∈ l ↔ ∃ v, m.get? k = some v) :
    m.len = l.length := by
  refine le_antisymm ?_ (length_le_len hl fun k hk => (h k).mp hk)
  rw [← length_keys]
  exact (subperm_of_subset m.keys_nodup fun k hk => (h k).mpr (mem_keys.mp hk)).length_le

theorem len_congr {m' : Table κ ν} (h : ∀ k, m.get? k = m'.get? k) : m.len = m'.len :=
  le_antisymm (len_le_of_get? fun k v hk => ⟨v, h k ▸ hk⟩)
    (len_le_of_get? fun k v hk => ⟨v, (h k).symm ▸ hk⟩)

theorem len_set_le (m : Table κ ν) (k : κ) (v : ν) : (m.set k v).len ≤ m.len + 1 := by
  rw [← length_keys, ← length_keys, ← length_cons (a := k)]
  refine (subperm_of_subset (m.set k v).keys_nodup fun j hj => ?_).length_le
  obtain ⟨w, hw⟩ := mem_keys.mp hj
  rw [get?_set] at hw
  split at hw
  · rename_i hjk
    rw [hjk]
    exact mem_cons_self
  · exact mem_cons_of_mem _ (mem_keys.mpr ⟨w, hw⟩)

theorem len_set_of_some {k : κ} {v : ν} (h : m.get? k = some v) (w : ν) :
    (m.set k w).len ≤ m.len := by
  refine len_le_of_get? fun j u hj => ?_
  rw [get?_set] at hj
  split at hj
  · rename_i hjk
    exact ⟨v, hjk ▸ h⟩
  · exact ⟨u, hj⟩

theorem len_erase_le (m : Table κ ν) (k : κ) : (m.erase k).len ≤ m.len := by
  refine len_le_of_get? fun j v hj => ?_
  rw [get?_erase] at hj
  split at hj
  · cases hj
  · exact ⟨v, hj⟩

theorem get?_of_len_eq_zero (h : m.len = 0) (k : κ) : m.get? k = none := by
  rw [Option.eq_none_iff_forall_ne_some]
  intro v hv
  have hmem := mem_toList.mpr hv
  rw [toList, eq_nil_of_length_eq_zero h] at hmem
  cases hmem

end Length

/-! ## Sums over the entries -/

section Total

variable {M : Type} [AddCommMonoid M]

/-- The sum of `f` over the entries. -/
def total (f : κ → ν → M) (m : Table κ ν) : M :=
  ((AList.entries m).map fun e => f e.1 e.2).sum

@[simp] theorem total_empty (f : κ → ν → M) : (empty : Table κ ν).total f = 0 := rfl

variable {m : Table κ ν}

theorem total_eq_zero {f : κ → ν → M} [DecidableEq κ] (h : ∀ k v, m.get? k = some v → f k v = 0) :
    m.total f = 0 := by
  refine sum_eq_zero fun x hx => ?_
  obtain ⟨⟨k, v⟩, he, rfl⟩ := mem_map.mp hx
  exact h k v (AList.mem_lookup_iff.mpr he)

variable {k : κ}

theorem total_set_of_none [DecidableEq κ] (f : κ → ν → M) (h : m.get? k = none) (v : ν) :
    (m.set k v).total f = f k v + m.total f := by
  have hk : k ∉ (AList.entries m).keys := AList.lookup_eq_none.mp h
  show ((List.kinsert k v (AList.entries m)).map fun e => f e.1 e.2).sum = _
  rw [kinsert_def, kerase_of_notMem_keys hk, map_cons, sum_cons]
  rfl

variable {old v : ν}

theorem exists_split [DecidableEq κ] (h : m.get? k = some v) :
    ∃ l₁ l₂, AList.entries m = l₁ ++ ⟨k, v⟩ :: l₂ ∧ (AList.entries m).kerase k = l₁ ++ l₂ := by
  have hmem : (⟨k, v⟩ : Sigma fun _ : κ => ν) ∈ AList.entries m := AList.mem_lookup_iff.mp h
  obtain ⟨v', l₁, l₂, -, hsplit, herase⟩ := exists_of_kerase (mem_keys_of_mem hmem)
  have hv : v' = v := by
    have hmem' : (⟨k, v'⟩ : Sigma fun _ : κ => ν) ∈ AList.entries m := by
      rw [hsplit]
      exact mem_append_right _ mem_cons_self
    have hlookup : m.get? k = some v' := AList.mem_lookup_iff.mpr hmem'
    rw [h] at hlookup
    exact (Option.some.inj hlookup).symm
  subst hv
  exact ⟨l₁, l₂, hsplit, herase⟩

section
variable [DecidableEq κ] (f : κ → ν → M) (h : m.get? k = some old)
include f h

theorem total_erase_of_some : (m.erase k).total f + f k old = m.total f := by
  obtain ⟨l₁, l₂, hsplit, herase⟩ := exists_split h
  show (((AList.entries m).kerase k).map fun e => f e.1 e.2).sum + _ =
    ((AList.entries m).map fun e => f e.1 e.2).sum
  rw [herase, hsplit]
  simp only [map_cons, map_append, sum_cons, sum_append]
  rw [add_assoc, add_comm _ (f k old)]

theorem total_set_of_some (v : ν) : (m.set k v).total f + f k old = f k v + m.total f := by
  show ((List.kinsert k v (AList.entries m)).map fun e => f e.1 e.2).sum + _ = _
  rw [kinsert_def, map_cons, sum_cons, add_assoc, ← total_erase_of_some f h]
  rfl

end

theorem single_le_total [DecidableEq κ] [PartialOrder M] [IsOrderedAddMonoid M] {f : κ → ν → M}
    (hf : ∀ k v, m.get? k = some v → 0 ≤ f k v) (h : m.get? k = some v) :
    f k v ≤ m.total f := by
  refine single_le_sum (fun x hx => ?_) _
    (mem_map.mpr ⟨⟨k, v⟩, AList.mem_lookup_iff.mp h, rfl⟩)
  obtain ⟨⟨k', v'⟩, he, rfl⟩ := mem_map.mp hx
  exact hf k' v' (AList.mem_lookup_iff.mpr he)

end Total

end Table

end GoServices
