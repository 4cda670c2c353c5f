/-
Which key was used least recently.

`Recency` is the plain account of it: the keys that are present, and for each key the number of
its last use, where the uses are numbered one after the other.
-/
import Mathlib.Tactic

namespace GoServices

open List Function

structure Recency (K : Type) where
  present : Finset K
  touched : K → Nat
  tick : Nat

namespace Recency

variable {K : Type} [DecidableEq K]

def empty : Recency K := ⟨∅, fun _ => 0, 0⟩

variable (r : Recency K)

def touch (k : K) : Recency K where
  present := insert k r.present
  touched := update r.touched k r.tick
  tick := r.tick + 1

def drop (k : K) : Recency K := { r with present := r.present.erase k }

def oldest : Finset K :=
  r.present.filter fun k => ∀ j ∈ r.present, r.touched k ≤ r.touched j

def evict (capacity : Nat) : Recency K :=
  if capacity < r.present.card then { r with present := r.present \ r.oldest } else r

theorem touch_drop (k : K) : (r.drop k).touch k = r.touch k := by
  have hpresent : insert k (r.present.erase k) = insert k r.present := by
    ext j
    by_cases hjk : j = k <;> simp [hjk]
  simp only [touch, drop, hpresent]

structure Listed (r : Recency K) (order : List K) : Prop where
  mem : ∀ k, k ∈ order ↔ k ∈ r.present
  sorted : order.Pairwise fun j k => r.touched k < r.touched j
  numbered : ∀ k ∈ order, r.touched k < r.tick

namespace Listed

variable {r : Recency K} {order : List K}

omit [DecidableEq K] in
theorem nodup (h : r.Listed order) : order.Nodup :=
  h.sorted.imp fun hlt heq => absurd (heq ▸ hlt) (Nat.lt_irrefl _)

theorem card (h : r.Listed order) : r.present.card = order.length := by
  rw [← toFinset_card_of_nodup h.nodup]
  refine congrArg _ (Finset.ext fun k => ?_)
  rw [mem_toFinset, h.mem]

omit [DecidableEq K] in
theorem empty : (Recency.empty : Recency K).Listed [] where
  mem k := by simp [Recency.empty]
  sorted := List.Pairwise.nil
  numbered _ hk := absurd hk not_mem_nil

theorem drop (h : r.Listed order) (k : K) : (r.drop k).Listed (order.erase k) where
  mem j := by
    rw [h.nodup.mem_erase_iff, h.mem, Recency.drop, Finset.mem_erase]
  sorted := h.sorted.sublist erase_sublist
  numbered j hj := h.numbered j (mem_of_mem_erase hj)

theorem touch (h : r.Listed order) (k : K) : (r.touch k).Listed (k :: order.erase k) where
  mem j := by
    rw [mem_cons, h.nodup.mem_erase_iff, h.mem, Recency.touch, Finset.mem_insert]
    constructor
    · exact Or.imp_right And.right
    intro hj
    by_cases hjk : j = k
    · exact .inl hjk
    · exact .inr ⟨hjk, hj.resolve_left hjk⟩
  sorted := by
    have hold : ∀ j ∈ order.erase k, (r.touch k).touched j = r.touched j := fun j hj =>
      update_of_ne (h.nodup.mem_erase_iff.mp hj).1 _ _
    refine pairwise_cons.mpr ⟨fun j hj => ?_, ?_⟩
    · rw [hold j hj]
      show _ < update r.touched k r.tick k
      rw [update_self]
      exact h.numbered j (mem_of_mem_erase hj)
    · refine (h.sorted.sublist erase_sublist).imp_of_mem fun {i j} hi hj hlt => ?_
      rw [hold i hi, hold j hj]
      exact hlt
  numbered j hj := by
    by_cases hjk : j = k
    · show update r.touched k r.tick j < r.tick + 1
      rw [hjk, update_self]
      exact Nat.lt_succ_self _
    show update r.touched k r.tick j < r.tick + 1
    rw [update_of_ne hjk]
    have hmem := mem_of_mem_erase ((mem_cons.mp hj).resolve_left hjk)
    exact Nat.lt_succ_of_lt (h.numbered j hmem)

omit [DecidableEq K] in
theorem touched_last_lt (h : r.Listed order) {k j : K} (hlast : order.getLast? = some k)
    (hj : j ∈ r.present) (hne : j ≠ k) : r.touched k < r.touched j := by
  obtain ⟨front, rfl⟩ := getLast?_eq_some_iff.mp hlast
  have hmem := (mem_append.mp ((h.mem j).mpr hj)).resolve_right fun hk =>
    hne (mem_singleton.mp hk)
  exact (pairwise_append.mp h.sorted).2.2 j hmem k (mem_singleton_self k)

theorem oldest_eq (h : r.Listed order) {k : K} (hlast : order.getLast? = some k) :
    r.oldest = {k} := by
  ext j
  rw [oldest, Finset.mem_filter, Finset.mem_singleton]
  have hk : k ∈ r.present := (h.mem k).mp (mem_of_getLast? hlast)
  constructor
  · rintro ⟨hj, hle⟩
    by_contra hne
    exact absurd (hle k hk) (Nat.not_le.mpr (h.touched_last_lt hlast hj hne))
  rintro rfl
  refine ⟨hk, fun i hi => ?_⟩
  by_cases hij : i = j
  · rw [hij]
  · exact (h.touched_last_lt hlast hi hij).le

variable {capacity : Nat}

theorem evict_eq_drop (h : r.Listed order) {k : K} (hlast : order.getLast? = some k)
    (hover : capacity < order.length) : r.evict capacity = r.drop k := by
  rw [evict, if_pos (h.card ▸ hover), h.oldest_eq hlast, Finset.sdiff_singleton_eq_erase]
  rfl

theorem evict_of_le (h : r.Listed order) (hfits : order.length ≤ capacity) :
    r.evict capacity = r := by
  rw [evict, if_neg (h.card ▸ Nat.not_lt.mpr hfits)]

theorem evict_touch (h : r.Listed order) (hfits : order.length ≤ capacity) {key k : K}
    (hk : k ∈ r.present) (hlost : k ∉ ((r.touch key).evict capacity).present) :
    (∀ j ∈ r.present, j ≠ k → r.touched k < r.touched j) ∧
      ∀ j, j ≠ key → (j ∈ ((r.touch key).evict capacity).present ↔ j ∈ r.present ∧ j ≠ k) := by
  have htouch := h.touch key
  have hkept : k ∈ (r.touch key).present := Finset.mem_insert_of_mem hk
  by_cases hover : capacity < (key :: order.erase key).length
  · -- the key was not there, or there would be room
    have hkey : key ∉ order := by
      intro hmem
      have hlen := length_erase_of_mem hmem
      have hpos := length_pos_of_mem hmem
      rw [length_cons] at hover
      omega
    rw [erase_of_not_mem hkey] at htouch hover
    obtain ⟨last, hlast⟩ : ∃ last, order.getLast? = some last :=
      ⟨_, getLast?_eq_some_getLast (ne_nil_of_mem ((h.mem k).mpr hk))⟩
    have hlast' : (key :: order).getLast? = some last := by
      rw [getLast?_cons, hlast]
      rfl
    rw [htouch.evict_eq_drop hlast' hover] at hlost ⊢
    have heq : k = last := by
      by_contra hkl
      exact hlost (Finset.mem_erase.mpr ⟨hkl, hkept⟩)
    subst heq
    refine ⟨fun j hj hjk => h.touched_last_lt hlast hj hjk, fun j hj => ?_⟩
    rw [Recency.drop, Finset.mem_erase, Recency.touch, Finset.mem_insert, or_iff_right hj, and_comm]
  · rw [htouch.evict_of_le (Nat.not_lt.mp hover)] at hlost
    exact absurd hkept hlost

end Listed

end Recency

end GoServices
