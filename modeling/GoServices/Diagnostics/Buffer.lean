/-
The ring buffer of diagnostic events.

Slot `j % capacity` holds the `j`-th event added, for the last `capacity` of them.
-/
import Mathlib.Tactic

namespace GoServices.Diagnostics

open List

/-- `Event`; the zero time is 0. -/
structure Event where
  time : Int
  level : String
  message : String
  fields : List (String × String)

structure EventBuffer where
  events : List Event
  next : Nat
  count : Nat

namespace EventBuffer

/-- `NewEventBuffer`, which panics on a capacity that is not positive. -/
def new (capacity : Nat) : EventBuffer := ⟨List.replicate capacity ⟨0, "", "", []⟩, 0, 0⟩

/-- The event that `Add` stores when the clock shows `now`. -/
def stamp (now : Int) (e : Event) : Event := if e.time = 0 then { e with time := now } else e

variable (b : EventBuffer)

def add (now : Int) (e : Event) : EventBuffer where
  events := b.events.set b.next (stamp now e)
  next := (b.next + 1) % b.events.length
  count := if b.count < b.events.length then b.count + 1 else b.count

/-- The loop of `Recent`. -/
def read (start limit : Nat) : List Event :=
  (List.range limit).filterMap fun i => b.events[(start + i) % b.events.length]?

def recent (limit : Int) : List Event :=
  if limit ≤ 0 ∨ b.count = 0 then []
  else
    let limit := min limit.toNat b.count
    b.read ((b.next + b.events.length - limit) % b.events.length) limit

def addAll (adds : List (Int × Event)) : EventBuffer :=
  adds.foldl (fun b a => b.add a.1 a.2) b

/-- The buffer after these events were added. -/
structure Holds (capacity : Nat) (b : EventBuffer) (added : List Event) : Prop where
  length : b.events.length = capacity
  next : b.next = added.length % capacity
  count : b.count = min added.length capacity
  slots : ∀ j < added.length, added.length ≤ j + capacity → b.events[j % capacity]? = added[j]?

section
variable {capacity : Nat} {b : EventBuffer} {added : List Event}

theorem holds_new (capacity : Nat) : Holds capacity (new capacity) [] :=
  ⟨length_replicate, (Nat.zero_mod _).symm, (Nat.zero_min _).symm, nofun⟩

variable {n limit : Nat}

/-- Two events of the last `capacity` are not in one slot. -/
theorem mod_ne {j : Nat} (hj : j < n) (hnear : n < j + capacity) :
    j % capacity ≠ n % capacity := by
  intro h
  have hdvd : capacity ∣ n - j := (Nat.modEq_iff_dvd' hj.le).mp h
  have hle := Nat.le_of_dvd (by omega) hdvd
  omega

theorem Holds.add (h : Holds capacity b added) (hcapacity : 0 < capacity) (now : Int) (e : Event) :
    Holds capacity (b.add now e) (added ++ [stamp now e]) := by
  have hnext : b.next < b.events.length := by
    rw [h.next, h.length]
    exact Nat.mod_lt _ hcapacity
  constructor
  · simp [EventBuffer.add, h.length]
  · simp [EventBuffer.add, h.length, h.next]
  · simp only [EventBuffer.add, h.length, h.count, length_append, length_singleton]
    split <;> omega
  intro j hj hnear
  simp only [length_append, length_singleton] at hj hnear
  simp only [EventBuffer.add, h.next]
  by_cases hlast : j = added.length
  · subst hlast
    rw [h.next] at hnext
    simp [hnext]
  · have hne : j % capacity ≠ added.length % capacity := mod_ne (by omega) (by omega)
    rw [getElem?_set_ne hne.symm, h.slots j (by omega) (by omega), getElem?_append_left (by omega)]

theorem holds_addAll (hcapacity : 0 < capacity) (h : Holds capacity b added)
    (adds : List (Int × Event)) :
    Holds capacity (b.addAll adds) (added ++ adds.map fun a => stamp a.1 a.2) := by
  induction adds generalizing b added with
  | nil => simpa [addAll] using h
  | cons a adds ih =>
    have hrest := ih (h.add hcapacity a.1 a.2)
    rw [append_assoc] at hrest
    exact hrest

/-- The slot at which `Recent` starts is that of the first event it returns. -/
theorem start_mod (hn : limit ≤ n) (hcapacity : limit ≤ capacity) (i : Nat) :
    ((n % capacity + capacity - limit) % capacity + i) % capacity = (n - limit + i) % capacity := by
  rw [Nat.mod_add_mod, Nat.add_sub_assoc hcapacity, Nat.add_assoc, Nat.mod_add_mod,
    show n + (capacity - limit + i) = n - limit + i + capacity by omega, Nat.add_mod_right]

theorem filterMap_range {l : List Event} (hlength : l.length = n) :
    (List.range n).filterMap (fun i => l[i]?) = l := by
  subst hlength
  induction l with
  | nil => rfl
  | cons e l ih => simpa [range_succ_eq_map, filterMap_map, Function.comp_def] using ih

theorem Holds.read (h : Holds capacity b added) (hlimit : limit ≤ b.count) :
    b.read ((b.next + b.events.length - limit) % b.events.length) limit =
      added.drop (added.length - limit) := by
  have hcount := h.count
  have hread : ∀ i ∈ range limit, b.events[((b.next + b.events.length - limit) %
      b.events.length + i) % b.events.length]? = (added.drop (added.length - limit))[i]? := by
    intro i hi
    rw [mem_range] at hi
    rw [h.length, h.next, start_mod (by omega) (by omega), h.slots _ (by omega) (by omega),
      getElem?_drop]
  have hlength : (added.drop (added.length - limit)).length = limit := by
    rw [length_drop]
    omega
  rw [EventBuffer.read, filterMap_congr hread]
  exact filterMap_range hlength

end

/-- `Recent` returns the last events that were added, in their order. -/
theorem recent_last {capacity : Nat} (hcapacity : 0 < capacity) (adds : List (Int × Event))
    (limit : Int) :
    ((new capacity).addAll adds).recent limit = (adds.map fun a => stamp a.1 a.2).drop
        (adds.length - min limit.toNat (min adds.length capacity)) := by
  have h := holds_addAll hcapacity (holds_new capacity) adds
  rw [nil_append] at h
  have hcount := h.count
  rw [length_map] at hcount
  rw [recent]
  split
  · rw [drop_of_length_le]
    rw [length_map]
    omega
  · rw [h.read (Nat.min_le_right _ _), length_map, hcount]

theorem recent_last_two :
    ((new 2).addAll [(5, ⟨0, "INFO", "a", []⟩), (6, ⟨3, "INFO", "b", []⟩),
        (7, ⟨0, "WARN", "c", []⟩)]).recent 9 =
      [⟨3, "INFO", "b", []⟩, ⟨7, "WARN", "c", []⟩] :=
  recent_last (by decide) _ 9

end EventBuffer
end GoServices.Diagnostics
