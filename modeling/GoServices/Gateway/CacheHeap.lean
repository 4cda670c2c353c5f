/-
A shard of the cache as the program lays it out in memory.

The map holds pointers to entries, an entry points to its element of the recency list, and the
element points back to the entry.
-/
import GoServices.Base.LinkedList
import GoServices.Gateway.Cache

namespace GoServices.Gateway

open List Table LinkedList

structure HeapEntry (α : Type) where
  key : String
  value : α
  expiresAt : Int
  elem : Nat

/-- The entries by address, the next address, and the fields of `shard`. -/
structure HeapShard (α : Type) where
  heap : Table Nat (HeapEntry α)
  fresh : Nat
  items : Table String Nat
  order : LinkedList Nat
  capacity : Int

namespace HeapShard

variable {α : Type}

def empty (capacity : Int) : HeapShard α where
  heap := .empty
  fresh := 0
  items := .empty
  order := .empty
  capacity := capacity

/-- `e, ok := s.items[key]`, with the entry that `e` points to. -/
def entry (s : HeapShard α) (key : String) : Option (Nat × HeapEntry α) :=
  (s.items.get? key).bind fun p => (s.heap.get? p).map fun e => (p, e)

/-- `Get`, under the shard's lock. -/
def get (s : HeapShard α) (key : String) (now : Int) : HeapShard α × Option α :=
  match s.entry key with
  | none => (s, none)
  | some (_, e) =>
    if e.expiresAt < now then
      ({ s with order := s.order.remove e.elem, items := s.items.erase key }, none)
    else ({ s with order := s.order.moveToFront e.elem }, some e.value)

/-- The re-check of `GetOrLoad`. -/
def recheck (s : HeapShard α) (key : String) (now : Int) : Option (HeapShard α × α) :=
  match s.entry key with
  | none => none
  | some (_, e) =>
    if now < e.expiresAt then some ({ s with order := s.order.moveToFront e.elem }, e.value)
    else none

def evict (s : HeapShard α) : HeapShard α :=
  if 0 < s.capacity ∧ s.capacity < s.items.len then
    match s.order.back with
    | none => s
    | some (oldest, p) =>
      match s.heap.get? p with
      | none => s
      | some old => { s with order := s.order.remove oldest, items := s.items.erase old.key }
  else s

/-- What `Set` and `GetOrLoad` do with a new value. -/
def store (s : HeapShard α) (key : String) (value : α) (expiresAt : Int) : HeapShard α :=
  match s.entry key with
  | some (p, e) =>
    { s with
      heap := s.heap.set p { e with value := value, expiresAt := expiresAt }
      order := s.order.moveToFront e.elem }
  | none =>
    let (order, elem) := s.order.pushFront s.fresh
    { s with
      heap := s.heap.set s.fresh ⟨key, value, expiresAt, elem⟩
      fresh := s.fresh + 1
      items := s.items.set key s.fresh
      order := order }.evict

/-! ## Links -/

structure WellLinked (s : HeapShard α) : Prop where
  items : ∀ key p, s.items.get? key = some p →
    ∃ e, s.heap.get? p = some e ∧ e.key = key ∧ (e.elem, p) ∈ s.order.elements
  order : ∀ elem p, (elem, p) ∈ s.order.elements →
    ∃ e, s.heap.get? p = some e ∧ e.elem = elem ∧ s.items.get? e.key = some p
  allocated : ∀ p e, s.heap.get? p = some e → p < s.fresh

def keyAt (s : HeapShard α) (p : Nat) : String :=
  match s.heap.get? p with
  | none => ""
  | some e => e.key

def orderKeys (s : HeapShard α) : List String := s.order.values.map s.keyAt

variable {s : HeapShard α} {p : Nat}

theorem keyAt_eq {e : HeapEntry α} (h : s.heap.get? p = some e) :
    s.keyAt p = e.key := by
  simp [keyAt, h]

theorem mem_values :
    p ∈ s.order.values ↔ ∃ elem, (elem, p) ∈ s.order.elements := by
  simp [values]

theorem entry_eq_some {key : String} {e : HeapEntry α} :
    s.entry key = some (p, e) ↔ s.items.get? key = some p ∧ s.heap.get? p = some e := by
  rw [entry, Option.bind_eq_some_iff]
  constructor
  · rintro ⟨q, hq, hmap⟩
    obtain ⟨f, hf, heq⟩ := Option.map_eq_some_iff.mp hmap
    cases heq
    exact ⟨hq, hf⟩
  · rintro ⟨hp, he⟩
    exact ⟨p, hp, by rw [he]; rfl⟩

namespace WellLinked

variable {s : HeapShard α} (h : s.WellLinked)
include h

variable {key : String} {p : Nat} {e : HeapEntry α}

theorem of_item (hp : s.items.get? key = some p) (he : s.heap.get? p = some e) :
    e.key = key ∧ (e.elem, p) ∈ s.order.elements := by
  obtain ⟨e', he', hback⟩ := h.items key p hp
  cases he.symm.trans he'
  exact hback

variable {elem : Nat}

theorem of_element (hp : (elem, p) ∈ s.order.elements) (he : s.heap.get? p = some e) :
    e.elem = elem ∧ s.items.get? e.key = some p := by
  obtain ⟨e', he', hback⟩ := h.order elem p hp
  cases he.symm.trans he'
  exact hback

theorem entry_eq_none : s.entry key = none ↔ s.items.get? key = none := by
  rw [entry, Option.bind_eq_none_iff]
  constructor
  · intro hnone
    rw [Option.eq_none_iff_forall_ne_some]
    intro p hp
    obtain ⟨e, he, -, -⟩ := h.items key p hp
    have hmap := hnone p hp
    rw [he] at hmap
    cases hmap
  · intro hnone p hp
    rw [hnone] at hp
    cases hp

theorem keyAt_mem (hp : p ∈ s.order.values) : s.items.get? (s.keyAt p) = some p := by
  obtain ⟨elem, helem⟩ := mem_values.mp hp
  obtain ⟨e, he, -, hitem⟩ := h.order elem p helem
  rw [keyAt_eq he]
  exact hitem

theorem keyAt_inj {q : Nat} (hp : p ∈ s.order.values) (hq : q ∈ s.order.values)
    (heq : s.keyAt p = s.keyAt q) : p = q := by
  have hp' := h.keyAt_mem hp
  rw [heq, h.keyAt_mem hq] at hp'
  exact (Option.some.inj hp').symm

theorem values_nodup : s.order.values.Nodup := by
  refine Nodup.map_on ?_ (Nodup.of_map _ s.order.handles_nodup)
  rintro ⟨elem, p⟩ hx ⟨elem', q⟩ hy heq
  cases heq
  obtain ⟨e, he, rfl, -⟩ := h.order elem p hx
  obtain ⟨rfl, -⟩ := h.of_element hy he
  rfl

theorem orderKeys_nodup : s.orderKeys.Nodup :=
  Nodup.map_on (fun _ hp _ hq heq => h.keyAt_inj hp hq heq) h.values_nodup

theorem mem_orderKeys : key ∈ s.orderKeys ↔ key ∈ s.items.keys := by
  rw [orderKeys, mem_map, Table.mem_keys]
  constructor
  · rintro ⟨p, hp, rfl⟩
    exact ⟨p, h.keyAt_mem hp⟩
  rintro ⟨p, hp⟩
  obtain ⟨e, he, rfl, hmem⟩ := h.items key p hp
  exact ⟨p, mem_values.mpr ⟨e.elem, hmem⟩, keyAt_eq he⟩

theorem map_keyAt_filter (hp : p ∈ s.order.values) :
    (s.order.values.filter fun q => q ≠ p).map s.keyAt = s.orderKeys.erase (s.keyAt p) := by
  rw [h.orderKeys_nodup.erase_eq_filter, orderKeys, filter_map]
  refine congrArg _ (filter_congr fun q hq => ?_)
  simp only [Function.comp_apply, ne_eq, decide_not, Bool.not_eq_eq_eq_not, bne, Bool.not_not]
  rw [Bool.eq_iff_iff]
  simp only [decide_eq_true_eq, beq_iff_eq]
  exact ⟨fun heq => heq ▸ rfl, fun heq => h.keyAt_inj hq hp heq⟩

/-! ### The links after each change of the memory -/

section
variable (hp : (elem, p) ∈ s.order.elements)
include hp

theorem moveToFront :
    { s with order := s.order.moveToFront elem }.WellLinked where
  items key q hq := by
    obtain ⟨e, he, hkey, hmem⟩ := h.items key q hq
    exact ⟨e, he, hkey, (mem_moveToFront hp).mpr hmem⟩
  order elem' q hq := h.order elem' q ((mem_moveToFront hp).mp hq)
  allocated := h.allocated

theorem orderKeys_moveToFront :
    { s with order := s.order.moveToFront elem }.orderKeys =
      s.keyAt p :: s.orderKeys.erase (s.keyAt p) := by
  rw [← h.map_keyAt_filter (mem_values.mpr ⟨elem, hp⟩)]
  show (s.order.moveToFront elem).values.map s.keyAt = _
  rw [values_moveToFront hp h.values_nodup]
  rfl

theorem remove :
    { s with order := s.order.remove elem, items := s.items.erase (s.keyAt p) }.WellLinked where
  items key q hq := by
    rw [get?_erase] at hq
    split at hq
    · cases hq
    rename_i hkey
    obtain ⟨e, he, rfl, hmem⟩ := h.items key q hq
    refine ⟨e, he, rfl, mem_remove.mpr ⟨hmem, fun helem => hkey ?_⟩⟩
    -- an element belongs to one entry
    replace helem : e.elem = elem := helem
    rw [helem] at hmem
    rw [← eq_of_handle hmem hp, keyAt_eq he]
  order elem' q hq := by
    obtain ⟨hmem, hne⟩ := mem_remove.mp hq
    obtain ⟨e, he, rfl, hitem⟩ := h.order elem' q hmem
    refine ⟨e, he, rfl, ?_⟩
    rw [get?_erase, if_neg, hitem]
    intro hkey
    have hq' : q = p := h.keyAt_inj (mem_values.mpr ⟨_, hmem⟩) (mem_values.mpr ⟨_, hp⟩)
      ((keyAt_eq he).trans hkey)
    subst hq'
    exact hne (h.of_element hp he).1
  allocated := h.allocated

theorem orderKeys_remove (items : Table String Nat) :
    { s with order := s.order.remove elem, items := items }.orderKeys =
      s.orderKeys.erase (s.keyAt p) := by
  rw [← h.map_keyAt_filter (mem_values.mpr ⟨elem, hp⟩)]
  show (s.order.remove elem).values.map s.keyAt = _
  rw [values_remove hp h.values_nodup]

end

theorem overwrite (he : s.heap.get? p = some e) (value : α) (expiresAt : Int) :
    { s with heap := s.heap.set p { e with value, expiresAt } }.WellLinked where
  items key q hq := by
    by_cases hqp : q = p
    · subst hqp
      have hback := h.of_item hq he
      exact ⟨_, get?_set_self _ _ _, hback⟩
    · obtain ⟨f, hf, hback⟩ := h.items key q hq
      exact ⟨f, by rw [get?_set, if_neg hqp, hf], hback⟩
  order elem q hq := by
    by_cases hqp : q = p
    · subst hqp
      have hback := h.of_element hq he
      exact ⟨_, get?_set_self _ _ _, hback⟩
    · obtain ⟨f, hf, hback⟩ := h.order elem q hq
      exact ⟨f, by rw [get?_set, if_neg hqp, hf], hback⟩
  allocated q f hf := by
    rcases set_cases hf with ⟨rfl, -⟩ | ⟨-, hf⟩
    · exact h.allocated q e he
    · exact h.allocated q f hf

omit h in
theorem keyAt_overwrite (he : s.heap.get? p = some e) (value : α) (expiresAt : Int) (q : Nat) :
    { s with heap := s.heap.set p { e with value, expiresAt } }.keyAt q = s.keyAt q := by
  by_cases hqp : q = p
  · subst hqp
    simp only [keyAt, he, get?_set_self]
  · simp only [keyAt, get?_set, if_neg hqp]

theorem insert (hkey : s.items.get? key = none) (value : α) (expiresAt : Int) :
    { s with
      heap := s.heap.set s.fresh ⟨key, value, expiresAt, (s.order.pushFront s.fresh).2⟩
      fresh := s.fresh + 1
      items := s.items.set key s.fresh
      order := (s.order.pushFront s.fresh).1 }.WellLinked where
  items key' q hq := by
    rcases set_cases hq with ⟨rfl, rfl⟩ | ⟨-, hq⟩
    · exact ⟨_, get?_set_self _ _ _, rfl, mem_cons_self⟩
    obtain ⟨e, he, hk, hmem⟩ := h.items key' q hq
    have hlt := h.allocated q e he
    exact ⟨e, by rw [get?_set, if_neg hlt.ne, he], hk, mem_cons_of_mem _ hmem⟩
  order elem q hq := by
    rcases mem_cons.mp hq with heq | hmem
    · cases heq
      exact ⟨_, get?_set_self _ _ _, rfl, get?_set_self _ _ _⟩
    obtain ⟨e, he, helem, hitem⟩ := h.order elem q hmem
    have hlt := h.allocated q e he
    refine ⟨e, by rw [get?_set, if_neg hlt.ne, he], helem, ?_⟩
    rw [get?_set, if_neg, hitem]
    rintro rfl
    rw [hkey] at hitem
    cases hitem
  allocated q f hf := by
    rcases set_cases hf with ⟨rfl, -⟩ | ⟨-, hf⟩
    · exact Nat.lt_succ_self _
    · exact Nat.lt_succ_of_lt (h.allocated q f hf)

theorem map_keyAt_insert (e : HeapEntry α) (fresh : Nat) (items : Table String Nat)
    (order : LinkedList Nat) :
    s.order.values.map (HeapShard.keyAt
      { s with heap := s.heap.set s.fresh e, fresh := fresh, items := items, order := order }) =
      s.orderKeys := by
  refine map_congr_left fun q hq => ?_
  obtain ⟨elem, hmem⟩ := mem_values.mp hq
  obtain ⟨f, hf, -, -⟩ := h.order elem q hmem
  simp only [keyAt, get?_set, if_neg (h.allocated q f hf).ne]

end WellLinked

/-! ## Without the pointers -/

structure Erases (h : HeapShard α) (s : Shard α) : Prop where
  linked : h.WellLinked
  capacity : s.capacity = h.capacity
  items : ∀ key, s.items.get? key =
    (h.entry key).map fun pe => { value := pe.2.value, expiresAt := pe.2.expiresAt }
  order : s.order = h.orderKeys

section
variable {h : HeapShard α} {s : Shard α}

theorem empty_erases (capacity : Int) : (empty capacity : HeapShard α).Erases (.empty capacity)
    where
  linked := {
    items := nofun
    order := nofun
    allocated := nofun }
  capacity := rfl
  items := fun _ => rfl
  order := rfl

theorem Erases.len (hs : h.Erases s) : s.items.len = h.items.len := by
  refine le_antisymm (len_le_of_get? fun key e he => ?_)
    (len_le_of_get? fun key p hp => ?_)
  · rw [hs.items] at he
    obtain ⟨⟨p, e'⟩, hentry, -⟩ := Option.map_eq_some_iff.mp he
    exact ⟨p, (entry_eq_some.mp hentry).1⟩
  obtain ⟨e, he, -, -⟩ := hs.linked.items key p hp
  rw [hs.items, entry_eq_some.mpr ⟨hp, he⟩]
  exact ⟨_, rfl⟩

variable {p : Nat} {e : HeapEntry α}

theorem Erases.moveToFront (hs : h.Erases s) {key : String} (hentry : h.entry key = some (p, e)) :
    { h with order := h.order.moveToFront e.elem }.Erases (s.touch key) := by
  obtain ⟨hp, he⟩ := entry_eq_some.mp hentry
  obtain ⟨hkey, hmem⟩ := hs.linked.of_item hp he
  refine ⟨hs.linked.moveToFront hmem, hs.capacity, hs.items, ?_⟩
  rw [hs.linked.orderKeys_moveToFront hmem, keyAt_eq he, hkey, ← hs.order]
  rfl

theorem entry_erase (h : HeapShard α) (order : LinkedList Nat) (key k : String) :
    { h with order := order, items := h.items.erase key }.entry k =
      if k = key then none else h.entry k := by
  simp only [entry, get?_erase]
  split
  · rfl
  · rfl

theorem Erases.remove (hs : h.Erases s) {elem : Nat} (hmem : (elem, p) ∈ h.order.elements)
    (he : h.heap.get? p = some e) :
    { h with order := h.order.remove elem, items := h.items.erase e.key }.Erases
      (s.remove e.key) := by
  have hlinked := hs.linked.remove hmem
  rw [keyAt_eq he] at hlinked
  refine ⟨hlinked, hs.capacity, fun key => ?_, ?_⟩
  · rw [entry_erase, Shard.remove, get?_erase, hs.items]
    split
    · rfl
    · rfl
  · rw [hs.linked.orderKeys_remove hmem, keyAt_eq he, ← hs.order]
    rfl

theorem entry_overwrite (hlinked : h.WellLinked) {key : String} {e' : HeapEntry α}
    (hentry : h.entry key = some (p, e)) (order : LinkedList Nat) (k : String) :
    { h with heap := h.heap.set p e', order := order }.entry k =
      if k = key then some (p, e') else h.entry k := by
  obtain ⟨hp, he⟩ := entry_eq_some.mp hentry
  by_cases hk : k = key
  · rw [if_pos hk, hk]
    exact entry_eq_some.mpr ⟨hp, get?_set_self _ _ _⟩
  rw [if_neg hk]
  refine Option.bind_congr fun q hq => ?_
  rw [get?_set, if_neg]
  rintro rfl
  exact hk ((hlinked.of_item hq he).1.symm.trans (hlinked.of_item hp he).1)

theorem entry_insert (hlinked : h.WellLinked) (e : HeapEntry α) (fresh : Nat)
    (order : LinkedList Nat) (key k : String) :
    { h with
      heap := h.heap.set h.fresh e
      fresh := fresh
      items := h.items.set key h.fresh
      order := order }.entry k = if k = key then some (h.fresh, e) else h.entry k := by
  by_cases hk : k = key
  · rw [if_pos hk, hk]
    exact entry_eq_some.mpr ⟨get?_set_self _ _ _, get?_set_self _ _ _⟩
  simp only [entry, get?_set h.items, if_neg hk]
  refine Option.bind_congr fun q hq => ?_
  obtain ⟨f, hf, -, -⟩ := hlinked.items k q hq
  rw [get?_set, if_neg (hlinked.allocated q f hf).ne]

section
variable (hs : h.Erases s)
include hs

theorem Erases.get (key : String) (now : Int) :
    (h.get key now).1.Erases (s.get key now).1 ∧ (h.get key now).2 = (s.get key now).2 := by
  have hread := hs.items key
  unfold HeapShard.get Shard.get
  cases hentry : h.entry key with
  | none =>
    rw [hentry] at hread
    simp only [hread, Option.map_none]
    exact ⟨hs, trivial⟩
  | some pe =>
    obtain ⟨p, e⟩ := pe
    obtain ⟨hp, he⟩ := entry_eq_some.mp hentry
    obtain ⟨hkey, hmem⟩ := hs.linked.of_item hp he
    rw [hentry] at hread
    simp only [hread, Option.map_some]
    by_cases hexpired : e.expiresAt < now
    · simp only [if_pos hexpired]
      exact ⟨hkey ▸ hs.remove hmem he, trivial⟩
    · simp only [if_neg hexpired]
      exact ⟨hs.moveToFront hentry, trivial⟩

theorem Erases.recheck (key : String) (now : Int) :
    (h.recheck key now = none ∧ s.recheck key now = none) ∨
      ∃ h' s' v, h.recheck key now = some (h', v) ∧ s.recheck key now = some (s', v) ∧
        h'.Erases s' := by
  have hread := hs.items key
  unfold HeapShard.recheck Shard.recheck
  cases hentry : h.entry key with
  | none =>
    rw [hentry] at hread
    simp only [hread, Option.map_none]
    exact .inl ⟨trivial, trivial⟩
  | some pe =>
    obtain ⟨p, e⟩ := pe
    rw [hentry] at hread
    simp only [hread, Option.map_some]
    by_cases hlive : now < e.expiresAt
    · simp only [if_pos hlive]
      exact .inr ⟨_, _, _, rfl, rfl, hs.moveToFront hentry⟩
    · simp only [if_neg hlive]
      exact .inl ⟨trivial, trivial⟩

theorem Erases.evict : h.evict.Erases s.evict := by
  unfold HeapShard.evict Shard.evict
  rw [hs.capacity, hs.len]
  split
  · have hlast : s.order.getLast? = h.order.back.map fun x => h.keyAt x.2 := by
      rw [hs.order, orderKeys, values, map_map, getLast?_map]
      rfl
    cases hback : h.order.back with
    | none =>
      rw [hback] at hlast
      simp only [hlast, Option.map_none]
      exact hs
    | some x =>
      obtain ⟨elem, p⟩ := x
      have hmem : (elem, p) ∈ h.order.elements := mem_of_getLast? hback
      obtain ⟨e, he, -, -⟩ := hs.linked.order elem p hmem
      rw [hback] at hlast
      simp only [hlast, Option.map_some, he, keyAt_eq he]
      exact hs.remove hmem he
  · exact hs

theorem Erases.store (key : String) (value : α) (expiresAt : Int) :
    (h.store key value expiresAt).Erases (s.store key value expiresAt) := by
  have hread := hs.items key
  unfold HeapShard.store Shard.store
  cases hentry : h.entry key with
  | some pe =>
    obtain ⟨p, e⟩ := pe
    obtain ⟨hp, he⟩ := entry_eq_some.mp hentry
    have hmoved := hs.moveToFront hentry
    rw [hentry] at hread
    simp only [hread, Option.map_some]
    refine ⟨hmoved.linked.overwrite he value expiresAt, hs.capacity, fun k => ?_, ?_⟩
    · rw [get?_set, hs.items, entry_overwrite hs.linked hentry]
      split
      · rfl
      · rfl
    · refine hmoved.order.trans (map_congr_left fun q _ => ?_)
      exact (WellLinked.keyAt_overwrite he value expiresAt q).symm
  | none =>
    have hkey := hs.linked.entry_eq_none.mp hentry
    rw [hentry] at hread
    simp only [hread, Option.map_none]
    refine Erases.evict ⟨hs.linked.insert hkey value expiresAt, hs.capacity, fun k => ?_, ?_⟩
    · rw [get?_set, hs.items, entry_insert hs.linked]
      split
      · rfl
      · rfl
    · show key :: s.order = HeapShard.keyAt _ h.fresh :: h.order.values.map (HeapShard.keyAt _)
      rw [keyAt_eq (get?_set_self _ _ _), hs.linked.map_keyAt_insert, hs.order]

end

end

end HeapShard

end GoServices.Gateway
