/-
A shard of the cache is a map with a capacity and a time to live that drops the key used
least recently.

`LruMap` is that map, written for what it does: the present keys with the number of their last
use, and the latest store of every key.
-/
import GoServices.Base.Recency
import GoServices.Base.Run
import GoServices.Gateway.CacheHeap

namespace GoServices.Gateway

open List Table Function Finset

structure Stored (α : Type) where
  value : α
  since : Int
  storedAt : Int

/-- `latest` remembers stores of keys that are gone. -/
structure LruMap (α : Type) where
  recency : Recency String
  latest : String → Option (Stored α)

variable {α ε : Type}

namespace LruMap

def empty : LruMap α := ⟨.empty, fun _ => none⟩

def get (m : LruMap α) (ttl : Int) (key : String) (now : Int) : LruMap α × Option α :=
  if key ∈ m.recency.present then
    match m.latest key with
    | none => (m, none)
    | some stored =>
      if stored.since + ttl < now then ({ m with recency := m.recency.drop key }, none)
      else ({ m with recency := m.recency.touch key }, some stored.value)
  else (m, none)

def put (m : LruMap α) (capacity : Nat) (key : String) (stored : Stored α) : LruMap α where
  recency := (m.recency.touch key).evict capacity
  latest := update m.latest key (some stored)

end LruMap

/-! ## The shard without pointers -/

namespace Shard

structure Follows (ttl : Int) (s : Shard α) (m : LruMap α) : Prop where
  listed : m.recency.Listed s.order
  items : ∀ key, key ∈ m.recency.present → ∃ stored, m.latest key = some stored ∧
    s.items.get? key = some ⟨stored.value, stored.since + ttl⟩
  absent : ∀ key, key ∉ m.recency.present → s.items.get? key = none
  stores : ∀ key stored, m.latest key = some stored → stored.since ≤ stored.storedAt

section
variable {ttl : Int} {s : Shard α} {m : LruMap α}

theorem empty_follows (capacity ttl : Int) : (Shard.empty capacity : Shard α).Follows ttl .empty
    where
  listed := .empty
  items _ hkey := absurd hkey (notMem_empty _)
  absent _ _ := rfl
  stores := nofun

section
variable (h : s.Follows ttl m)
include h

variable (key : String)

theorem Follows.mem_order : key ∈ s.order ↔ ∃ e, s.items.get? key = some e := by
  rw [h.listed.mem]
  constructor
  · intro hkey
    obtain ⟨stored, -, hitem⟩ := h.items key hkey
    exact ⟨_, hitem⟩
  rintro ⟨e, he⟩
  by_contra hkey
  rw [h.absent key hkey] at he
  cases he

theorem Follows.len : s.items.len = s.order.length := len_eq_length h.listed.nodup h.mem_order

theorem Follows.touch {key : String} (hkey : key ∈ m.recency.present) :
    (s.touch key).Follows ttl { m with recency := m.recency.touch key } where
  listed := h.listed.touch key
  items k hk := h.items k (by rwa [Recency.touch, insert_eq_of_mem hkey] at hk)
  absent k hk := h.absent k (by rwa [Recency.touch, insert_eq_of_mem hkey] at hk)
  stores := h.stores

theorem Follows.remove :
    (s.remove key).Follows ttl { m with recency := m.recency.drop key } where
  listed := h.listed.drop key
  items k hk := by
    obtain ⟨hne, hk⟩ := mem_erase.mp hk
    rw [Shard.remove, get?_erase, if_neg hne]
    exact h.items k hk
  absent k hk := by
    rw [Shard.remove, get?_erase]
    split
    · rfl
    · rename_i hne
      exact h.absent k fun hmem => hk (mem_erase.mpr ⟨hne, hmem⟩)
  stores := h.stores

theorem Follows.get (now : Int) :
    (s.get key now).1.Follows ttl (m.get ttl key now).1 ∧
      (s.get key now).2 = (m.get ttl key now).2 := by
  unfold Shard.get LruMap.get
  by_cases hkey : key ∈ m.recency.present
  · obtain ⟨stored, hlatest, hitem⟩ := h.items key hkey
    rw [if_pos hkey]
    simp only [hlatest, hitem]
    by_cases hexpired : stored.since + ttl < now
    · simp only [if_pos hexpired]
      exact ⟨h.remove key, trivial⟩
    · simp only [if_neg hexpired]
      exact ⟨h.touch hkey, trivial⟩
  · rw [if_neg hkey]
    simp only [h.absent key hkey]
    exact ⟨h, trivial⟩

theorem Follows.set {stored : Stored α} (htime : stored.since ≤ stored.storedAt)
    (order : List String) (horder : order = key :: s.order.erase key) :
    Follows ttl { s with
        items := s.items.set key ⟨stored.value, stored.since + ttl⟩
        order := order }
      ⟨m.recency.touch key, update m.latest key (some stored)⟩ where
  listed := horder ▸ h.listed.touch key
  items k hk := by
    by_cases hkey : k = key
    · rw [hkey]
      exact ⟨stored, update_self _ _ _, get?_set_self _ _ _⟩
    rw [get?_set, if_neg hkey]
    show ∃ st, update m.latest key (some stored) k = some st ∧ _
    rw [update_of_ne hkey]
    exact h.items k ((mem_insert.mp hk).resolve_left hkey)
  absent k hk := by
    have hkey : k ≠ key := fun heq => hk (heq ▸ mem_insert_self _ _)
    rw [get?_set, if_neg hkey]
    exact h.absent k fun hmem => hk (mem_insert_of_mem hmem)
  stores k st hst := by
    by_cases hkey : k = key
    · rw [hkey] at hst
      change update m.latest key (some stored) key = some st at hst
      rw [update_self] at hst
      cases hst
      exact htime
    · change update m.latest key (some stored) k = some st at hst
      rw [update_of_ne hkey] at hst
      exact h.stores k st hst

end

structure Tracks (capacity ttl : Int) (s : Shard α) (m : LruMap α) : Prop where
  follows : s.Follows ttl m
  capacity_eq : s.capacity = capacity
  fits : (s.order.length : Int) ≤ capacity

variable {capacity : Int}

theorem Tracks.get (h : s.Tracks capacity ttl m) (key : String) (now : Int) :
    (s.get key now).1.Tracks capacity ttl (m.get ttl key now).1 ∧
      (s.get key now).2 = (m.get ttl key now).2 := by
  obtain ⟨hfollows, hanswer⟩ := h.follows.get key now
  refine ⟨⟨hfollows, ?_, ?_⟩, hanswer⟩
  · rw [← h.capacity_eq]
    unfold Shard.get
    split
    · rfl
    · split <;> rfl
  have hfits := h.fits
  have hmem := h.follows.mem_order key
  have herase : (s.order.erase key).length ≤ s.order.length := length_erase_le
  unfold Shard.get
  split
  · exact h.fits
  rename_i e he
  split
  · show ((s.order.erase key).length : Int) ≤ capacity
    omega
  have hlen := length_erase_of_mem (hmem.mpr ⟨e, he⟩)
  have hpos := length_pos_of_mem (hmem.mpr ⟨e, he⟩)
  show ((key :: s.order.erase key).length : Int) ≤ capacity
  rw [length_cons]
  omega

theorem Follows.evict (h : s.Follows ttl m) (hpos : 0 < s.capacity)
    (hfits : (s.order.length : Int) ≤ s.capacity + 1) :
    s.evict.Tracks s.capacity ttl { m with recency := m.recency.evict s.capacity.toNat } := by
  unfold Shard.evict
  rw [h.len]
  by_cases hover : s.capacity < s.order.length
  · rw [if_pos ⟨hpos, hover⟩]
    cases hlast : s.order.getLast? with
    | none =>
      rw [getLast?_eq_none_iff.mp hlast] at hover
      exact absurd hover (by simpa using hpos.le)
    | some oldest =>
      have hlen := length_erase_of_mem (mem_of_getLast? hlast)
      rw [h.listed.evict_eq_drop hlast (by omega)]
      refine ⟨h.remove oldest, rfl, ?_⟩
      show ((s.order.erase oldest).length : Int) ≤ s.capacity
      omega
  · rw [if_neg fun hboth => hover hboth.2, h.listed.evict_of_le (by omega)]
    exact ⟨h, rfl, not_lt.mp hover⟩

theorem Tracks.store (h : s.Tracks capacity ttl m) (hpos : 0 < capacity) (key : String)
    {stored : Stored α} (htime : stored.since ≤ stored.storedAt) :
    (s.store key stored.value (stored.since + ttl)).Tracks capacity ttl
      (m.put capacity.toNat key stored) := by
  obtain ⟨hfollows, rfl, hfits⟩ := h
  unfold Shard.store
  cases hitem : s.items.get? key with
  | some e =>
    have hmem : key ∈ s.order := (hfollows.mem_order key).mpr ⟨e, hitem⟩
    have hlen := length_erase_of_mem hmem
    have hset := hfollows.set key htime _ rfl
    have hbound : (key :: s.order.erase key).length ≤ s.capacity.toNat := by
      rw [length_cons]
      omega
    refine ⟨?_, rfl, ?_⟩
    · rw [LruMap.put, hset.listed.evict_of_le hbound]
      exact hset
    · show ((key :: s.order.erase key).length : Int) ≤ s.capacity
      omega
  | none =>
    have hmem : key ∉ s.order := fun hkey => by
      obtain ⟨e, he⟩ := (hfollows.mem_order key).mp hkey
      rw [hitem] at he
      cases he
    have hset := hfollows.set key htime (key :: s.order) (by rw [erase_of_not_mem hmem])
    refine hset.evict hpos ?_
    show ((key :: s.order).length : Int) ≤ s.capacity + 1
    rw [length_cons]
    omega

theorem get_miss {key : String} {now : Int} (hmiss : (s.get key now).2 = none) :
    (s.get key now).1.items.get? key = none := by
  unfold Shard.get at hmiss ⊢
  split at hmiss
  · rename_i hnone
    exact hnone
  split at hmiss <;> try cases hmiss
  rename_i hexpired
  rw [if_pos hexpired, Shard.remove, get?_erase, if_pos rfl]

end

end Shard

/-! ## Calls -/

/-- The calls on one shard, with the times the clock shows them and what a load returns.
`GetOrLoad` reads the clock in its `Get` and in its re-check; `loaded` is when the load is
over. -/
inductive CacheCall (ε α : Type) where
  | get (key : String) (now : Int)
  | set (key : String) (value : α) (now : Int)
  | getOrLoad (key : String) (now rechecked loaded : Int) (result : Except ε α)

inductive CacheAnswer (ε α : Type) where
  | got (value : Option α)
  | stored
  | loaded (result : Except ε α)

namespace CacheCall

def key : CacheCall ε α → String
  | .get key _ | .set key _ _ | .getOrLoad key _ _ _ _ => key

def starts : CacheCall ε α → Int
  | .get _ now | .set _ _ now | .getOrLoad _ now _ _ _ => now

def ends : CacheCall ε α → Int
  | .get _ now | .set _ _ now => now
  | .getOrLoad _ _ _ loaded _ => loaded

def Ordered : CacheCall ε α → Prop
  | .getOrLoad _ now rechecked loaded _ => now ≤ rechecked ∧ rechecked ≤ loaded
  | _ => True

instance : ∀ c : CacheCall ε α, Decidable c.Ordered := fun _ => by
  unfold Ordered
  split <;> infer_instance

end CacheCall

def HeapShard.call (ttl : Int) (s : HeapShard α) :
    CacheCall ε α → HeapShard α × CacheAnswer ε α
  | .get key now => ((s.get key now).1, .got (s.get key now).2)
  | .set key value now => (s.store key value (now + ttl), .stored)
  | .getOrLoad key now rechecked _ result =>
    let (s, hit) := s.get key now
    match hit with
    | some v => (s, .loaded (.ok v))
    | none =>
      match s.recheck key rechecked with
      | some (s, v) => (s, .loaded (.ok v))
      | none =>
        match result with
        | .error e => (s, .loaded (.error e))
        | .ok v => (s.store key v (rechecked + ttl), .loaded (.ok v))

def LruMap.call (capacity : Nat) (ttl : Int) (m : LruMap α) :
    CacheCall ε α → LruMap α × CacheAnswer ε α
  | .get key now => ((m.get ttl key now).1, .got (m.get ttl key now).2)
  | .set key value now => (m.put capacity key ⟨value, now, now⟩, .stored)
  | .getOrLoad key now rechecked loaded result =>
    let (m, hit) := m.get ttl key now
    match hit with
    | some v => (m, .loaded (.ok v))
    | none =>
      match result with
      | .error e => (m, .loaded (.error e))
      | .ok v => (m.put capacity key ⟨v, rechecked, loaded⟩, .loaded (.ok v))

def Refines (capacity ttl : Int) (h : HeapShard α) (m : LruMap α) : Prop :=
  ∃ s : Shard α, h.Erases s ∧ s.Tracks capacity ttl m

section
variable {capacity ttl : Int} {h : HeapShard α} {m : LruMap α}

theorem empty_refines (hpos : 0 < capacity) (ttl : Int) :
    Refines capacity ttl (.empty capacity : HeapShard α) .empty :=
  ⟨.empty capacity, HeapShard.empty_erases capacity, Shard.empty_follows capacity ttl, rfl, hpos.le⟩

section
variable (hr : Refines capacity ttl h m)
include hr

theorem Refines.get (key : String) (now : Int) :
    Refines capacity ttl (h.get key now).1 (m.get ttl key now).1 ∧
      (h.get key now).2 = (m.get ttl key now).2 := by
  obtain ⟨s, hs, hm⟩ := hr
  obtain ⟨hs', hanswer⟩ := hs.get key now
  obtain ⟨hm', hanswer'⟩ := hm.get key now
  exact ⟨⟨_, hs', hm'⟩, hanswer.trans hanswer'⟩

theorem Refines.store (hpos : 0 < capacity) (key : String) (stored : Stored α)
    (htime : stored.since ≤ stored.storedAt) :
    Refines capacity ttl (h.store key stored.value (stored.since + ttl))
      (m.put capacity.toNat key stored) := by
  obtain ⟨s, hs, hm⟩ := hr
  exact ⟨_, hs.store key stored.value (stored.since + ttl), hm.store hpos key htime⟩

theorem Refines.recheck_miss {key : String} {now : Int} (hmiss : (h.get key now).2 = none)
    (rechecked : Int) : (h.get key now).1.recheck key rechecked = none := by
  obtain ⟨s, hs, -⟩ := hr
  obtain ⟨hs', hanswer⟩ := hs.get key now
  rcases hs'.recheck key rechecked with ⟨hnone, -⟩ | ⟨h', s', v, -, hhit, -⟩
  · exact hnone
  have hgone := Shard.get_miss (hanswer ▸ hmiss)
  rw [Shard.recheck, hgone] at hhit
  cases hhit

theorem Refines.call (hpos : 0 < capacity) (c : CacheCall ε α) (hc : c.Ordered) :
    Refines capacity ttl (h.call ttl c).1 (m.call capacity.toNat ttl c).1 ∧
      (h.call ttl c).2 = (m.call capacity.toNat ttl c).2 := by
  cases c with
  | get key now =>
    obtain ⟨hget, hanswer⟩ := hr.get key now
    exact ⟨hget, congrArg _ hanswer⟩
  | set key value now => exact ⟨hr.store hpos key ⟨value, now, now⟩ le_rfl, rfl⟩
  | getOrLoad key now rechecked loaded result =>
    obtain ⟨hget, hanswer⟩ := hr.get key now
    cases hhit : (h.get key now).2 with
    | some v =>
      have hhit' := hanswer.symm.trans hhit
      simp only [HeapShard.call, LruMap.call, hhit, hhit']
      exact ⟨hget, trivial⟩
    | none =>
      have hhit' := hanswer.symm.trans hhit
      have hagain := hr.recheck_miss hhit rechecked
      simp only [HeapShard.call, LruMap.call, hhit, hhit', hagain]
      cases result with
      | error e => exact ⟨hget, rfl⟩
      | ok v => exact ⟨hget.store hpos key ⟨v, rechecked, loaded⟩ hc.2, rfl⟩

end

theorem LruMap.call_recency (m : LruMap α) (capacity : Nat) (ttl : Int) (c : CacheCall ε α) :
    (m.call capacity ttl c).1.recency = m.recency ∨
    (m.call capacity ttl c).1.recency = m.recency.drop c.key ∨
    (m.call capacity ttl c).1.recency = m.recency.touch c.key ∨
    (m.call capacity ttl c).1.recency = (m.recency.touch c.key).evict capacity := by
  have hget : ∀ key now, (m.get ttl key now).1.recency = m.recency ∨
      (m.get ttl key now).1.recency = m.recency.drop key ∨
      (m.get ttl key now).1.recency = m.recency.touch key ∧ (m.get ttl key now).2 ≠ none := by
    intro key now
    unfold LruMap.get
    split
    · split
      · exact .inl rfl
      · split
        · exact .inr (.inl rfl)
        · exact .inr (.inr ⟨rfl, nofun⟩)
    · exact .inl rfl
  cases c with
  | get key now => exact (hget key now).imp_right (Or.imp_right fun h => .inl h.1)
  | set key value now => exact .inr (.inr (.inr rfl))
  | getOrLoad key now rechecked loaded result =>
    cases hhit : (m.get ttl key now).2 with
    | some v =>
      simp only [LruMap.call, hhit]
      exact (hget key now).imp_right (Or.imp_right fun h => .inl h.1)
    | none =>
      simp only [LruMap.call, hhit]
      cases result with
      | error e =>
        exact (hget key now).imp_right (Or.imp_right fun h => absurd hhit h.2)
      | ok v =>
        refine .inr (.inr (.inr ?_))
        show ((m.get ttl key now).1.recency.touch key).evict capacity = _
        rcases hget key now with h | h | ⟨-, h⟩
        · rw [h]
          rfl
        · rw [h, Recency.touch_drop]
          rfl
        · exact absurd hhit h

section
variable (hr : Refines capacity ttl h m)
include hr

theorem Refines.mem_keys (key : String) : key ∈ h.items.keys ↔ key ∈ m.recency.present := by
  obtain ⟨s, hs, hm⟩ := hr
  rw [← hs.linked.mem_orderKeys, ← hs.order]
  exact hm.follows.listed.mem key

theorem Refines.lost (hpos : 0 < capacity) {c : CacheCall ε α} (hc : c.Ordered) {k : String}
    (hk : k ∈ h.items.keys) (hgone : k ∉ (h.call ttl c).1.items.keys) (hne : k ≠ c.key) :
    (∀ j ∈ h.items.keys, j ≠ k → m.recency.touched k < m.recency.touched j) ∧
      ∀ j, j ≠ c.key → (j ∈ (h.call ttl c).1.items.keys ↔ j ∈ h.items.keys ∧ j ≠ k) := by
  have hcall := (hr.call hpos c hc).1
  simp only [hcall.mem_keys, hr.mem_keys] at hk hgone ⊢
  obtain ⟨s, hs, hm⟩ := hr
  have hfits := hm.fits
  rcases m.call_recency capacity.toNat ttl c with heq | heq | heq | heq
  · rw [heq] at hgone
    exact absurd hk hgone
  · rw [heq] at hgone
    exact absurd (mem_erase.mpr ⟨hne, hk⟩) hgone
  · rw [heq] at hgone
    exact absurd (mem_insert_of_mem hk) hgone
  · rw [heq] at hgone ⊢
    exact hm.follows.listed.evict_touch (by omega) hk hgone

theorem Refines.hit {key : String} {now : Int} {v : α} (hhit : (h.get key now).2 = some v) :
    ∃ stored, m.latest key = some stored ∧ stored.value = v ∧ now ≤ stored.storedAt + ttl := by
  obtain ⟨s, hs, hm⟩ := hr
  rw [(hs.get key now).2] at hhit
  obtain ⟨e, he, rfl, hlive⟩ := Shard.get_hit hhit
  by_cases hkey : key ∈ m.recency.present
  · obtain ⟨stored, hlatest, hitem⟩ := hm.follows.items key hkey
    rw [he] at hitem
    cases hitem
    have htime := hm.follows.stores key stored hlatest
    refine ⟨stored, hlatest, rfl, ?_⟩
    change now ≤ stored.since + ttl at hlive
    omega
  · rw [hm.follows.absent key hkey] at he
    cases he

end

end

/-! ## Sequences of calls -/

structure Session (σ ε α : Type) where
  state : σ
  clock : Int
  answers : List (CacheAnswer ε α)

def sessionStep {σ : Type} (call : σ → CacheCall ε α → σ × CacheAnswer ε α)
    (s : Session σ ε α) (c : CacheCall ε α) : Option (Session σ ε α) :=
  if s.clock ≤ c.starts ∧ c.Ordered then
    some ⟨(call s.state c).1, c.ends, s.answers ++ [(call s.state c).2]⟩
  else none

theorem sessionStep_refines {capacity ttl : Int} (hpos : 0 < capacity)
    {h h' : Session (HeapShard α) ε α} {m : Session (LruMap α) ε α} {c : CacheCall ε α}
    (hr : Refines capacity ttl h.state m.state ∧ h.clock = m.clock ∧ h.answers = m.answers)
    (hstep : sessionStep (HeapShard.call ttl) h c = some h') :
    ∃ m', sessionStep (LruMap.call capacity.toNat ttl) m c = some m' ∧
      Refines capacity ttl h'.state m'.state ∧ h'.clock = m'.clock ∧ h'.answers = m'.answers := by
  obtain ⟨hrefines, hclock, hanswers⟩ := hr
  unfold sessionStep at hstep ⊢
  by_cases hc : h.clock ≤ c.starts ∧ c.Ordered
  · rw [if_pos hc] at hstep
    cases hstep
    rw [if_pos (hclock ▸ hc)]
    obtain ⟨hcall, hanswer⟩ := hrefines.call hpos c hc.2
    refine ⟨_, rfl, hcall, rfl, ?_⟩
    rw [hanswers, hanswer]
  · rw [if_neg hc] at hstep
    cases hstep

/-- Every sequence of calls on a shard in memory is answered as by the reference. -/
theorem shard_refines_lru {α ε : Type} (capacity ttl start : Int) (hpos : 0 < capacity)
    (calls : List (CacheCall ε α)) (h : Session (HeapShard α) ε α)
    (hrun : run (sessionStep (HeapShard.call ttl)) ⟨.empty capacity, start, []⟩ calls = some h) :
    ∃ m : Session (LruMap α) ε α,
      run (sessionStep (LruMap.call capacity.toNat ttl)) ⟨.empty, start, []⟩ calls = some m ∧
      h.answers = m.answers ∧
      h.state.orderKeys.Nodup ∧ (∀ k, k ∈ h.state.orderKeys ↔ k ∈ h.state.items.keys) ∧
      (∀ k, k ∈ h.state.items.keys ↔ k ∈ m.state.recency.present) ∧
      (h.state.items.len : Int) ≤ capacity ∧
      (∀ key now v, (h.state.get key now).2 = some v →
        ∃ stored, m.state.latest key = some stored ∧ stored.value = v ∧
          now ≤ stored.storedAt + ttl) ∧
      ∀ c : CacheCall ε α, c.Ordered → ∀ k ∈ h.state.items.keys,
        k ∉ (h.state.call ttl c).1.items.keys → k ≠ c.key →
        (∀ j ∈ h.state.items.keys, j ≠ k → m.state.recency.touched k < m.state.recency.touched j) ∧
        ∀ j, j ≠ c.key →
          (j ∈ (h.state.call ttl c).1.items.keys ↔ j ∈ h.state.items.keys ∧ j ≠ k) := by
  obtain ⟨m, hm, hr, -, hanswers⟩ :=
    run_simulates (t := ⟨.empty, start, []⟩) (fun _ _ _ _ => sessionStep_refines hpos)
      ⟨empty_refines hpos ttl, rfl, rfl⟩ hrun
  refine ⟨m, hm, hanswers, ?_, ?_, hr.mem_keys, ?_, fun key now v => hr.hit,
    fun c hc k hk hgone hne => hr.lost hpos hc hk hgone hne⟩
  · obtain ⟨s, hs, -⟩ := hr
    exact hs.linked.orderKeys_nodup
  · obtain ⟨s, hs, -⟩ := hr
    exact fun k => hs.linked.mem_orderKeys
  obtain ⟨s, hs, htracks⟩ := hr
  have hfits := htracks.fits
  rw [← hs.len, htracks.follows.len]
  exact hfits

theorem shard_refines_lru_load :
    ∃ (h : Session (HeapShard Nat) String Nat) (m : Session (LruMap Nat) String Nat),
      run (sessionStep (HeapShard.call 10)) ⟨.empty 1, 0, []⟩
        [.set "a" 1 0, .getOrLoad "b" 1 1 2 (.ok 2), .get "a" 3] = some h ∧
      h.answers = m.answers ∧ (h.state.items.len : Int) ≤ 1 := by
  obtain ⟨h, hrun⟩ : ∃ h : Session (HeapShard Nat) String Nat,
      run (sessionStep (HeapShard.call 10)) ⟨.empty 1, 0, []⟩
        [.set "a" 1 0, .getOrLoad "b" 1 1 2 (.ok 2), .get "a" 3] = some h :=
    Option.isSome_iff_exists.mp (by decide +kernel)
  obtain ⟨m, -, hanswers, -, -, -, hlen, -⟩ := shard_refines_lru 1 10 0 (by decide) _ h hrun
  exact ⟨h, m, hrun, hanswers, hlen⟩

end GoServices.Gateway
