/-
The gateway's read-through cache: sharded, bounded by a capacity per shard and by a time
to live per entry.

A shard is a map and a recency list, guarded by one lock.
-/
import GoServices.Base.Table

namespace GoServices.Gateway

open Table

structure Entry (α : Type) where
  value : α
  expiresAt : Int
  deriving DecidableEq

/-- The front of `order` is the key used last.  A capacity of zero or less is no bound. -/
structure Shard (α : Type) where
  items : Table String (Entry α)
  order : List String
  capacity : Int

namespace Shard

variable {α : Type}

def empty (capacity : Int) : Shard α := { items := .empty, order := [], capacity := capacity }

/-- `MoveToFront` of the key's element. -/
def touch (s : Shard α) (key : String) : Shard α := { s with order := key :: s.order.erase key }

def remove (s : Shard α) (key : String) : Shard α :=
  { s with items := s.items.erase key, order := s.order.erase key }

/-- `Get`, under the shard's lock. -/
def get (s : Shard α) (key : String) (now : Int) : Shard α × Option α :=
  match s.items.get? key with
  | none => (s, none)
  | some e => if e.expiresAt < now then (s.remove key, none) else (s.touch key, some e.value)

/-- The re-check of `GetOrLoad`. -/
def recheck (s : Shard α) (key : String) (now : Int) : Option (Shard α × α) :=
  match s.items.get? key with
  | none => none
  | some e => if now < e.expiresAt then some (s.touch key, e.value) else none

def evict (s : Shard α) : Shard α :=
  if 0 < s.capacity ∧ s.capacity < s.items.len then
    match s.order.getLast? with
    | none => s
    | some oldest => s.remove oldest
  else s

/-- What `Set` and `GetOrLoad` do with a new value. -/
def store (s : Shard α) (key : String) (value : α) (expiresAt : Int) : Shard α :=
  match s.items.get? key with
  | some _ => { s.touch key with items := s.items.set key ⟨value, expiresAt⟩ }
  | none =>
    { s with items := s.items.set key ⟨value, expiresAt⟩, order := key :: s.order }.evict

variable {s : Shard α} {key k : String} {e : Entry α}

theorem items_remove (h : (s.remove key).items.get? k = some e) : s.items.get? k = some e := by
  rw [remove, get?_erase] at h
  split at h
  · cases h
  · exact h

variable {now : Int}

theorem items_get (h : (s.get key now).1.items.get? k = some e) : s.items.get? k = some e := by
  unfold get at h
  split at h
  · exact h
  split at h
  · exact items_remove h
  · exact h

variable {v : α}

theorem get_hit (h : (s.get key now).2 = some v) :
    ∃ e, s.items.get? key = some e ∧ e.value = v ∧ now ≤ e.expiresAt := by
  unfold get at h
  split at h
  · cases h
  rename_i e hget
  split at h
  · cases h
  · rename_i hlive
    exact ⟨e, hget, Option.some.inj h, Int.not_lt.mp hlive⟩

theorem recheck_hit {s' : Shard α} (h : s.recheck key now = some (s', v)) :
    s'.items = s.items ∧ ∃ e, s.items.get? key = some e ∧ e.value = v ∧ now < e.expiresAt := by
  unfold recheck at h
  split at h
  · cases h
  rename_i e hget
  split at h <;> cases h
  rename_i hlive
  exact ⟨rfl, e, hget, rfl, hlive⟩

theorem items_evict (h : s.evict.items.get? k = some e) : s.items.get? k = some e := by
  unfold evict at h
  split at h
  · split at h
    · exact h
    · exact items_remove h
  · exact h

theorem items_store {expiresAt : Int} (h : (s.store key v expiresAt).items.get? k = some e) :
    (k = key ∧ e = ⟨v, expiresAt⟩) ∨ s.items.get? k = some e := by
  have hset (h : (s.items.set key ⟨v, expiresAt⟩).get? k = some e) :
      (k = key ∧ e = ⟨v, expiresAt⟩) ∨ s.items.get? k = some e :=
    (set_cases h).imp_right And.right
  unfold store at h
  split at h
  · exact hset h
  · exact hset (items_evict h)

theorem items_store_self {expiresAt : Int} (h : (s.store key v expiresAt).items.get? key = some e) :
    e = ⟨v, expiresAt⟩ := by
  unfold store at h
  split at h
  · rw [get?_set_self] at h
    exact (Option.some.inj h).symm
  have hset := items_evict h
  rw [get?_set_self] at hset
  exact (Option.some.inj hset).symm

end Shard

def defaultShardCount : Nat := 256

/-- `Cache`, with the hash that spreads the keys over the shards. -/
structure Cache (α : Type) where
  sum32 : String → Nat
  shards : Fin defaultShardCount → Shard α
  ttl : Int

namespace Cache

variable {α : Type}

def new (sum32 : String → Nat) (capacityPerShard ttl : Int) : Cache α :=
  { sum32 := sum32, shards := fun _ => .empty capacityPerShard, ttl := ttl }

def shardFor (c : Cache α) (key : String) : Fin defaultShardCount :=
  ⟨c.sum32 key % defaultShardCount, Nat.mod_lt _ (by decide)⟩

def setShard (c : Cache α) (key : String) (s : Shard α) : Cache α :=
  { c with shards := Function.update c.shards (c.shardFor key) s }

def get (c : Cache α) (key : String) (now : Int) : Cache α × Option α :=
  let (s, v) := (c.shards (c.shardFor key)).get key now
  (c.setShard key s, v)

def set (c : Cache α) (key : String) (value : α) (now : Int) : Cache α :=
  c.setShard key ((c.shards (c.shardFor key)).store key value (now + c.ttl))

/-- The re-check of `GetOrLoad` after its `Get` has missed; on `none` it calls the load
and stores what the load returns with `set`, all under the lock. -/
def recheck (c : Cache α) (key : String) (now : Int) : Option (Cache α × α) :=
  ((c.shards (c.shardFor key)).recheck key now).map fun (s, v) => (c.setShard key s, v)

def lookup (c : Cache α) (key : String) : Option (Entry α) :=
  (c.shards (c.shardFor key)).items.get? key

variable {c : Cache α} {key k : String} {e : Entry α}

theorem lookup_setShard {s : Shard α} {P : Prop}
    (hs : s.items.get? k = some e → P ∨ (c.shards (c.shardFor key)).items.get? k = some e)
    (h : (c.setShard key s).lookup k = some e) : P ∨ c.lookup k = some e := by
  have hread : (Function.update c.shards (c.shardFor key) s (c.shardFor k)).items.get? k =
      some e := h
  rw [Function.update_apply] at hread
  split at hread
  · rename_i hshard
    rw [lookup, hshard]
    exact hs hread
  · exact .inr hread

variable {now : Int}

theorem lookup_get (h : (c.get key now).1.lookup k = some e) : c.lookup k = some e :=
  (lookup_setShard (P := False) (fun hs => .inr (Shard.items_get hs)) h).resolve_left id

variable {v : α}

theorem lookup_set (h : (c.set key v now).lookup k = some e) :
    (k = key ∧ e = ⟨v, now + c.ttl⟩) ∨ c.lookup k = some e :=
  lookup_setShard (fun hs => Shard.items_store hs) h

theorem get_hit (h : (c.get key now).2 = some v) :
    ∃ e, c.lookup key = some e ∧ e.value = v ∧ now ≤ e.expiresAt :=
  Shard.get_hit h

theorem recheck_hit {c' : Cache α} (h : c.recheck key now = some (c', v)) :
    c'.ttl = c.ttl ∧ (∀ k e, c'.lookup k = some e → c.lookup k = some e) ∧
      ∃ e, c.lookup key = some e ∧ e.value = v ∧ now ≤ e.expiresAt := by
  obtain ⟨⟨s, w⟩, hs, heq⟩ := Option.map_eq_some_iff.mp h
  cases heq
  obtain ⟨hitems, e, he, hvalue, hlive⟩ := Shard.recheck_hit hs
  refine ⟨rfl, fun k e hk => ?_, e, he, hvalue, Int.le_of_lt hlive⟩
  exact (lookup_setShard (P := False) (fun hs => .inr (hitems ▸ hs)) hk).resolve_left id

end Cache

end GoServices.Gateway
