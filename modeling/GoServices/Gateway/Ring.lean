/-
The hash ring when backends come and go.

The ring is searched from the first node at or after the key's hash, round to the start.
-/
import GoServices.Gateway.Strategies

namespace GoServices.Gateway.Pool

open List

def setHealthy (p : Pool) (b : Nat) (v : Bool) : Pool :=
  { p with memory := Function.update p.memory b { p.memory b with healthy := v } }

/-- `x` is the node for the hash: the nearest one from there on, or the first of the ring. -/
structure Serves (nodes : List (Nat × Nat)) (hash : Nat) (x : Nat × Nat) : Prop where
  mem : x ∈ nodes
  nearest : (hash ≤ x.1 ∧ ∀ z ∈ nodes, hash ≤ z.1 → x.1 ≤ z.1) ∨
    ((∀ z ∈ nodes, z.1 < hash) ∧ ∀ z ∈ nodes, x.1 ≤ z.1)

/-! ## Backends that go down -/

theorem isHealthy_setHealthy (p : Pool) (c : Nat) (v : Bool) (d : Nat) :
    (p.setHealthy c v).isHealthy d = if d = c then v else p.isHealthy d := by
  simp only [isHealthy, setHealthy, Function.update_apply]
  split
  · rfl
  · rfl

theorem find?_of_imp {α : Type} {l : List α} {q q' : α → Bool} {x : α}
    (hsub : ∀ y, q' y = true → q y = true) (h : l.find? q = some x) (hx : q' x = true) :
    l.find? q' = some x := by
  obtain ⟨-, before, after, rfl, hbefore⟩ := find?_eq_some_iff_append.mp h
  refine find?_eq_some_iff_append.mpr ⟨hx, before, after, rfl, fun y hy => ?_⟩
  have hskipped := hbefore y hy
  rw [Bool.not_eq_true'] at hskipped ⊢
  exact Bool.eq_false_iff.mpr fun hy' => Bool.eq_false_iff.mp hskipped (hsub y hy')

/-- A key stays with its backend as long as that one is healthy, whatever others go down; so if a
backend goes down only its own keys move, and they come back with it. -/
theorem ring_choice_stays {p q : Pool} (hring : q.ring = p.ring) (hhash : q.hashKey = p.hashKey)
    (hsub : ∀ b, q.isHealthy b = true → p.isHealthy b = true) (key : String) (b : Nat)
    (h : p.ringGet key = .backend b) (hb : q.isHealthy b = true) :
    q.ringGet key = .backend b ∧ (∀ c, c ≠ b → (p.setHealthy c false).ringGet key = .backend b) ∧
      ((p.setHealthy b false).setHealthy b true).ringGet key = .backend b := by
  have hstays {r : Pool} (hring : r.ring = p.ring) (hhash : r.hashKey = p.hashKey)
      (hsub : ∀ c, r.isHealthy c = true → p.isHealthy c = true) (hb : r.isHealthy b = true) :
      r.ringGet key = .backend b := by
    rw [ringGet, found_eq_backend] at h ⊢
    obtain ⟨node, hnode, rfl⟩ := Option.map_eq_some_iff.mp h
    have hfind := find?_of_imp (fun y : Nat × Nat => hsub y.2) hnode hb
    rw [hring, hhash, hfind]
    rfl
  have hpb := hsub b hb
  refine ⟨hstays hring hhash hsub hb, fun c hc => hstays rfl rfl (fun d hd => ?_) ?_,
    hstays rfl rfl (fun d hd => ?_) ?_⟩
  · rw [isHealthy_setHealthy] at hd
    split at hd <;> try cases hd
    exact hd
  · rw [isHealthy_setHealthy, if_neg hc.symm]
    exact hpb
  · by_cases hdb : d = b
    · rw [hdb]
      exact hpb
    · rw [isHealthy_setHealthy, if_neg hdb, isHealthy_setHealthy, if_neg hdb] at hd
      exact hd
  · rw [isHealthy_setHealthy, if_pos rfl]

def demoRing : Pool where
  memory b := newBackend (toString b) 1
  strategy := .consistentHash
  backends := [0, 1, 2]
  rrCounter := 0
  hashKey key := key.length
  ring := [(3, 0), (5, 1), (7, 2)]

theorem ring_choice_stays_down :
    demoRing.ringGet "abcd" = .backend 1 ∧
      (demoRing.setHealthy 2 false).ringGet "abcd" = .backend 1 := by
  have hchosen : demoRing.ringGet "abcd" = .backend 1 := by decide
  exact ⟨hchosen, (ring_choice_stays rfl rfl (fun _ h => h) "abcd" 1 hchosen rfl).2.1 2 (by decide)⟩

/-! ## A backend that is added -/

section
variable {nodes nodes' : List (Nat × Nat)} {hash : Nat}

theorem head?_rotate_findIdx {α : Type} (l : List α) (q : α → Bool) :
    (l.rotate (l.findIdx q)).head? = (l.find? q).or l.head? := by
  by_cases hfound : l.findIdx q < l.length
  · rw [head?_rotate hfound, getElem?_eq_getElem hfound,
      find?_eq_some_iff_getElem.mpr ⟨findIdx_getElem, _, hfound, rfl, fun j hj => ?_⟩]
    · rfl
    · simpa using not_of_lt_findIdx hj
  have hnone : l.find? q = none := by
    refine find?_eq_none.mpr fun x hx hq => hfound ?_
    exact findIdx_lt_length_of_exists ⟨x, hx, hq⟩
  have hlen : l.findIdx q = l.length := Nat.le_antisymm findIdx_le_length (Nat.le_of_not_lt hfound)
  rw [hlen, rotate_length, hnone, Option.none_or]

theorem serves_of_find (hsorted : nodes.Pairwise fun x y => x.1 ≤ y.1) {x : Nat × Nat}
    (h : (nodes.find? fun node => hash ≤ node.1).or nodes.head? = some x) :
    Serves nodes hash x := by
  obtain hfind | ⟨hnone, hhead⟩ := Option.or_eq_some_iff.mp h
  · obtain ⟨hx, before, after, rfl, hbefore⟩ := find?_eq_some_iff_append.mp hfind
    refine ⟨mem_append_right _ mem_cons_self, .inl ⟨of_decide_eq_true hx, ?_⟩⟩
    intro z hz hle
    obtain hz | hz := mem_append.mp hz
    · have hskipped := hbefore z hz
      simp [hle] at hskipped
    obtain rfl | hz := mem_cons.mp hz
    · exact Nat.le_refl _
    · exact (pairwise_cons.mp (pairwise_append.mp hsorted).2.1).1 z hz
  have hbelow : ∀ z ∈ nodes, z.1 < hash := by
    intro z hz
    have hz' := find?_eq_none.mp hnone z hz
    simpa using hz'
  cases nodes with
  | nil => cases hhead
  | cons y nodes =>
    cases hhead
    refine ⟨mem_cons_self, .inr ⟨hbelow, fun z hz => ?_⟩⟩
    obtain rfl | hz := mem_cons.mp hz
    · exact Nat.le_refl _
    · exact (pairwise_cons.mp hsorted).1 z hz

theorem Serves.hash_eq {x y : Nat × Nat} (hx : Serves nodes hash x) (hy : Serves nodes' hash y)
    (hsub : nodes ⊆ nodes') (hold : y ∈ nodes) : x.1 = y.1 := by
  obtain ⟨hle, hmin⟩ | ⟨hbelow, hmin⟩ := hx.nearest
  · obtain ⟨hle', hmin'⟩ | ⟨hbelow', -⟩ := hy.nearest
    · exact Nat.le_antisymm (hmin y hold hle') (hmin' x (hsub hx.mem) hle)
    · exact absurd (hbelow' x (hsub hx.mem)) (Nat.not_lt.mpr hle)
  obtain ⟨hle', -⟩ | ⟨-, hmin'⟩ := hy.nearest
  · exact absurd (hbelow y hold) (Nat.not_lt.mpr hle')
  · exact Nat.le_antisymm (hmin y hold) (hmin' x (hsub hx.mem))

end

theorem serves_of_ringGet {p : Pool} {key : String} {b : Nat}
    (hsorted : p.ring.Pairwise fun x y => x.1 ≤ y.1)
    (hhealthy : ∀ node ∈ p.ring, p.isHealthy node.2 = true) (h : p.ringGet key = .backend b) :
    ∃ x, Serves p.ring (p.hashKey key) x ∧ x.2 = b := by
  rw [ringGet, found_eq_backend] at h
  obtain ⟨x, hx, rfl⟩ := Option.map_eq_some_iff.mp h
  refine ⟨x, serves_of_find hsorted ?_, rfl⟩
  rw [← head?_rotate_findIdx]
  -- All nodes are healthy, so the search ends at its first node.
  cases hrotated : p.ring.rotate (p.ring.findIdx fun node => p.hashKey key ≤ node.1) with
  | nil =>
    rw [hrotated] at hx
    cases hx
  | cons y rest =>
    have hy : y ∈ p.ring := mem_rotate.mp (hrotated ▸ mem_cons_self)
    rw [hrotated, find?_cons, hhealthy y hy] at hx
    exact hx

theorem ringGet_found {p : Pool} (hp : p.Built) (hs : p.strategy = .consistentHash)
    (hhealthy : ∀ b ∈ p.backends, p.isHealthy b = true) (key : String) :
    ∃ b, p.ringGet key = .backend b := by
  obtain ⟨b, hb⟩ := exists_mem_of_ne_nil _ hp.nonempty
  have hchosen := (Retries.choose_consistentHash hp hs 0 :
      _ → ∃ b, p.choose key 0 = .backend b)
    ⟨b, mem_healthy.mpr ⟨hb, hhealthy b hb⟩⟩
  rw [choose, hs] at hchosen
  exact hchosen

/-- If nodes of one hash belong to one backend, a key goes to the backend it went to before or to
the one that was added. -/
theorem ring_added_backend {p q : Pool} (hp : p.Built) (hq : q.Built)
    (hstrategy : p.strategy = .consistentHash ∧ q.strategy = .consistentHash)
    (hmemory : q.memory = p.memory) (hhash : q.hashKey = p.hashKey) {added : Nat}
    (hadded : q.backends = p.backends ++ [added])
    (hhealthy : ∀ b ∈ q.backends, p.isHealthy b = true)
    (hshared : ∀ x ∈ p.ring, ∀ y ∈ p.ring, x.1 = y.1 → x.2 = y.2) (key : String) :
    ∃ b c, p.ringGet key = .backend b ∧ q.ringGet key = .backend c ∧ (c = b ∨ c = added) := by
  obtain ⟨hperm, hsorted⟩ := hp.ring hstrategy.1
  obtain ⟨hperm', hsorted'⟩ := hq.ring hstrategy.2
  have hqhealthy (d : Nat) : q.isHealthy d = p.isHealthy d := by
    rw [isHealthy, hmemory]
    rfl
  obtain ⟨b, hb⟩ := ringGet_found hp hstrategy.1 (fun b hb => hhealthy b (by
    rw [hadded]
    exact mem_append_left _ hb)) key
  obtain ⟨c, hc⟩ :=
    ringGet_found hq hstrategy.2 (fun b hb => (hqhealthy b).trans (hhealthy b hb)) key
  refine ⟨b, c, hb, hc, ?_⟩
  have hold (node : Nat × Nat) (hnode : node ∈ p.ring) : node.2 ∈ q.backends := by
    rw [hadded]
    exact mem_append_left _ (hp.mem_ring hstrategy.1 hnode)
  obtain ⟨x, hx, rfl⟩ := serves_of_ringGet hsorted (fun node h => hhealthy _ (hold node h)) hb
  obtain ⟨y, hy, rfl⟩ := serves_of_ringGet hsorted' (fun node h => by
    rw [hqhealthy]
    exact hhealthy _ (hq.mem_ring hstrategy.2 h)) hc
  have hsplit (node : Nat × Nat) :
      node ∈ q.ring ↔ node ∈ p.ring ∨ node ∈ virtualNodes p.hashKey p.memory [added] := by
    rw [hperm.mem_iff, hperm'.mem_iff, hadded, hmemory, hhash, virtualNodes, flatMap_append,
      mem_append]
    rfl
  obtain hyold | hynew := (hsplit y).mp hy.mem
  · rw [hhash] at hy
    have heq := hx.hash_eq hy (fun node h => (hsplit node).mpr (.inl h)) hyold
    exact .inl (hshared x hx.mem y hyold heq).symm
  obtain ⟨d, hd, hnode⟩ := mem_flatMap.mp hynew
  obtain ⟨i, -, rfl⟩ := mem_map.mp hnode
  exact .inr (mem_singleton.mp hd)

/-! ### Rings with a shared hash -/

def addedHash (key : String) : Nat :=
  match key.toList with
  | 'b' :: '#' :: digits => Nat.ofDigitChars 10 digits 0 + 2
  | 'c' :: '#' :: digits => Nat.ofDigitChars 10 digits 0 + 102
  | _ => 1

def sharedIds (backends : List Nat) (ring : List (Nat × Nat)) : Pool where
  memory b := newBackend (if b = 2 then "c" else if b = 3 then "b" else "a") 1
  strategy := .consistentHash
  backends := backends
  rrCounter := 0
  hashKey := addedHash
  ring := ring

def nodesOf (backends : List Nat) : List (Nat × Nat) :=
  virtualNodes addedHash (sharedIds [] []).memory backends

theorem nodesOf_sorted {backends : List Nat}
    (h : ((nodesOf backends).map Prod.fst).IsChain (· ≤ ·)) :
    (nodesOf backends).Pairwise fun x y => x.1 ≤ y.1 :=
  pairwise_map.mp (isChain_iff_pairwise.mp h)

/-- Two backends with hashes of their own serve a key each before the third is added. -/
theorem ring_added_third :
    (sharedIds [0, 3] (nodesOf [0, 3])).ringGet "key" = .backend 0 ∧
      (sharedIds [0, 3] (nodesOf [0, 3])).ringGet "b#7" = .backend 3 ∧
      ∀ key, ∃ b c, (sharedIds [0, 3] (nodesOf [0, 3])).ringGet key = .backend b ∧
        (sharedIds [0, 3, 2] (nodesOf [0, 3, 2])).ringGet key = .backend c ∧ (c = b ∨ c = 2) := by
  have hp : (sharedIds [0, 3] (nodesOf [0, 3])).Built :=
    ⟨by decide, fun _ => ⟨.refl _, nodesOf_sorted (by decide +kernel)⟩⟩
  have hq : (sharedIds [0, 3, 2] (nodesOf [0, 3, 2])).Built :=
    ⟨by decide, fun _ => ⟨.refl _, nodesOf_sorted (by decide +kernel)⟩⟩
  have howner : ∀ x ∈ nodesOf [0, 3], x.2 = if x.1 = 1 then 0 else 3 := by decide +kernel
  refine ⟨by decide +kernel, by decide +kernel, fun key => ?_⟩
  refine ring_added_backend hp hq ⟨rfl, rfl⟩ rfl rfl rfl (fun _ _ => rfl) (fun x hx y hy hxy => ?_)
    key
  rw [howner x hx, howner y hy, hxy]

/-- Both rings are sorted and have the right nodes, and the added nodes have hashes of their own;
but the key moves from backend 0 to backend 1. -/
theorem shared_hash_moves :
    (sharedIds [0, 1] (nodesOf [0, 1])).Built ∧ (sharedIds [0, 1, 2] (nodesOf [1, 0, 2])).Built ∧
      ((nodesOf [2]).map Prod.fst).Nodup ∧
      (∀ x ∈ nodesOf [2], ∀ y ∈ nodesOf [0, 1], x.1 ≠ y.1) ∧
      (sharedIds [0, 1] (nodesOf [0, 1])).ringGet "key" = .backend 0 ∧
      (sharedIds [0, 1, 2] (nodesOf [1, 0, 2])).ringGet "key" = .backend 1 := by
  have hperm : (nodesOf [1, 0, 2]).Perm (nodesOf [0, 1, 2]) := by
    unfold nodesOf virtualNodes
    exact (Perm.swap 0 1 [2]).flatMap_right _
  have hnew : (nodesOf [2]).map Prod.fst = (range 100).map fun i => i + 102 := by
    decide +kernel
  have hold : ∀ y ∈ nodesOf [0, 1], y.1 = 1 := by decide +kernel
  refine ⟨⟨by decide, fun _ => ⟨.refl _, nodesOf_sorted (by decide +kernel)⟩⟩,
    ⟨by decide, fun _ => ⟨hperm, nodesOf_sorted (by decide +kernel)⟩⟩, ?_, ?_,
    by decide +kernel, by decide +kernel⟩
  · rw [hnew]
    exact nodup_range.map fun i j h => Nat.add_right_cancel h
  intro x hx y hy heq
  have hmem : (1 : Nat) ∈ (nodesOf [2]).map Prod.fst := mem_map.mpr ⟨x, hx, heq.trans (hold y hy)⟩
  rw [hnew] at hmem
  obtain ⟨i, -, hi⟩ := mem_map.mp hmem
  omega

end GoServices.Gateway.Pool
