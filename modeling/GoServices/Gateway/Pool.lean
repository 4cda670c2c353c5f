/-
The load balancer: a fixed set of backends and four strategies to pick one.

Backends are pointers into a memory, since a pool may list one backend twice and two backends may
have the same id.
-/
import GoServices.Base.FixedWidth
import GoServices.Gateway.Fetch

namespace GoServices.Gateway

open List

open Fetch (Picked)

structure Backend where
  id : String
  weight : Int
  healthy : Bool
  activeConns : Int

def newBackend (id : String) (weight : Int) : Backend where
  id := id
  weight := if weight < 1 then 1 else weight
  healthy := true
  activeConns := 0

inductive Strategy where
  | roundRobin
  | leastConnections
  | weightedRandom
  | consistentHash

def virtualNodesPerBackend : Nat := 100

/-- The nodes of `newHashRing` before they are sorted. -/
def virtualNodes (hashKey : String → Nat) (memory : Nat → Backend) (backends : List Nat) :
    List (Nat × Nat) :=
  backends.flatMap fun b => (List.range virtualNodesPerBackend).map fun i =>
    (hashKey ((memory b).id ++ "#" ++ toString i), b)

structure Pool where
  memory : Nat → Backend
  strategy : Strategy
  backends : List Nat
  /-- A `uint64`. -/
  rrCounter : Nat
  hashKey : String → Nat
  ring : List (Nat × Nat)

namespace Pool

/-- What `NewPool` makes sure of.  Nodes of the same hash can come in any order. -/
structure Built (p : Pool) : Prop where
  nonempty : p.backends ≠ []
  ring : p.strategy = .consistentHash → p.ring.Perm (virtualNodes p.hashKey p.memory p.backends) ∧
      p.ring.Pairwise fun x y => x.1 ≤ y.1

variable (p : Pool)

def isHealthy (b : Nat) : Bool := (p.memory b).healthy

def healthy : Finset Nat := (p.backends.filter p.isHealthy).toFinset

def errNoHealthyBackends : String := "loadbalancer: no healthy backends available"

/-- A backend, or `nil`. -/
def found : Option Nat → Picked Nat
  | none => .failed errNoHealthyBackends
  | some b => .backend b

/-- `pickRoundRobin` with the counter after its increment. -/
def pickRoundRobin (counter : Nat) : Picked Nat :=
  let n := p.backends.length
  let start := (int64 counter).tmod n
  -- no backends, or a negative index
  if n = 0 ∨ start < 0 then .panicked
  else found ((p.backends.rotate start.toNat).find? p.isHealthy)

/-- The loop body of `pickLeastConnections`. -/
def lessLoaded (best : Option Nat) (b : Nat) : Option Nat :=
  if ¬ p.isHealthy b then best
  else
    match best with
    | none => some b
    | some c => if (p.memory b).activeConns < (p.memory c).activeConns then some b else some c

def pickLeastConnections : Picked Nat := found (p.backends.foldl p.lessLoaded none)

/-- The second loop of `pickWeightedRandom`. -/
def walkWeights (p : Pool) : List Nat → Int → Option Nat
  | [], _ => none
  | b :: rest, r =>
    if r < (p.memory b).weight then some b else p.walkWeights rest (r - (p.memory b).weight)

/-- `pickWeightedRandom`, where `draw` decides what `rand.Intn` returns. -/
def pickWeightedRandom (draw : Nat) : Picked Nat :=
  let healthy := p.backends.filter p.isHealthy
  let total := int64 (healthy.map fun b => (p.memory b).weight).sum
  if total = 0 then found none
  else if total < 0 then .panicked
  else found ((p.walkWeights healthy (draw % total)).or healthy.getLast?)

variable (key : String)

/-- `hashRing.get`. -/
def ringGet : Picked Nat :=
  let start := p.ring.findIdx fun node => p.hashKey key ≤ node.1
  found (((p.ring.rotate start).find? fun node => p.isHealthy node.2).map Prod.snd)

def next : Pool :=
  match p.strategy with
  | .roundRobin => { p with rrCounter := (p.rrCounter + 1) % 2 ^ 64 }
  | _ => p

/-- The backend that `Pick` chooses. -/
def choose (draw : Nat) : Picked Nat :=
  match p.strategy with
  | .roundRobin => p.pickRoundRobin p.next.rrCounter
  | .leastConnections => p.pickLeastConnections
  | .weightedRandom => p.pickWeightedRandom draw
  | .consistentHash => p.ringGet key

def addConns (b : Nat) (d : Int) : Pool :=
  let backend := p.memory b
  { p with
    memory :=
      Function.update p.memory b { backend with activeConns := backend.activeConns + d } }

def pick (draw : Nat) : Pool × Picked Nat :=
  match p.choose key draw with
  | .backend b => (p.next.addConns b 1, .backend b)
  | other => (p.next, other)

def release (b : Nat) : Pool := p.addConns b (-1)

/-! ## What a pick returns -/

section
variable {p : Pool} {key : String} {draw : Nat} {b : Nat}

theorem mem_healthy : b ∈ p.healthy ↔ b ∈ p.backends ∧ p.isHealthy b = true := by
  rw [healthy, mem_toFinset, mem_filter]

theorem pick_snd (p : Pool) (key : String) (draw : Nat) :
    (p.pick key draw).2 = p.choose key draw := by
  unfold pick
  cases h : p.choose key draw <;> rfl

theorem addConns_addConns (p : Pool) (b : Nat) (d e : Int) :
    (p.addConns b d).addConns b e = p.addConns b (d + e) := by
  simp only [addConns, Function.update_self, Function.update_idem, Int.add_assoc]

theorem addConns_zero (p : Pool) (b : Nat) : p.addConns b 0 = p := by
  simp only [addConns, Int.add_zero, Function.update_eq_self]

theorem release_pick (h : (p.pick key draw).2 = .backend b) :
    (p.pick key draw).1.release b = p.next := by
  rw [pick_snd] at h
  unfold pick
  rw [h]
  show (p.next.addConns b 1).addConns b (-1) = p.next
  rw [addConns_addConns]
  exact addConns_zero p.next b

theorem found_eq_backend {o : Option Nat} : found o = .backend b ↔ o = some b := by
  cases o with
  | none | some c => simp [found]

variable {best : Option Nat} {l : List Nat}

theorem lessLoaded_mem {c : Nat}
    (h : p.lessLoaded best c = some b) : best = some b ∨ (b = c ∧ p.isHealthy c = true) := by
  unfold lessLoaded at h
  split at h
  · exact .inl h
  rename_i hc
  have hc' : p.isHealthy c = true := not_not.mp hc
  split at h
  · cases h
    exact .inr ⟨rfl, hc'⟩
  split at h
  · cases h
    exact .inr ⟨rfl, hc'⟩
  · exact .inl h

theorem foldl_lessLoaded_mem (h : l.foldl p.lessLoaded best = some b) :
    best = some b ∨ (b ∈ l ∧ p.isHealthy b = true) := by
  induction l generalizing best with
  | nil => exact .inl h
  | cons c l ih =>
    rcases ih h with hbest | ⟨hmem, hb⟩
    · rcases lessLoaded_mem hbest with hbest | ⟨rfl, hb⟩
      · exact .inl hbest
      · exact .inr ⟨mem_cons_self, hb⟩
    · exact .inr ⟨mem_cons_of_mem c hmem, hb⟩

theorem walkWeights_mem {r : Int} (h : p.walkWeights l r = some b) : b ∈ l := by
  induction l generalizing r with
  | nil => cases h
  | cons c l ih =>
    unfold walkWeights at h
    split at h
    · cases h
      exact mem_cons_self
    · exact mem_cons_of_mem c (ih h)

theorem Built.mem_ring (hp : p.Built) (hs : p.strategy = .consistentHash) {node : Nat × Nat}
    (h : node ∈ p.ring) : node.2 ∈ p.backends := by
  have hmem := (hp.ring hs).1.mem_iff.mp h
  obtain ⟨c, hc, hnode⟩ := mem_flatMap.mp hmem
  obtain ⟨i, -, rfl⟩ := mem_map.mp hnode
  exact hc

theorem choose_mem (hp : p.Built) (h : p.choose key draw = .backend b) : b ∈ p.healthy := by
  rw [mem_healthy]
  unfold choose at h
  split at h
  · simp only [pickRoundRobin] at h
    split at h <;> try cases h
    have hfound := found_eq_backend.mp h
    exact ⟨mem_rotate.mp (mem_of_find?_eq_some hfound), find?_some hfound⟩
  · have hbest := foldl_lessLoaded_mem (found_eq_backend.mp h)
    exact hbest.resolve_left nofun
  · simp only [pickWeightedRandom] at h
    split at h
    · cases h
    split at h
    · cases h
    have hmem : b ∈ p.backends.filter p.isHealthy := by
      rcases Option.or_eq_some_iff.mp (found_eq_backend.mp h) with hwalk | ⟨-, hlast⟩
      · exact walkWeights_mem hwalk
      · exact mem_of_getLast? hlast
    exact mem_filter.mp hmem
  · rename_i hs
    obtain ⟨node, hnode, rfl⟩ := Option.map_eq_some_iff.mp (found_eq_backend.mp h)
    have hfound := find?_some hnode
    exact ⟨hp.mem_ring hs (mem_rotate.mp (mem_of_find?_eq_some hnode)), hfound⟩

end

/-! ## One pick after the other -/

def advance (p : Pool) : Nat → Pool
  | 0 => p
  | i + 1 => (p.advance i).next

/-- The pick after `i` others, where `rand` are the random numbers. -/
def pickAt (rand : Nat → Nat) (i : Nat) : Picked Nat :=
  (p.advance i).choose key (rand i)

theorem next_eq : ∃ counter, p.next = { p with rrCounter := counter } := by
  unfold next
  split
  · exact ⟨_, rfl⟩
  · exact ⟨p.rrCounter, rfl⟩

theorem advance_eq (i : Nat) :
    ∃ counter, p.advance i = { p with rrCounter := counter } := by
  induction i with
  | zero => exact ⟨p.rrCounter, rfl⟩
  | succ i ih =>
    obtain ⟨counter, hcounter⟩ := ih
    obtain ⟨counter', hnext⟩ := (p.advance i).next_eq
    refine ⟨counter', ?_⟩
    show (p.advance i).next = _
    rw [hnext, hcounter]

theorem pickAt_mem {p : Pool} (hp : p.Built) {key : String} {rand : Nat → Nat} {i b : Nat}
    (h : p.pickAt key rand i = .backend b) : b ∈ p.healthy := by
  obtain ⟨counter, hcounter⟩ := p.advance_eq i
  rw [pickAt, hcounter] at h
  have hbuilt : Built { p with rrCounter := counter } := ⟨hp.nonempty, hp.ring⟩
  have hmem := choose_mem hbuilt h
  exact hmem

end Pool

end GoServices.Gateway
