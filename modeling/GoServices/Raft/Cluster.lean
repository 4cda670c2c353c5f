/-
Leader election with a fence line, in one process.

A cluster is a fixed list of nodes, and a partition is a group number on each node.
-/
import GoServices.Base.Run

namespace GoServices.Raft

open List

inductive Role
  | follower
  | candidate
  | leader
  deriving DecidableEq

structure Node where
  id : Nat
  term : Nat
  state : Role
  group : Nat

inductive RaftError
  | noQuorum
  | fenced
  deriving DecidableEq

/-- `Cluster`.  A node's id is its position in the list, as `NewCluster` sets it. -/
structure Cluster where
  nodes : List Node
  nextGroup : Nat
  committedTrm : Nat
  ids : ∀ (i : Nat) (n : Node), nodes[i]? = some n → n.id = i

namespace Cluster

def mapNodes (c : Cluster) (f : Node → Node) (hf : ∀ n, (f n).id = n.id) : Cluster where
  nodes := c.nodes.map f
  nextGroup := c.nextGroup
  committedTrm := c.committedTrm
  ids i n h := by
    rw [List.getElem?_map, Option.map_eq_some_iff] at h
    obtain ⟨m, hm, rfl⟩ := h
    rw [hf]
    exact c.ids i m hm

def setNode (c : Cluster) (n : Node) : Cluster :=
  c.mapNodes (fun m => if m.id = n.id then n else m) fun m => by
    by_cases h : m.id = n.id
    · rw [if_pos h, h]
    · rw [if_neg h]

/-- `NewCluster`: `n` followers in one group. -/
def new (n : Nat) : Cluster where
  nodes := (List.range n).map fun i => { id := i, term := 0, state := .follower, group := 0 }
  nextGroup := 1
  committedTrm := 0
  ids i m h := by
    rw [List.getElem?_map, Option.map_eq_some_iff] at h
    obtain ⟨j, hj, rfl⟩ := h
    rw [List.getElem?_eq_some_iff] at hj
    obtain ⟨hlt, rfl⟩ := hj
    exact List.getElem_range hlt

def majority (c : Cluster) : Nat := c.nodes.length / 2 + 1

/-- `Partition(ids...)`.  Ids that name no node have no effect. -/
def partition (c : Cluster) (ids : List Int) : Cluster :=
  let g := c.nextGroup
  { c.mapNodes (fun n => if (n.id : Int) ∈ ids then { n with group := g } else n) fun n => by
      by_cases h : (n.id : Int) ∈ ids
      · rw [if_pos h]
      · rw [if_neg h]
    with nextGroup := g + 1 }

def heal (c : Cluster) : Cluster :=
  c.mapNodes (fun n => { n with group := 0 }) fun _ => rfl

def reachable (c : Cluster) (candidate : Node) : Nat :=
  c.nodes.countP fun n => n.group = candidate.group

def maxTerm (c : Cluster) : Nat :=
  c.nodes.foldl (fun m n => if n.term > m then n.term else m) 0

def follow (c : Cluster) (cand : Node) : Cluster :=
  c.mapNodes (fun n => if n.group = cand.group ∧ n.id ≠ cand.id then
      { n with state := .follower, term := cand.term } else n) fun n => by
    by_cases h : n.group = cand.group ∧ n.id ≠ cand.id
    · rw [if_pos h]
    · rw [if_neg h]

/-- `Elect(id)`.  An index out of range panics, which is `none`. -/
def elect (c : Cluster) (id : Nat) : Option (Cluster × Except RaftError Node) :=
  match c.nodes[id]? with
  | none => none
  | some n =>
    let cand : Node := { n with state := .candidate, term := c.maxTerm + 1 }
    let c := c.setNode cand
    if c.reachable cand < c.majority then
      some (c.setNode { cand with state := .follower }, .error .noQuorum)
    else
      let c := c.follow cand
      let won : Node := { cand with state := .leader }
      some ({ c.setNode won with committedTrm := cand.term }, .ok won)

/-- The check of `Write(leaderID, apply)`; `apply` runs when it answers `ok`. -/
def write (c : Cluster) (leaderID : Nat) : Option (Except RaftError Unit) :=
  match c.nodes[leaderID]? with
  | none => none
  | some n =>
    if n.state ≠ .leader ∨ n.term < c.committedTrm then some (.error .fenced) else some (.ok ())

end Cluster

inductive Label
  | partition (ids : List Int)
  | heal
  | elect (id : Nat)
  | write (leaderID : Nat)

def step (c : Cluster) : Label → Option Cluster
  | .partition ids => some (c.partition ids)
  | .heal => some c.heal
  | .elect id => (c.elect id).map fun r => r.1
  | .write id => (c.write id).map fun _ => c

structure Won where
  id : Nat
  term : Nat
  deriving DecidableEq

def emit (c : Cluster) : Label → List Won
  | .elect id =>
    match c.elect id with
    | some (_, .ok n) => [{ id := n.id, term := n.term }]
    | _ => []
  | _ => []

/-! ## What one step can do -/

structure NodeStep (es : List Won) (m m' : Node) : Prop where
  id : m'.id = m.id
  term : m.term ≤ m'.term
  leader : m'.state = .leader →
    (m.state = .leader ∧ m'.term = m.term) ∨ ({ id := m'.id, term := m'.term } : Won) ∈ es

theorem NodeStep.same (es : List Won) (m : Node) : NodeStep es m m :=
  ⟨rfl, Nat.le_refl _, fun h => .inl ⟨h, rfl⟩⟩

theorem NodeStep.regroup (es : List Won) (m : Node) (g : Nat) :
    NodeStep es m { m with group := g } :=
  ⟨rfl, Nat.le_refl _, fun h => .inl ⟨h, rfl⟩⟩

variable {m : Node} {c c' : Cluster}

theorem NodeStep.demote (es : List Won) {t : Nat} (ht : m.term ≤ t) :
    NodeStep es m { m with state := .follower, term := t } :=
  ⟨rfl, ht, nofun⟩

theorem foldl_max_le {l : List Node} {m : Nat} :
    m ≤ l.foldl (fun m n => if n.term > m then n.term else m) m ∧
      ∀ n ∈ l, n.term ≤ l.foldl (fun m n => if n.term > m then n.term else m) m := by
  induction l generalizing m with
  | nil => exact ⟨Nat.le_refl _, nofun⟩
  | cons a l ih =>
    rw [foldl_cons]
    obtain ⟨hm, hl⟩ := ih (m := if a.term > m then a.term else m)
    refine ⟨?_, fun n hn => ?_⟩
    · split at hm <;> split <;> omega
    rcases mem_cons.mp hn with rfl | hn
    · split at hm <;> split <;> omega
    · exact hl n hn

theorem term_le_maxTerm (hm : m ∈ c.nodes) : m.term ≤ c.maxTerm :=
  foldl_max_le.2 m hm

structure ClusterStep (c : Cluster) (es : List Won) (c' : Cluster) : Prop where
  nodes : ∃ f : Node → Node, c'.nodes = c.nodes.map f ∧ ∀ m ∈ c.nodes, NodeStep es m (f m)
  line : (es = [] ∧ c'.committedTrm = c.committedTrm) ∨
    ∃ w, es = [w] ∧ c'.committedTrm = w.term ∧ (∀ m ∈ c.nodes, m.term < w.term) ∧
      ∃ m ∈ c'.nodes, m.id = w.id ∧ m.term = w.term

theorem ClusterStep.regroup {f : Node → Node}
    (hnodes : c'.nodes = c.nodes.map f) (hline : c'.committedTrm = c.committedTrm)
    (hf : ∀ m, ∃ g, f m = { m with group := g }) : ClusterStep c [] c' := by
  refine ⟨⟨f, hnodes, fun m _ => ?_⟩, .inl ⟨rfl, hline⟩⟩
  obtain ⟨g, hg⟩ := hf m
  rw [hg]
  exact .regroup [] m g

namespace Cluster

variable {c : Cluster}

theorem eq_of_id {m n : Node} (hm : m ∈ c.nodes) (hn : n ∈ c.nodes) (h : m.id = n.id) : m = n := by
  obtain ⟨i, hi⟩ := mem_iff_getElem?.mp hm
  obtain ⟨j, hj⟩ := mem_iff_getElem?.mp hn
  have hij : i = j := by rw [← c.ids i m hi, ← c.ids j n hj, h]
  subst hij
  rw [hi] at hj
  exact Option.some.inj hj

theorem length_mapNodes (c : Cluster) (f : Node → Node) (hf : ∀ n, (f n).id = n.id) :
    (c.mapNodes f hf).nodes.length = c.nodes.length :=
  length_map _

theorem reachable_setNode {n cand : Node} (hn : n ∈ c.nodes) (hid : cand.id = n.id)
    (hgroup : cand.group = n.group) :
    (c.setNode cand).reachable cand = c.reachable n := by
  unfold reachable setNode mapNodes
  rw [countP_map, hgroup]
  refine countP_congr fun m hm => ?_
  rw [Function.comp_apply]
  by_cases h : m.id = cand.id
  · rw [if_pos h, eq_of_id hm hn (h.trans hid), hgroup]
  · rw [if_neg h]

theorem elect_cases {id : Nat} {n : Node} (hn : c.nodes[id]? = some n) :
    (c.reachable n < c.majority ∧ ∃ c', c.elect id = some (c', .error .noQuorum) ∧
      c'.committedTrm = c.committedTrm ∧ c'.nodes = c.nodes.map fun m =>
        if m.id = n.id then { n with state := .follower, term := c.maxTerm + 1 } else m) ∨
    (c.majority ≤ c.reachable n ∧ ∃ c' won, c.elect id = some (c', .ok won) ∧
      won = { n with state := .leader, term := c.maxTerm + 1 } ∧
      c'.committedTrm = c.maxTerm + 1 ∧ c'.nodes = c.nodes.map fun m =>
        if m.id = n.id then won
        else if m.group = n.group then { m with state := .follower, term := c.maxTerm + 1 }
        else m) := by
  have hmem : n ∈ c.nodes := mem_iff_getElem?.mpr ⟨id, hn⟩
  have hcount : (c.setNode { n with state := .candidate, term := c.maxTerm + 1 }).reachable
      { n with state := .candidate, term := c.maxTerm + 1 } = c.reachable n :=
    reachable_setNode hmem rfl rfl
  have hmaj : (c.setNode { n with state := .candidate, term := c.maxTerm + 1 }).majority =
      c.majority := by
    rw [majority, setNode, length_mapNodes, majority]
  simp only [elect, hn, hcount, hmaj]
  rcases Nat.lt_or_ge (c.reachable n) c.majority with hlt | hge
  · rw [if_pos hlt]
    refine .inl ⟨hlt, _, rfl, rfl, ?_⟩
    simp only [setNode, mapNodes, map_map]
    refine map_congr_left fun m _ => ?_
    by_cases h : m.id = n.id
    · simp [h]
    · simp [h]
  rw [if_neg (Nat.not_lt.mpr hge)]
  refine .inr ⟨hge, _, _, rfl, rfl, rfl, ?_⟩
  simp only [setNode, mapNodes, follow, map_map]
  refine map_congr_left fun m _ => ?_
  by_cases h : m.id = n.id
  · simp [h]
  by_cases hg : m.group = n.group
  · simp [h, hg]
  · simp [h, hg]

end Cluster

theorem clusterStep_elect {id : Nat} {n : Node} (hn : c.nodes[id]? = some n)
    (h : step c (.elect id) = some c') : ClusterStep c (emit c (.elect id)) c' := by
  have hmem : n ∈ c.nodes := mem_iff_getElem?.mpr ⟨id, hn⟩
  have hmax : ∀ m ∈ c.nodes, m.term ≤ c.maxTerm + 1 := fun m hm =>
    Nat.le_succ_of_le (term_le_maxTerm hm)
  rcases c.elect_cases hn with
    ⟨-, d, helect, hline, hnodes⟩ | ⟨-, d, won, helect, rfl, hline, hnodes⟩
  · simp only [step, helect, Option.map_some, Option.some.injEq] at h
    subst h
    rw [show emit c (.elect id) = [] by simp [emit, helect]]
    refine ⟨⟨_, hnodes, fun m hm => ?_⟩, .inl ⟨rfl, hline⟩⟩
    by_cases hid : m.id = n.id
    · rw [if_pos hid, Cluster.eq_of_id hm hmem hid]
      exact .demote [] (hmax n hmem)
    · rw [if_neg hid]
      exact .same [] m
  simp only [step, helect, Option.map_some, Option.some.injEq] at h
  subst h
  rw [show emit c (.elect id) = [⟨n.id, c.maxTerm + 1⟩] by simp [emit, helect]]
  refine ⟨⟨_, hnodes, fun m hm => ?_⟩, .inr ⟨_, rfl, hline, fun m hm => ?_, ?_⟩⟩
  · by_cases hid : m.id = n.id
    · rw [if_pos hid]
      exact ⟨hid.symm, hmax m hm, fun _ => .inr (mem_singleton_self _)⟩
    rw [if_neg hid]
    by_cases hg : m.group = n.group
    · rw [if_pos hg]
      exact .demote _ (hmax m hm)
    · rw [if_neg hg]
      exact .same _ m
  · exact Nat.lt_succ_of_le (term_le_maxTerm hm)
  · refine ⟨{ n with state := .leader, term := c.maxTerm + 1 }, ?_, rfl, rfl⟩
    rw [hnodes]
    exact mem_map.mpr ⟨n, hmem, if_pos rfl⟩

theorem clusterStep_of_step {a : Label} (h : step c a = some c') :
    ClusterStep c (emit c a) c' := by
  cases a with
  | partition ids =>
    cases h
    refine .regroup rfl rfl fun m => ?_
    by_cases hm : (m.id : Int) ∈ ids
    · exact ⟨c.nextGroup, by simp [hm]⟩
    · exact ⟨m.group, by simp [hm]⟩
  | heal =>
    cases h
    exact .regroup rfl rfl fun m => ⟨0, rfl⟩
  | elect id =>
    cases hn : c.nodes[id]? with
    | none => simp [step, Cluster.elect, hn] at h
    | some n => exact clusterStep_elect hn h
  | write id =>
    have hc : c' = c := by
      simp only [step, Option.map_eq_some_iff] at h
      obtain ⟨_, -, rfl⟩ := h
      rfl
    subst hc
    exact ⟨⟨fun m => m, (map_id' _).symm, fun m _ => .same [] m⟩, .inl ⟨rfl, rfl⟩⟩

end GoServices.Raft
