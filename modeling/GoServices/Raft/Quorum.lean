/-
On which side of a partition a leader can write.

An election needs a strict majority of the cluster, but `Write` looks at the role and the term of
the writer only.
-/
import GoServices.Raft.Cluster

namespace GoServices.Raft

open List Cluster Option

def HasMajority (c : Cluster) (i : Nat) : Prop :=
  ∃ m, c.nodes[i]? = some m ∧ c.nodes.length < 2 * c.reachable m

/-- Only nodes in a majority would be let through by `Write`. -/
def MajorityWrites (c : Cluster) : Prop :=
  ∀ i, c.write i = some (.ok ()) → HasMajority c i

/-- How many nodes are left on the side of `m` when the ids are split off. -/
def sideOf (c : Cluster) (m : Node) (ids : List Int) : Nat :=
  c.nodes.countP fun n =>
    if (m.id : Int) ∈ ids then (n.id : Int) ∈ ids
    else n.group = m.group ∧ (n.id : Int) ∉ ids

def KeepsQuorum (c : Cluster) : Label → Prop
  | .partition ids => ∀ i m, c.write i = some (.ok ()) → c.nodes[i]? = some m →
      c.nodes.length < 2 * sideOf c m ids
  | _ => True

def GroupsUsed (c : Cluster) : Prop := ∀ m ∈ c.nodes, m.group < c.nextGroup

theorem write_eq_ok {c : Cluster} {i : Nat} :
    c.write i = some (.ok ()) ↔
      ∃ m, c.nodes[i]? = some m ∧ m.state = .leader ∧ c.committedTrm ≤ m.term := by
  unfold write
  cases hm : c.nodes[i]? with
  | none => simp
  | some m =>
    by_cases hfenced : m.state ≠ .leader ∨ m.term < c.committedTrm
    · simp only [if_pos hfenced, some.injEq, reduceCtorEq, false_iff, not_exists]
      rintro m' ⟨rfl, hleader, hterm⟩
      rcases hfenced with hrole | hlt
      · exact hrole hleader
      · exact Nat.not_lt.mpr hterm hlt
    · simp only [if_neg hfenced, some.injEq, true_iff]
      simp only [not_or, not_not, Nat.not_lt] at hfenced
      exact ⟨m, rfl, hfenced⟩

/-! ## Each operation -/

section
variable {c c' : Cluster} {f : Node → Node} {m m' : Node}

theorem getElem?_map_nodes (hnodes : c'.nodes = c.nodes.map f) {i : Nat}
    (h : c'.nodes[i]? = some m') : ∃ m, c.nodes[i]? = some m ∧ m' = f m := by
  rw [hnodes, getElem?_map, map_eq_some_iff] at h
  obtain ⟨m, hm, rfl⟩ := h
  exact ⟨m, hm, rfl⟩

theorem reachable_partition (hused : GroupsUsed c) (ids : List Int) (hm : m ∈ c.nodes)
    (hm' : m' = if (m.id : Int) ∈ ids then { m with group := c.nextGroup } else m) :
    (c.partition ids).reachable m' = sideOf c m ids := by
  have hnodes : (c.partition ids).nodes =
      c.nodes.map fun n => if (n.id : Int) ∈ ids then { n with group := c.nextGroup } else n := rfl
  unfold reachable sideOf
  rw [hnodes, countP_map, hm']
  refine countP_congr fun n hn => ?_
  have hn' : n.group ≠ c.nextGroup := Nat.ne_of_lt (hused n hn)
  have hm'' : c.nextGroup ≠ m.group := Nat.ne_of_gt (hused m hm)
  by_cases hmi : (m.id : Int) ∈ ids <;> by_cases hni : (n.id : Int) ∈ ids
  · simp [hmi, hni]
  · simp [hmi, hni, hn']
  · simp [hmi, hni, hm'']
  · simp [hmi, hni]

theorem write_regroup (hnodes : c'.nodes = c.nodes.map f) (hline : c'.committedTrm = c.committedTrm)
    (hf : ∀ m, ∃ g, f m = { m with group := g }) (i : Nat) :
    c'.write i = some (.ok ()) ↔ c.write i = some (.ok ()) := by
  rw [write_eq_ok, write_eq_ok, hline]
  constructor
  · rintro ⟨m', hm', hrole, hterm⟩
    obtain ⟨m, hm, rfl⟩ := getElem?_map_nodes hnodes hm'
    obtain ⟨g, hg⟩ := hf m
    rw [hg] at hrole hterm
    exact ⟨m, hm, hrole, hterm⟩
  rintro ⟨m, hm, hrole, hterm⟩
  obtain ⟨g, hg⟩ := hf m
  refine ⟨f m, ?_, ?_⟩
  · rw [hnodes, getElem?_map, hm]
    rfl
  · rw [hg]
    exact ⟨hrole, hterm⟩

theorem partition_regroups (c : Cluster) (ids : List Int) (m : Node) :
    ∃ g, (if (m.id : Int) ∈ ids then { m with group := c.nextGroup } else m) =
      { m with group := g } := by
  by_cases hm : (m.id : Int) ∈ ids
  · exact ⟨c.nextGroup, by rw [if_pos hm]⟩
  · exact ⟨m.group, by rw [if_neg hm]⟩

theorem majorityWrites_partition (hused : GroupsUsed c) (ids : List Int) :
    MajorityWrites (c.partition ids) ↔ KeepsQuorum c (.partition ids) := by
  have hwrite : ∀ i, (c.partition ids).write i = some (.ok ()) ↔ c.write i = some (.ok ()) :=
    write_regroup rfl rfl (partition_regroups c ids)
  have hlength : (c.partition ids).nodes.length = c.nodes.length := length_map _
  constructor
  · intro h i m hw hm
    obtain ⟨m', hm', hmajority⟩ := h i ((hwrite i).mpr hw)
    obtain ⟨k, hk, hm'⟩ := getElem?_map_nodes (c := c) rfl hm'
    rw [hm] at hk
    cases hk
    rw [reachable_partition hused ids (mem_of_getElem? hm) hm', hlength] at hmajority
    exact hmajority
  · intro h i hw
    obtain ⟨m, hm, -⟩ := write_eq_ok.mp ((hwrite i).mp hw)
    refine ⟨_, by rw [show (c.partition ids).nodes = c.nodes.map _ from rfl,
      getElem?_map, hm]; rfl, ?_⟩
    rw [reachable_partition hused ids (mem_of_getElem? hm) rfl, hlength]
    exact h i m ((hwrite i).mp hw) hm

theorem majorityWrites_heal : MajorityWrites c.heal := by
  intro i hw
  obtain ⟨m, hm, -⟩ := write_eq_ok.mp hw
  refine ⟨m, hm, ?_⟩
  have hall : c.heal.reachable m = c.heal.nodes.length := by
    refine countP_eq_length.mpr fun n hn => ?_
    obtain ⟨k, -, rfl⟩ := mem_map.mp (mem_of_getElem? hm)
    obtain ⟨l, -, rfl⟩ := mem_map.mp hn
    simp
  have hpos : 0 < c.heal.nodes.length := length_pos_of_mem (mem_of_getElem? hm)
  omega

theorem reachable_of_groups (hnodes : c'.nodes = c.nodes.map f)
    (hf : ∀ m ∈ c.nodes, (f m).group = m.group) (hm : m ∈ c.nodes) :
    c'.reachable (f m) = c.reachable m := by
  unfold reachable
  rw [hnodes, countP_map, hf m hm]
  refine countP_congr fun n hn => ?_
  rw [Function.comp_apply, hf n hn]

variable {n : Node}

theorem group_lost (hn : n ∈ c.nodes) (t : Nat) : ∀ k ∈ c.nodes,
    (if k.id = n.id then { n with state := .follower, term := t } else k).group = k.group := by
  intro k hk
  by_cases hid : k.id = n.id
  · rw [if_pos hid, eq_of_id hk hn hid]
  · rw [if_neg hid]

theorem group_won (hn : n ∈ c.nodes) (t : Nat) : ∀ k ∈ c.nodes,
    (if k.id = n.id then { n with state := .leader, term := t }
      else if k.group = n.group then { k with state := .follower, term := t }
      else k).group = k.group := by
  intro k hk
  by_cases hid : k.id = n.id
  · rw [if_pos hid, eq_of_id hk hn hid]
  · rw [if_neg hid]
    split <;> rfl

theorem majorityWrites_lost {t : Nat} (hn : n ∈ c.nodes) (hc : MajorityWrites c)
    (hline : c'.committedTrm = c.committedTrm) (hnodes : c'.nodes = c.nodes.map fun m =>
      if m.id = n.id then { n with state := .follower, term := t } else m) :
    MajorityWrites c' := by
  intro i hw
  obtain ⟨m', hm', hrole, hterm⟩ := write_eq_ok.mp hw
  obtain ⟨m, hm, rfl⟩ := getElem?_map_nodes hnodes hm'
  have hne : m.id ≠ n.id := by
    intro hid
    rw [if_pos hid] at hrole
    cases hrole
  rw [if_neg hne] at hrole hterm
  obtain ⟨k, hk, hmajority⟩ := hc i (write_eq_ok.mpr ⟨m, hm, hrole, by omega⟩)
  rw [hm] at hk
  cases hk
  refine ⟨_, hm', ?_⟩
  rw [reachable_of_groups hnodes (group_lost hn t) (mem_of_getElem? hm), hnodes, length_map]
  exact hmajority

theorem majorityWrites_won (hn : n ∈ c.nodes) (hquorum : c.majority ≤ c.reachable n)
    (hline : c'.committedTrm = c.maxTerm + 1) (hnodes : c'.nodes = c.nodes.map fun m =>
      if m.id = n.id then { n with state := .leader, term := c.maxTerm + 1 }
      else if m.group = n.group then { m with state := .follower, term := c.maxTerm + 1 }
      else m) :
    MajorityWrites c' := by
  intro i hw
  obtain ⟨m', hm', hrole, hterm⟩ := write_eq_ok.mp hw
  obtain ⟨m, hm, rfl⟩ := getElem?_map_nodes hnodes hm'
  have hmem : m ∈ c.nodes := mem_of_getElem? hm
  have hid : m.id = n.id := by
    by_contra hne
    rw [if_neg hne] at hrole hterm
    by_cases hgroup : m.group = n.group
    · rw [if_pos hgroup] at hrole
      cases hrole
    rw [if_neg hgroup, hline] at hterm
    have := term_le_maxTerm hmem
    omega
  cases eq_of_id hmem hn hid
  refine ⟨_, hm', ?_⟩
  rw [reachable_of_groups hnodes (group_won hn _) hn, hnodes, length_map]
  unfold majority at hquorum
  omega

theorem step_elect_cases {id : Nat} (h : step c (.elect id) = some c') :
    ∃ n ∈ c.nodes,
      (c'.committedTrm = c.committedTrm ∧ c'.nodes = c.nodes.map fun m =>
        if m.id = n.id then { n with state := .follower, term := c.maxTerm + 1 } else m) ∨
      (c.majority ≤ c.reachable n ∧ c'.committedTrm = c.maxTerm + 1 ∧
        c'.nodes = c.nodes.map fun m =>
          if m.id = n.id then { n with state := .leader, term := c.maxTerm + 1 }
          else if m.group = n.group then { m with state := .follower, term := c.maxTerm + 1 }
          else m) := by
  cases hn : c.nodes[id]? with
  | none => simp [step, elect, hn] at h
  | some n =>
    refine ⟨n, mem_of_getElem? hn, ?_⟩
    rcases c.elect_cases hn with ⟨-, d, helect, hlost⟩ | ⟨hquorum, d, won, helect, rfl, hwon⟩
    · simp only [step, helect, map_some, some.injEq] at h
      subst h
      exact .inl hlost
    simp only [step, helect, map_some, some.injEq] at h
    subst h
    exact .inr ⟨hquorum, hwon⟩

theorem majorityWrites_elect {id : Nat} (h : step c (.elect id) = some c') (hc : MajorityWrites c) :
    MajorityWrites c' := by
  obtain ⟨n, hn, ⟨hline, hnodes⟩ | ⟨hquorum, hline, hnodes⟩⟩ := step_elect_cases h
  · exact majorityWrites_lost hn hc hline hnodes
  · exact majorityWrites_won hn hquorum hline hnodes

end

/-! ## Runs -/

variable {c c' : Cluster}

theorem nextGroup_elect {id : Nat} (h : step c (.elect id) = some c') :
    c'.nextGroup = c.nextGroup := by
  simp only [step, map_eq_some_iff] at h
  obtain ⟨r, hr, rfl⟩ := h
  unfold elect at hr
  split at hr <;> try cases hr
  dsimp only at hr
  split at hr <;> cases hr <;> rfl

theorem groups_elect {id : Nat} (h : step c (.elect id) = some c') :
    ∀ m' ∈ c'.nodes, ∃ m ∈ c.nodes, m'.group = m.group := by
  intro m' hm'
  obtain ⟨n, hn, ⟨-, hnodes⟩ | ⟨-, -, hnodes⟩⟩ := step_elect_cases h
  · rw [hnodes] at hm'
    obtain ⟨m, hm, rfl⟩ := mem_map.mp hm'
    exact ⟨m, hm, group_lost hn _ m hm⟩
  rw [hnodes] at hm'
  obtain ⟨m, hm, rfl⟩ := mem_map.mp hm'
  exact ⟨m, hm, group_won hn _ m hm⟩

theorem groupsUsed_step {a : Label} (hc : GroupsUsed c) (h : step c a = some c') :
    GroupsUsed c' := by
  intro m' hm'
  cases a with
  | partition ids =>
    cases h
    obtain ⟨m, hm, rfl⟩ := mem_map.mp hm'
    show _ < c.nextGroup + 1
    have := hc m hm
    split
    · exact Nat.lt_succ_self _
    · omega
  | heal =>
    cases h
    obtain ⟨m, hm, rfl⟩ := mem_map.mp hm'
    exact Nat.lt_of_le_of_lt (Nat.zero_le _) (hc m hm)
  | elect id =>
    obtain ⟨m, hm, hgroup⟩ := groups_elect h m' hm'
    rw [hgroup, nextGroup_elect h]
    exact hc m hm
  | write id =>
    simp only [step, map_eq_some_iff] at h
    obtain ⟨_, -, rfl⟩ := h
    exact hc m' hm'

theorem majorityWrites_step {a : Label} (hused : GroupsUsed c) (hc : MajorityWrites c)
    (h : step c a = some c') :
    MajorityWrites c' ↔ KeepsQuorum c a := by
  cases a with
  | partition ids =>
    cases h
    exact majorityWrites_partition hused ids
  | heal =>
    cases h
    exact iff_of_true majorityWrites_heal trivial
  | elect id => exact iff_of_true (majorityWrites_elect h hc) trivial
  | write id =>
    simp only [step, map_eq_some_iff] at h
    obtain ⟨_, -, rfl⟩ := h
    exact iff_of_true hc trivial

theorem groupsUsed_new (n : Nat) : GroupsUsed (.new n) := by
  intro m hm
  obtain ⟨i, -, rfl⟩ := mem_map.mp hm
  exact Nat.zero_lt_one

theorem majorityWrites_new (n : Nat) : MajorityWrites (.new n) := by
  intro i hw
  obtain ⟨m, hm, hrole, -⟩ := write_eq_ok.mp hw
  obtain ⟨k, -, rfl⟩ := mem_map.mp (mem_of_getElem? hm)
  cases hrole

/-- In all states that a run of a new cluster passes only nodes of a majority would be let
through by `Write`, exactly when every `Partition` of the run leaves the node that can
write at that moment on a side with a strict majority of the cluster. -/
theorem majority_writes_iff (n : Nat) (as : List Label) :
    (∀ bs, bs <+: as → ∀ c, run step (.new n) bs = some c →
      ∀ i, c.write i = some (.ok ()) → HasMajority c i) ↔
    RunMeets step KeepsQuorum (.new n) as := by
  refine prefixes_iff_meets (I := GroupsUsed) (P := MajorityWrites)
    (fun c a c' hc h => groupsUsed_step hc h)
    (fun c a c' hused hc h => majorityWrites_step hused hc h) (fun c a h => ?_)
    (groupsUsed_new n) (majorityWrites_new n) as
  cases a with
  | partition ids => cases h
  | heal | elect id | write id => trivial

/-- A leader that was cut off alone writes on. -/
theorem minority_leader_writes :
    ∃ c ∈ run step (.new 3) [.elect 0, .partition [0]],
      c.write 0 = some (.ok ()) ∧ ∃ m, c.nodes[0]? = some m ∧ c.reachable m = 1 ∧
        ¬ c.nodes.length < 2 * c.reachable m := by
  decide

end GoServices.Raft
