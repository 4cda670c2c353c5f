/-
Vector clocks, and that comparing two of them decides the causal order.

`tick`, `merge`, `snapshot` and `compare` follow the source; a node that a map does not name
reads as zero.
-/
import GoServices.Base.Causality
import GoServices.Base.CountMap
import GoServices.Base.Run

namespace GoServices.Clocks

open List

/-- `Ordering`, the result of comparing two vector clocks. -/
inductive Ordering
  | equal
  | before
  | after
  | concurrent
  deriving DecidableEq

structure VectorClock where
  node : String
  vec : Table String Nat

namespace VectorClock

def new (node : String) : VectorClock := { node := node, vec := .empty }

def tick (v : VectorClock) : VectorClock :=
  { v with vec := v.vec.set v.node (v.vec.read v.node + 1) }

def merge (v other : VectorClock) : VectorClock :=
  tick { v with vec := v.vec.raise other.vec.toList }

/-- `Snapshot` copies the map, so that later ticks do not show in it. -/
def snapshot (v : VectorClock) : Table String Nat := v.vec

end VectorClock

variable (a b : Table String Nat)

/-- `Compare(a, b)`: the two flags after the loop over the union of the keys. -/
def compare : Ordering :=
  let seen := a.keys ∪ b.keys
  let flags := seen.foldl (fun (flags : Bool × Bool) k =>
    if a.read k > b.read k then (true, flags.2)
    else if a.read k < b.read k then (flags.1, true)
    else flags) (false, false)
  match flags with
  | (true, true) => .concurrent
  | (true, false) => .after
  | (false, true) => .before
  | (false, false) => .equal

/-! ## What the operations do to the counts -/

theorem read_tick (v : VectorClock) (k : String) :
    v.tick.vec.read k = if k = v.node then v.vec.read k + 1 else v.vec.read k := by
  unfold VectorClock.tick
  rw [Table.read_set]
  by_cases h : k = v.node
  · rw [if_pos h, if_pos h, h]
  · rw [if_neg h, if_neg h]

theorem read_merge (v other : VectorClock) (k : String) :
    (v.merge other).vec.read k = if k = v.node then max (v.vec.read k) (other.vec.read k) + 1
      else max (v.vec.read k) (other.vec.read k) := by
  rw [VectorClock.merge, read_tick, Table.read_raise]

theorem compare_flags (seen : List String) (x y : Bool) :
    seen.foldl (fun (flags : Bool × Bool) k =>
      if a.read k > b.read k then (true, flags.2)
      else if a.read k < b.read k then (flags.1, true)
      else flags) (x, y) =
    (x || seen.any fun k => b.read k < a.read k,
      y || seen.any fun k => a.read k < b.read k) := by
  induction seen generalizing x y with
  | nil => simp
  | cons k seen ih =>
    rw [foldl_cons]
    rcases Nat.lt_trichotomy (a.read k) (b.read k) with hlt | heq | hgt
    · rw [if_neg (by omega), if_pos hlt, ih]
      simp [hlt, Nat.not_lt_of_gt hlt]
    · rw [if_neg (by omega), if_neg (by omega), ih]
      simp [heq]
    · rw [if_pos hgt, ih]
      simp [hgt, Nat.not_lt_of_gt hgt]

theorem not_any_lt_iff (seen : List String)
    (hseen : ∀ k, k ∈ a.keys → k ∈ seen) :
    (seen.any fun k => b.read k < a.read k) = false ↔ ∀ k, a.read k ≤ b.read k := by
  simp only [any_eq_false, decide_eq_true_eq, Nat.not_lt]
  refine ⟨fun h k => ?_, fun h k _ => h k⟩
  by_cases hk : k ∈ a.keys
  · exact h k (hseen k hk)
  rw [Table.read_of_notMem_keys hk]
  exact Nat.zero_le _

theorem compare_eq :
    (compare a b = .equal ↔ (∀ k, a.read k ≤ b.read k) ∧ ∀ k, b.read k ≤ a.read k) ∧
    (compare a b = .before ↔ (∀ k, a.read k ≤ b.read k) ∧ ¬ ∀ k, b.read k ≤ a.read k) ∧
    (compare a b = .after ↔ (¬ ∀ k, a.read k ≤ b.read k) ∧ ∀ k, b.read k ≤ a.read k) ∧
    (compare a b = .concurrent ↔
      (¬ ∀ k, a.read k ≤ b.read k) ∧ ¬ ∀ k, b.read k ≤ a.read k) := by
  have hab := not_any_lt_iff a b (a.keys ∪ b.keys) fun k hk =>
    mem_union_iff.mpr (.inl hk)
  have hba := not_any_lt_iff b a (a.keys ∪ b.keys) fun k hk =>
    mem_union_iff.mpr (.inr hk)
  rw [← hab, ← hba]
  unfold compare
  simp only [compare_flags, Bool.false_or]
  generalize ((a.keys ∪ b.keys).any fun k => decide (b.read k < a.read k)) = aGreater
  generalize ((a.keys ∪ b.keys).any fun k => decide (a.read k < b.read k)) = bGreater
  cases aGreater <;> cases bGreater <;> decide

/-! ## Distributed runs -/

inductive Kind
  | tick
  | send
  | receive (message : Nat)
  deriving DecidableEq

structure Event where
  node : String
  kind : Kind
  clock : Table String Nat

def Event.source (e : Event) : Option Nat :=
  match e.kind with
  | .receive message => some message
  | _ => none

structure State where
  clocks : String → VectorClock
  events : List Event

def State.initial : State := { clocks := VectorClock.new, events := [] }

inductive Label
  | tick (node : String)
  | send (node : String)
  | receive (node : String) (message : Nat)

/-- Give a node the clock `v` and record the event. -/
def State.record (s : State) (node : String) (kind : Kind) (v : VectorClock) : State where
  clocks n := if n = node then v else s.clocks n
  events := s.events ++ [{ node := node, kind := kind, clock := v.snapshot }]

def step (s : State) : Label → Option State
  | .tick node => some (s.record node .tick (s.clocks node).tick)
  | .send node => some (s.record node .send (s.clocks node).tick)
  | .receive node message =>
    match s.events[message]? with
    | some e =>
      if e.kind = .send then
        let other : VectorClock := { node := e.node, vec := e.clock }
        some (s.record node (.receive message) ((s.clocks node).merge other))
      else none
    | none => none

/-- What one step does: the node's clock `v` is ahead by one in its own component,
and elsewhere it is the larger of the node's count and what the message shows. -/
structure Records (s : State) (node : String) (kind : Kind) (v : VectorClock) (s' : State) :
    Prop where
  state : s' = s.record node kind v
  node_eq : v.node = (s.clocks node).node
  le : ∀ k, (s.clocks node).vec.read k ≤ v.vec.read k
  own : (s.clocks node).vec.read (s.clocks node).node < v.vec.read (s.clocks node).node
  message : ∀ i, kind = .receive i →
    ∃ e, s.events[i]? = some e ∧ ∀ k, e.clock.read k ≤ v.vec.read k
  from_old : ∀ k, k ≠ (s.clocks node).node → v.vec.read k = (s.clocks node).vec.read k ∨
    ∃ i e, kind = .receive i ∧ s.events[i]? = some e ∧ e.clock.read k = v.vec.read k

variable {kind : Kind} {s s' : State}

theorem records_of_tick (s : State) (node : String) (hk : ∀ i, kind ≠ .receive i) :
    Records s node kind (s.clocks node).tick (s.record node kind (s.clocks node).tick) where
  state := rfl
  node_eq := rfl
  le k := by
    rw [read_tick]
    split <;> omega
  own := by
    rw [read_tick, if_pos rfl]
    omega
  message i hi := absurd hi (hk i)
  from_old k hne := .inl (by rw [read_tick, if_neg hne])

theorem records_of_step {a : Label} (h : step s a = some s') :
    ∃ node kind v, Records s node kind v s' := by
  cases a with
  | tick node | send node =>
    cases h
    exact ⟨_, _, _, records_of_tick s node fun _ => Kind.noConfusion⟩
  | receive node message =>
    simp only [step] at h
    split at h <;> try cases h
    rename_i e he
    split at h <;> cases h
    refine ⟨node, .receive message, _, rfl, rfl, fun k => ?_, ?_, ?_, fun k hne => ?_⟩
    · rw [read_merge]
      split <;> omega
    · rw [read_merge, if_pos rfl]
      omega
    · rintro i ⟨rfl⟩
      refine ⟨e, he, fun k => ?_⟩
      rw [read_merge]
      have := Nat.le_max_right ((s.clocks node).vec.read k) (e.clock.read k)
      split
      · exact Nat.le_succ_of_le this
      · exact this
    · rw [read_merge, if_neg hne]
      rcases Nat.le_total ((s.clocks node).vec.read k) (e.clock.read k) with hle | hle
      · exact .inr ⟨message, e, rfl, he, (Nat.max_eq_right hle).symm⟩
      · exact .inl (Nat.max_eq_left hle)

structure Inv (s : State) : Prop where
  stamped : Stamped Event.node Event.source (fun e => e.clock.read) s.events
  node : ∀ n, (s.clocks n).node = n
  above : ∀ e ∈ s.events, ∀ k, e.clock.read k ≤ (s.clocks e.node).vec.read k
  shown : ∀ n k, 0 < (s.clocks n).vec.read k →
    ∃ e ∈ s.events, e.node = n ∧ e.clock.read k = (s.clocks n).vec.read k

theorem inv_initial : Inv State.initial where
  stamped := stamped_nil _
  node _ := rfl
  above e he := by cases he
  shown n k h := absurd h (Nat.lt_irrefl 0)

theorem inv_records {node : String} {v : VectorClock} (hs : Inv s)
    (h : Records s node kind v s') : Inv s' := by
  obtain ⟨rfl, hnode, hle, hown, hmessage, hfrom⟩ := h
  rw [hs.node] at hnode hown hfrom
  refine ⟨hs.stamped.append ?_ ?_ ?_ ?_, fun n => ?_, ?_, fun n k hpos => ?_⟩
  · rintro i e hi (hsame | hsource) k
    · have habove := hs.above e (mem_iff_getElem?.mpr ⟨i, hi⟩) k
      rw [hsame] at habove
      exact Nat.le_trans habove (hle k)
    cases kind with
    | tick | send => cases hsource
    | receive j =>
      cases hsource
      obtain ⟨e', he', hle'⟩ := hmessage i rfl
      rw [hi] at he'
      cases he'
      exact hle' k
  · exact Nat.lt_of_le_of_lt (Nat.zero_le _) hown
  · intro e he hsame
    have habove := hs.above e he node
    rw [hsame] at habove
    exact Nat.lt_of_le_of_lt habove hown
  · intro k hne hpos
    rcases hfrom k hne with heq | ⟨i, e, hk, hi, heq⟩
    · obtain ⟨e, he, hsame, hshown⟩ := hs.shown node k (heq ▸ hpos)
      obtain ⟨i, hi⟩ := mem_iff_getElem?.mp he
      exact ⟨i, e, hi, hshown.trans heq.symm, .inl hsame⟩
    · exact ⟨i, e, hi, heq, .inr (by simp only [Event.source, hk])⟩
  · by_cases hn : n = node
    · simp only [State.record, if_pos hn]
      rw [hnode, hn]
    · simp only [State.record, if_neg hn]
      exact hs.node n
  · exact held_concat
      (R := fun (e : Event) (c : VectorClock) => ∀ k, e.clock.read k ≤ c.vec.read k) hs.above
      (fun _ habove k => (habove k).trans (hle k)) fun _ => Nat.le_refl _
  by_cases hn : n = node
  · refine ⟨_, mem_concat_self, hn.symm, ?_⟩
    simp only [State.record, if_pos hn]
    rfl
  · simp only [State.record, if_neg hn] at hpos ⊢
    obtain ⟨e, he, hsame, hshown⟩ := hs.shown n k hpos
    exact ⟨e, mem_append_left _ he, hsame, hshown⟩

theorem inv_run {as : List Label} (h : run step State.initial as = some s) : Inv s := by
  refine run_invariant (fun s a s' hs hstep => ?_) inv_initial h
  obtain ⟨node, kind, v, hrec⟩ := records_of_step hstep
  exact inv_records hs hrec

/-- For any two events of any run, the clocks compare as the events are causally
ordered. -/
theorem compare_iff_happened_before {as : List Label} {s : State}
    (h : run step State.initial as = some s) {i j : Nat} {e f : Event}
    (hi : s.events[i]? = some e) (hj : s.events[j]? = some f) :
    (compare e.clock f.clock = .before ↔ HappenedBefore Event.node Event.source s.events i j) ∧
    (compare e.clock f.clock = .after ↔ HappenedBefore Event.node Event.source s.events j i) ∧
    (compare e.clock f.clock = .equal ↔ i = j) ∧
    (compare e.clock f.clock = .concurrent ↔ ¬ HappenedBefore Event.node Event.source s.events i j ∧
      ¬ HappenedBefore Event.node Event.source s.events j i ∧ i ≠ j) := by
  have hs := (inv_run h).stamped
  obtain ⟨hequal, hbefore, hafter, hconcurrent⟩ := compare_eq e.clock f.clock
  rw [hequal, hbefore, hafter, hconcurrent, hs.le_iff hi hj, hs.le_iff hj hi]
  have hirrefl : ∀ k, ¬ HappenedBefore Event.node Event.source s.events k k :=
    fun k hk => Nat.lt_irrefl k hk.lt
  have hasymm : HappenedBefore Event.node Event.source s.events i j →
      ¬ HappenedBefore Event.node Event.source s.events j i :=
    fun hij hji => Nat.lt_asymm hij.lt hji.lt
  rw [causalPast_iff, causalPast_iff]
  by_cases hij : i = j
  · subst hij
    simp [hirrefl]
  have hji : j ≠ i := fun hji => hij hji.symm
  simp only [hij, hji, false_or]
  by_cases hlt : HappenedBefore Event.node Event.source s.events i j
  · simp [hlt, hasymm hlt]
  · by_cases hgt : HappenedBefore Event.node Event.source s.events j i <;>
      simp [hlt, hgt, hij]

theorem compare_iff_happened_before_message :
    ∃ s ∈ run step State.initial [.send "a", .tick "b", .receive "b" 0],
      ∃ e ∈ s.events[0]?, ∃ f ∈ s.events[1]?, ∃ g ∈ s.events[2]?,
        ¬ HappenedBefore Event.node Event.source s.events 0 1 ∧
        HappenedBefore Event.node Event.source s.events 0 2 := by
  refine exists_some_imp (A := fun s => ∃ e ∈ s.events[0]?, ∃ f ∈ s.events[1]?,
    ∃ g ∈ s.events[2]?, compare e.clock f.clock = .concurrent ∧ compare e.clock g.clock = .before)
    (by decide) fun s hs ⟨e, he, f, hf, g, hg, hef, heg⟩ => ?_
  refine ⟨e, he, f, hf, g, hg, ?_, ?_⟩
  · exact ((compare_iff_happened_before hs he hf).2.2.2.mp hef).1
  · exact (compare_iff_happened_before hs he hg).1.mp heg

end GoServices.Clocks
