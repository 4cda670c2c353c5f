/-
Grow-only counters, and what replicas of them agree on.

A counter has a slot for each node, `Merge` takes the larger count slot by slot, and `Value` is
the sum.
-/
import GoServices.Base.Causality
import GoServices.Base.CountMap
import GoServices.Base.Run

namespace GoServices.Replication

open List

structure GCounter where
  counts : Table String Nat

namespace GCounter

def new : GCounter := { counts := .empty }

variable (g : GCounter)

/-- `Inc`; a slot is a `uint64`. -/
def inc (node : String) (n : Nat) : GCounter :=
  { counts := g.counts.set node ((g.counts.read node + n) % 2 ^ 64) }

def value : Nat :=
  g.counts.toList.foldl (fun sum e => (sum + e.2) % 2 ^ 64) 0

/-- `Merge`: the loop over the entries of the other counter. -/
def merge (g other : GCounter) : GCounter := { counts := g.counts.raise other.counts.toList }

def slot (node : String) : Nat := g.counts.read node

theorem slot_inc (node : String) (n : Nat) (k : String) :
    (g.inc node n).slot k = if k = node then (g.slot k + n) % 2 ^ 64 else g.slot k := by
  unfold slot inc
  rw [Table.read_set]
  by_cases h : k = node
  · rw [if_pos h, if_pos h, h]
  · rw [if_neg h, if_neg h]

theorem slot_merge (g other : GCounter) (k : String) :
    (g.merge other).slot k = max (g.slot k) (other.slot k) :=
  Table.read_raise g.counts other.counts k

theorem slot_merge_comm (g h : GCounter) (k : String) :
    (g.merge h).slot k = (h.merge g).slot k := by
  rw [slot_merge, slot_merge, Nat.max_comm]

theorem slot_merge_assoc (g h i : GCounter) (k : String) :
    ((g.merge h).merge i).slot k = (g.merge (h.merge i)).slot k := by
  rw [slot_merge, slot_merge, slot_merge, slot_merge, Nat.max_assoc]

theorem slot_merge_self (k : String) : (g.merge g).slot k = g.slot k := by
  rw [slot_merge, Nat.max_self]

theorem value_eq : g.value = g.counts.total (fun _ c => c) % 2 ^ 64 := by
  have hfold : ∀ (l : List (String × Nat)) (a : Nat),
      l.foldl (fun sum e => (sum + e.2) % 2 ^ 64) (a % 2 ^ 64) =
        (a + (l.map Prod.snd).sum) % 2 ^ 64 := by
    intro l
    induction l with
    | nil => exact fun a => rfl
    | cons e l ih =>
      intro a
      rw [foldl_cons, Nat.mod_add_mod, ih, map_cons, sum_cons, Nat.add_assoc]
  have hzero := hfold g.counts.toList 0
  rw [Nat.zero_mod, Nat.zero_add] at hzero
  rw [value, hzero, Table.total, Table.toList, map_map]
  rfl

theorem value_eq_sum {g : GCounter} {S : Finset String} (hS : ∀ k, k ∉ S → g.slot k = 0)
    (hwrap : ∑ k ∈ S, g.slot k < 2 ^ 64) : g.value = ∑ k ∈ S, g.slot k := by
  rw [value_eq, Table.total_eq_sum hS]
  exact Nat.mod_eq_of_lt hwrap

end GCounter

/-! ## Runs of replicas -/

namespace Replicas

inductive Label
  | inc (node : String) (n : Nat)
  | snapshot (node : String)
  /-- A snapshot is named by the position of its label in the run. -/
  | merge (node : String) (message : Nat)

namespace Label

def node : Label → String
  | .inc node _ | .snapshot node | .merge node _ => node

def source : Label → Option Nat
  | .merge _ message => some message
  | _ => none

def amount : Label → Nat
  | .inc _ n => n
  | _ => 0

end Label

/-- A label with the counter that its node has after it. -/
structure Event where
  label : Label
  counter : GCounter

structure State where
  counters : String → GCounter
  events : List Event

namespace State

def initial : State := { counters := fun _ => .new, events := [] }

def labels (s : State) : List Label := s.events.map Event.label

/-- Give the node of a label the counter `g`. -/
def record (s : State) (a : Label) (g : GCounter) : State where
  counters n := if n = a.node then g else s.counters n
  events := s.events ++ [⟨a, g⟩]

theorem counters_record (s : State) (a : Label) (g : GCounter) (n : String) :
    (s.record a g).counters n = if n = a.node then g else s.counters n := rfl

theorem labels_record (s : State) (a : Label) (g : GCounter) :
    (s.record a g).labels = s.labels ++ [a] :=
  map_append

end State

def step (s : State) (a : Label) : Option State :=
  match a with
  | .inc node n => some (s.record a ((s.counters node).inc node n))
  | .snapshot node => some (s.record a (s.counters node))
  | .merge node message =>
    match s.events[message]? with
    | some ⟨.snapshot _, g⟩ => some (s.record a ((s.counters node).merge g))
    | _ => none

def increments (as : List Label) : Nat := (as.map Label.amount).sum

def incrementsOf (as : List Label) (node : String) : Nat :=
  (as.map fun a => if a.node = node then a.amount else 0).sum

theorem increments_concat (as : List Label) (a : Label) :
    increments (as ++ [a]) = increments as + a.amount := by
  simp [increments]

theorem incrementsOf_concat (as : List Label) (a : Label) (node : String) :
    incrementsOf (as ++ [a]) node =
      incrementsOf as node + if a.node = node then a.amount else 0 := by
  simp [incrementsOf]

variable {as : List Label}

theorem sum_incrementsOf {S : Finset String} (hS : ∀ a ∈ as, a.node ∈ S) :
    ∑ k ∈ S, incrementsOf as k = increments as := by
  induction as with
  | nil => simp [incrementsOf, increments]
  | cons a as ih =>
    have hrest := ih fun b hb => hS b (mem_cons_of_mem _ hb)
    simp only [incrementsOf, increments, map_cons, sum_cons] at hrest ⊢
    rw [Finset.sum_add_distrib, hrest, Finset.sum_ite_eq, if_pos (hS a mem_cons_self)]

theorem incrementsOf_le (as : List Label) (node : String) :
    incrementsOf as node ≤ increments as := by
  induction as with
  | nil => exact Nat.le_refl _
  | cons a as ih =>
    simp only [incrementsOf, increments, map_cons, sum_cons] at ih ⊢
    split <;> omega

structure Inv (s : State) : Prop where
  own : ∀ n, (s.counters n).slot n = incrementsOf s.labels n
  le : ∀ r n, (s.counters r).slot n ≤ incrementsOf s.labels n
  along : Along (Label.node ∘ Event.label) (Label.source ∘ Event.label)
    (fun e f => ∀ n, e.counter.slot n ≤ f.counter.slot n) s.events
  above : ∀ e ∈ s.events, ∀ n, e.counter.slot n ≤ (s.counters e.label.node).slot n
  ownAt : ∀ (i : Nat) (e : Event), s.events[i]? = some e →
    e.counter.slot e.label.node = incrementsOf (s.labels.take (i + 1)) e.label.node

theorem inv_initial : Inv State.initial where
  own _ := rfl
  le _ _ := Nat.le_refl _
  along := along_nil _
  above e he := by cases he
  ownAt i e he := by cases he

variable {s s' : State} {a : Label} {g : GCounter}

/-- What a step makes of the counter of the label's node. -/
structure Grows (s : State) (a : Label) (g : GCounter) : Prop where
  own : g.slot a.node = (s.counters a.node).slot a.node + a.amount
  mono : ∀ n, (s.counters a.node).slot n ≤ g.slot n
  other : ∀ n, n ≠ a.node → g.slot n ≤ incrementsOf s.labels n
  message : ∀ i e, a.source = some i → s.events[i]? = some e → ∀ n, e.counter.slot n ≤ g.slot n

theorem Inv.record (hs : Inv s) (hg : Grows s a g) : Inv (s.record a g) := by
  have hsum : ∀ n, incrementsOf (s.record a g).labels n =
      incrementsOf s.labels n + if a.node = n then a.amount else 0 := by
    intro n
    rw [State.labels_record, incrementsOf_concat]
  have hnode : g.slot a.node = incrementsOf (s.record a g).labels a.node := by
    rw [hsum, if_pos rfl, hg.own, hs.own]
  have hmono : ∀ n, incrementsOf s.labels n ≤ incrementsOf (s.record a g).labels n := by
    intro n
    rw [hsum]
    exact Nat.le_add_right _ _
  refine ⟨fun n => ?_, fun r n => ?_, hs.along.concat ?_, ?_, fun i e he => ?_⟩
  · by_cases hn : n = a.node
    · rw [hn, ← hnode, State.counters_record, if_pos rfl]
    · rw [hsum, if_neg (Ne.symm hn), Nat.add_zero, ← hs.own n, State.counters_record, if_neg hn]
  · rw [State.counters_record]
    split
    · by_cases hn : n = a.node
      · rw [hn]
        exact hnode.le
      · exact (hg.other n hn).trans (hmono n)
    · exact (hs.le r n).trans (hmono n)
  · rintro i e ⟨hi, hsame | hsource⟩ n
    · have habove := hs.above e (mem_of_getElem? hi) n
      rw [show e.label.node = a.node from hsame] at habove
      exact habove.trans (hg.mono n)
    · exact hg.message i e hsource hi n
  · exact held_concat
      (R := fun (e : Event) (c : GCounter) => ∀ n, e.counter.slot n ≤ c.slot n) hs.above
      (fun _ habove n => (habove n).trans (hg.mono n)) fun _ => Nat.le_refl _
  rw [State.labels_record]
  rcases getElem?_concat_cases he with hold | ⟨rfl, rfl⟩
  · have hlt : i < s.labels.length := by simpa [State.labels] using lt_length_of_getElem? hold
    rw [take_append_of_le_length hlt]
    exact hs.ownAt i e hold
  · rw [take_of_length_le (by simp [State.labels]), ← State.labels_record s a g]
    exact hnode

section
variable (hs : Inv s)
include hs

theorem grows_inc {node : String} {n : Nat}
    (hwrap : increments (s.labels ++ [.inc node n]) < 2 ^ 64) :
    Grows s (.inc node n) ((s.counters node).inc node n) := by
  have hsum : (s.counters node).slot node + n < 2 ^ 64 := by
    have hslot := hs.le node node
    have hle := incrementsOf_le s.labels node
    rw [increments_concat, Label.amount] at hwrap
    omega
  refine ⟨?_, fun k => ?_, fun k hk => ?_, nofun⟩
  · rw [Label.node, GCounter.slot_inc, if_pos rfl, Nat.mod_eq_of_lt hsum]
    rfl
  · rw [Label.node, GCounter.slot_inc]
    split
    · rename_i hk
      rw [hk, Nat.mod_eq_of_lt hsum]
      exact Nat.le_add_right _ _
    · exact Nat.le_refl _
  · rw [GCounter.slot_inc, if_neg (show k ≠ node from hk)]
    exact hs.le node k

theorem grows_merge {node : String} {message : Nat} {e : Event} (he : s.events[message]? = some e) :
    Grows s (.merge node message) ((s.counters node).merge e.counter) := by
  have hseen : ∀ k, e.counter.slot k ≤ incrementsOf s.labels k := fun k =>
    (hs.above e (mem_of_getElem? he) k).trans (hs.le e.label.node k)
  refine ⟨?_, fun k => ?_, fun k _ => ?_, ?_⟩
  · have hown := hseen node
    rw [← hs.own node] at hown
    rw [GCounter.slot_merge]
    exact Nat.max_eq_left hown
  · rw [GCounter.slot_merge]
    exact Nat.le_max_left _ _
  · rw [GCounter.slot_merge]
    exact Nat.max_le.mpr ⟨hs.le node k, hseen k⟩
  rintro i d ⟨rfl⟩ hd k
  cases he.symm.trans hd
  rw [GCounter.slot_merge]
  exact Nat.le_max_right _ _

end

theorem step_eq_some (h : step s a = some s') :
    ∃ g, s' = s.record a g ∧ (Inv s → increments s'.labels < 2 ^ 64 → Grows s a g) := by
  cases a with
  | inc node n =>
    cases h
    refine ⟨_, rfl, fun hs hwrap => grows_inc hs ?_⟩
    rwa [State.labels_record] at hwrap
  | snapshot node =>
    cases h
    exact ⟨_, rfl, fun hs _ => ⟨rfl, fun _ => Nat.le_refl _, fun k _ => hs.le node k, nofun⟩⟩
  | merge node message =>
    simp only [step] at h
    split at h <;> cases h
    rename_i he
    exact ⟨_, rfl, fun hs _ => grows_merge hs he⟩

theorem increments_step (h : step s a = some s') : increments s.labels ≤ increments s'.labels := by
  obtain ⟨g, rfl, -⟩ := step_eq_some h
  rw [State.labels_record, increments_concat]
  exact Nat.le_add_right _ _

theorem inv_step (hs : increments s.labels < 2 ^ 64 → Inv s) (h : step s a = some s')
    (hwrap : increments s'.labels < 2 ^ 64) : Inv s' := by
  have hinv := hs ((increments_step h).trans_lt hwrap)
  obtain ⟨g, rfl, hgrows⟩ := step_eq_some h
  exact hinv.record (hgrows hinv hwrap)

theorem run_labels (h : run step s as = some s') : s'.labels = s.labels ++ as := by
  refine run_history (I := fun t past => t.labels = past)
    (fun t past a t' ht _ hstep => ?_) rfl (runMeets_true s as) h
  obtain ⟨g, rfl, -⟩ := step_eq_some hstep
  rw [State.labels_record, ht]

theorem inv_run (hs : increments s.labels < 2 ^ 64 → Inv s) (h : run step s as = some s')
    (hwrap : increments s'.labels < 2 ^ 64) : Inv s' :=
  run_invariant (I := fun s => increments s.labels < 2 ^ 64 → Inv s)
    (fun _ _ _ => inv_step) hs h hwrap

/-- No slot of any replica becomes smaller. -/
theorem slot_run (hs : increments s.labels < 2 ^ 64 → Inv s) (h : run step s as = some s')
    (hwrap : increments s'.labels < 2 ^ 64) (r n : String) :
    (s.counters r).slot n ≤ (s'.counters r).slot n := by
  have hrel := run_relates (I := fun s => increments s.labels < 2 ^ 64 → Inv s)
    (R := fun s s' => increments s.labels ≤ increments s'.labels ∧
      (increments s'.labels < 2 ^ 64 → (s.counters r).slot n ≤ (s'.counters r).slot n))
    (fun _ _ _ => inv_step) (fun s a s' hs h => ⟨increments_step h, fun hwrap => ?_⟩)
    (fun s => ⟨Nat.le_refl _, fun _ => Nat.le_refl _⟩)
    (fun hst htu => ⟨hst.1.trans htu.1, fun hwrap =>
      (hst.2 (htu.1.trans_lt hwrap)).trans (htu.2 hwrap)⟩) hs h
  · exact hrel.2 hwrap
  have hinv := hs ((increments_step h).trans_lt hwrap)
  obtain ⟨g, rfl, hgrows⟩ := step_eq_some h
  rw [State.counters_record]
  split
  · rename_i hr
    rw [hr]
    exact (hgrows hinv hwrap).mono n
  · exact Nat.le_refl _

/-! ## Values -/

def nodes (as : List Label) : Finset String := (as.map Label.node).toFinset

theorem mem_nodes (ha : a ∈ as) : a.node ∈ nodes as :=
  mem_toFinset.mpr (mem_map_of_mem ha)

theorem incrementsOf_eq_zero {n : String} (hn : n ∉ nodes as) :
    incrementsOf as n = 0 := by
  refine sum_eq_zero fun x hx => ?_
  obtain ⟨a, ha, rfl⟩ := mem_map.mp hx
  refine if_neg fun heq => hn ?_
  rw [← heq]
  exact mem_nodes ha

theorem value_eq_of_le (hwrap : increments as < 2 ^ 64) (hle : ∀ n, g.slot n ≤ incrementsOf as n) :
    g.value = ∑ n ∈ nodes as, g.slot n ∧ g.value ≤ increments as := by
  have hsum : ∑ n ∈ nodes as, g.slot n ≤ increments as := by
    rw [← sum_incrementsOf fun a ha => mem_nodes ha]
    exact Finset.sum_le_sum fun n _ => hle n
  have hvalue : g.value = ∑ n ∈ nodes as, g.slot n := by
    refine GCounter.value_eq_sum (fun n hn => ?_) (Nat.lt_of_le_of_lt hsum hwrap)
    have := hle n
    rw [incrementsOf_eq_zero hn] at this
    omega
  exact ⟨hvalue, by rw [hvalue]; exact hsum⟩

theorem value_le_value {h : GCounter} (hwrap : increments as < 2 ^ 64)
    (hgh : ∀ n, g.slot n ≤ h.slot n) (hh : ∀ n, h.slot n ≤ incrementsOf as n) :
    g.value ≤ h.value := by
  rw [(value_eq_of_le hwrap hh).1, (value_eq_of_le hwrap fun n => Nat.le_trans (hgh n) (hh n)).1]
  exact Finset.sum_le_sum fun n _ => hgh n

theorem incrementsOf_le_of_take {n : String} {b : Nat}
    (h : ∀ (i : Nat) (a : Label), as[i]? = some a → a.node = n → a.amount ≠ 0 →
      incrementsOf (as.take (i + 1)) n ≤ b) : incrementsOf as n ≤ b := by
  induction as using List.reverseRecOn with
  | nil => exact Nat.zero_le _
  | append_singleton as a ih =>
    by_cases ha : a.node = n ∧ a.amount ≠ 0
    · have hlast := h as.length a getElem?_concat_length ha.1 ha.2
      rw [take_of_length_le (by simp)] at hlast
      exact hlast
    have hsame : incrementsOf (as ++ [a]) n = incrementsOf as n := by
      rw [incrementsOf_concat]
      split
      · rename_i hn
        have : a.amount = 0 := by
          by_contra hne
          exact ha ⟨hn, hne⟩
        omega
      · rfl
    rw [hsame]
    refine ih fun i b hb hn hne => ?_
    have htake := h i b (getElem?_append_of_some hb _) hn hne
    rw [take_append_of_le_length (lt_length_of_getElem? hb)] at htake
    exact htake

/-- The replica `r` has received the increment at `i`: an event of its own has it in its past. -/
def Received (as : List Label) (r : String) (i : Nat) : Prop :=
  ∃ j a, as[j]? = some a ∧ a.node = r ∧ CausalPast Label.node Label.source as i j

theorem Inv.slot_of_received (hs : Inv s) {r : String} {i : Nat}
    (hreceived : Received s.labels r i) (ha : s.labels[i]? = some a) :
    incrementsOf (s.labels.take (i + 1)) a.node ≤ (s.counters r).slot a.node := by
  obtain ⟨j, b, hb, rfl, hpast⟩ := hreceived
  rw [State.labels, getElem?_map, Option.map_eq_some_iff] at ha hb
  obtain ⟨e, he, rfl⟩ := ha
  obtain ⟨f, hf, rfl⟩ := hb
  rw [← hs.ownAt i e he]
  refine le_trans ?_ (hs.above f (mem_of_getElem? hf) _)
  exact hs.along.past (fun _ _ => Nat.le_refl _) (fun hab hbc n => (hab n).trans (hbc n))
    (causalPast_map.mp hpast) he hf _

/-- `Merge` is commutative, associative and idempotent slot by slot.  In a run whose increments
do not wrap, the `Value` of a replica never becomes smaller, is at most the total of the
increments, and is that total once the replica has received every one of them. -/
theorem replicas_converge (hrun : run step .initial as = some s) (hwrap : increments as < 2 ^ 64) :
    (∀ (g h i : GCounter) (n : String), (g.merge h).slot n = (h.merge g).slot n ∧
      ((g.merge h).merge i).slot n = (g.merge (h.merge i)).slot n ∧
      (g.merge g).slot n = g.slot n) ∧
    (∀ (before after : List Label) (t : State), as = before ++ after →
      run step .initial before = some t → ∀ r, (t.counters r).value ≤ (s.counters r).value) ∧
    (∀ r, (s.counters r).value ≤ increments as) ∧
    ∀ r, (∀ i node n, as[i]? = some (.inc node n) → n ≠ 0 → Received as r i) →
      (s.counters r).value = increments as := by
  have hlabels : s.labels = as := run_labels hrun
  subst hlabels
  have hs := inv_run (fun _ => inv_initial) hrun hwrap
  refine ⟨fun g h i n => ⟨GCounter.slot_merge_comm g h n, GCounter.slot_merge_assoc g h i n,
    GCounter.slot_merge_self g n⟩, fun before after t has ht r => ?_,
    fun r => (value_eq_of_le hwrap (hs.le r)).2, fun r hreceived => ?_⟩
  · rw [has, run_append, ht] at hrun
    exact value_le_value hwrap (fun n => slot_run (fun hwrap => inv_run (fun _ => inv_initial) ht
      hwrap) hrun hwrap r n) (hs.le r)
  have hslot : ∀ n, (s.counters r).slot n = incrementsOf s.labels n := by
    intro n
    refine (hs.le r n).antisymm (incrementsOf_le_of_take fun i a ha hn hne => ?_)
    subst hn
    refine hs.slot_of_received ?_ ha
    cases a with
    | inc node n => exact hreceived i node n ha hne
    | snapshot node | merge node message => exact absurd rfl hne
  rw [(value_eq_of_le hwrap (hs.le r)).1, ← sum_incrementsOf fun a ha => mem_nodes ha]
  exact Finset.sum_congr rfl fun n _ => hslot n

/-- Two nodes count, and one merges the snapshot of the other. -/
theorem replicas_converge_merged :
    ∃ s ∈ run step .initial [.inc "a" 3, .inc "b" 2, .snapshot "b", .merge "a" 2],
      (s.counters "a").value = 5 := by
  refine exists_some_imp (A := fun _ => True) ⟨_, rfl, trivial⟩ fun s hs _ =>
    (replicas_converge hs (by decide)).2.2.2 "a" fun i node n hi hn => ?_
  match i with
  | 0 => exact ⟨3, _, rfl, rfl, .single ⟨by decide, _, _, rfl, rfl, .inl rfl⟩⟩
  | 1 =>
    -- through the snapshot
    exact ⟨3, _, rfl, rfl, .tail (b := 2) (.single ⟨by decide, _, _, rfl, rfl, .inl rfl⟩)
      ⟨by decide, _, _, rfl, rfl, .inr rfl⟩⟩
  | 2 | 3 | i + 4 => cases hi

end Replicas

end GoServices.Replication
