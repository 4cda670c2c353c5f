/-
Lamport clocks over distributed runs.

A timestamp is the length of the longest chain of events that leads to it.
-/
import GoServices.Base.Causality
import GoServices.Base.Run

namespace GoServices.Clocks.Lamport

/-- `Tick` on a `uint64`. -/
def tick (t : Nat) : Nat := (t + 1) % 2 ^ 64

def update (t recv : Nat) : Nat := tick (if recv > t then recv else t)

structure Event where
  node : String
  source : Option Nat
  time : Nat

structure State where
  clocks : String → Nat
  events : List Event

def State.initial : State := { clocks := fun _ => 0, events := [] }

inductive Label
  | tick (node : String)
  | update (node : String) (message : Nat)

/-- Give a node the clock `t` and record the event. -/
def State.record (s : State) (node : String) (source : Option Nat) (t : Nat) : State where
  clocks n := if n = node then t else s.clocks n
  events := s.events ++ [{ node := node, source := source, time := t }]

/-- A message is named by its send event, whose timestamp it carries. -/
def step (s : State) : Label → Option State
  | .tick node => some (s.record node none (tick (s.clocks node)))
  | .update node message =>
    s.events[message]?.map fun e => s.record node (some message) (update (s.clocks node) e.time)

def NoWrap (s : State) : Label → Prop
  | .tick node => s.clocks node + 1 < 2 ^ 64
  | .update node message => ∀ e ∈ s.events[message]?, max e.time (s.clocks node) + 1 < 2 ^ 64

instance (s : State) : DecidablePred (NoWrap s) := fun _ => by
  unfold NoWrap
  split <;> infer_instance

/-- What one step does: the new event's time is one more than the largest of the node's clock
and the timestamp taken in. -/
structure Records (s : State) (node : String) (source : Option Nat) (t : Nat) (s' : State) :
    Prop where
  state : s' = s.record node source (t + 1)
  clock : s.clocks node ≤ t
  message : ∀ i, source = some i → ∃ e, s.events[i]? = some e ∧ e.time ≤ t
  attained : t = s.clocks node ∨ ∃ i e, source = some i ∧ s.events[i]? = some e ∧ e.time = t

theorem records_of_step {s s' : State} {a : Label} (h : step s a = some s') (hwrap : NoWrap s a) :
    ∃ node source t, Records s node source t s' := by
  cases a with
  | tick node =>
    cases h
    refine ⟨node, none, s.clocks node, ?_, le_rfl, nofun, .inl rfl⟩
    rw [tick, Nat.mod_eq_of_lt hwrap]
  | update node message =>
    obtain ⟨e, he, rfl⟩ := Option.map_eq_some_iff.mp h
    have hfits := hwrap e he
    refine ⟨node, some message, max e.time (s.clocks node), ?_, Nat.le_max_right _ _, ?_, ?_⟩
    · rw [update, tick, ← Nat.mod_eq_of_lt hfits]
      congr 2
      split <;> omega
    · rintro i ⟨rfl⟩
      exact ⟨e, he, Nat.le_max_left _ _⟩
    · rcases Nat.le_total e.time (s.clocks node) with hle | hle
      · exact .inl (Nat.max_eq_right hle)
      · exact .inr ⟨message, e, rfl, he, (Nat.max_eq_left hle).symm⟩

structure Inv (s : State) : Prop where
  along : Along Event.node Event.source (fun e f => e.time < f.time) s.events
  above : ∀ e ∈ s.events, e.time ≤ s.clocks e.node
  shown : ∀ n, s.clocks n = 0 ∨ ∃ e ∈ s.events, e.node = n ∧ e.time = s.clocks n
  longest : ∀ j f, s.events[j]? = some f → f.time = 1 ∨
    ∃ i e, Precedes Event.node Event.source s.events i j ∧ s.events[i]? = some e ∧
      f.time = e.time + 1

theorem Inv.record {s s' : State} {node : String} {source : Option Nat} {t : Nat} (hs : Inv s)
    (hr : Records s node source t s') : Inv s' := by
  obtain ⟨rfl, hclock, hmessage, hattained⟩ := hr
  refine ⟨hs.along.concat ?_, ?_, fun n => ?_, fun j f hj => ?_⟩
  · rintro i e ⟨hi, hnode | hsource⟩
    · have habove := hs.above e (List.mem_of_getElem? hi)
      rw [show e.node = node from hnode] at habove
      exact Nat.lt_succ_of_le (habove.trans hclock)
    obtain ⟨e', he', hle⟩ := hmessage i hsource
    rw [hi] at he'
    cases he'
    exact Nat.lt_succ_of_le hle
  · exact held_concat (R := fun (e : Event) (c : Nat) => e.time ≤ c) hs.above
      (fun _ hle => hle.trans (Nat.le_succ_of_le hclock)) le_rfl
  · by_cases hn : n = node
    · refine .inr ⟨_, List.mem_concat_self, hn.symm, ?_⟩
      simp only [State.record, if_pos hn]
    simp only [State.record, if_neg hn]
    refine (hs.shown n).imp_right ?_
    rintro ⟨e, he, hshown⟩
    exact ⟨e, List.mem_append_left _ he, hshown⟩
  rcases getElem?_concat_cases hj with hold | ⟨rfl, rfl⟩
  · refine (hs.longest j f hold).imp_right ?_
    rintro ⟨i, e, hij, hi, htime⟩
    exact ⟨i, e, hij.append _, getElem?_append_of_some hi _, htime⟩
  · -- the event that the new one is one above is of the node or the source
    have hfeed : t = 0 ∨ ∃ i e, Feeds Event.node Event.source s.events
        ⟨node, source, t + 1⟩ i e ∧ e.time = t := by
      rcases hattained with rfl | ⟨i, e, hi, he, htime⟩
      · refine (hs.shown node).imp_right ?_
        rintro ⟨e, he, hnode, htime⟩
        obtain ⟨i, hi⟩ := List.mem_iff_getElem?.mp he
        exact ⟨i, e, ⟨hi, .inl hnode⟩, htime⟩
      · exact .inr ⟨i, e, ⟨he, .inr hi⟩, htime⟩
    rcases hfeed with rfl | ⟨i, e, he, rfl⟩
    · exact .inl rfl
    · exact .inr ⟨i, e, precedes_concat.mpr (.inr ⟨rfl, e, he⟩),
        getElem?_append_of_some he.1 _, rfl⟩

/-- In every run in which no clock wraps, an event that happened before another has the smaller
timestamp, and a timestamp is the length of the longest chain in the event's past. -/
theorem timestamps_count_chains {as : List Label} {s : State}
    (h : run step .initial as = some s) (hwrap : RunMeets step NoWrap .initial as) :
    (∀ (i j : Nat) (e f : Event), s.events[i]? = some e → s.events[j]? = some f →
      HappenedBefore Event.node Event.source s.events i j → e.time < f.time) ∧
    ∀ (j : Nat) (f : Event), s.events[j]? = some f →
      IsGreatest (chainLengths Event.node Event.source s.events j) f.time := by
  have hs : Inv s := by
    refine run_invariant_of_meets (fun s a s' hs ha hstep => ?_) ?_ hwrap h
    · obtain ⟨node, source, t, hr⟩ := records_of_step hstep ha
      exact hs.record hr
    · exact ⟨along_nil _, nofun, fun _ => .inl rfl, nofun⟩
  refine ⟨fun i j e f hi hj hij => hs.along.before lt_trans hij hi hj, fun j f hj => ?_⟩
  exact hs.along.isGreatest_chain hs.longest hj

theorem timestamps_count_chains_message :
    ∃ s ∈ run step .initial [.tick "a", .tick "a", .tick "b", .update "b" 1],
      IsGreatest (chainLengths Event.node Event.source s.events 3) 3 := by
  refine exists_some_imp (A := fun s => ∃ f ∈ s.events[3]?, f.time = 3) (by decide)
    fun s hs ⟨f, hf, htime⟩ => ?_
  exact htime ▸ (timestamps_count_chains hs (by decide)).2 3 f hf

end GoServices.Clocks.Lamport
