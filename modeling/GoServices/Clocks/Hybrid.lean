/-
Hybrid logical clocks over distributed runs.

A timestamp is a physical part, the largest wall reading heard of, and a counter for the events
at which that did not grow.
-/
import GoServices.Base.Causality
import GoServices.Base.Run

namespace GoServices.Clocks

open List

/-- The state of an `HLC`, which is also the timestamp that its last operation returned. -/
structure HLC where
  physical : Int
  logical : Nat
  deriving DecidableEq

namespace HLC

def new : HLC := { physical := 0, logical := 0 }

/-- The next value of the counter, a `uint64`. -/
def next (logical : Nat) : Nat := (logical + 1) % 2 ^ 64

/-- `Now`, with the wall clock's reading. -/
def now (h : HLC) (wall : Int) : HLC :=
  if wall > h.physical then { physical := wall, logical := 0 }
  else { h with logical := next h.logical }

/-- The largest of the three physical times of `Update`. -/
def latest (h : HLC) (wall rp : Int) : Int :=
  let max := if rp > h.physical then rp else h.physical
  if wall > max then wall else max

/-- `Update(rp, rl)`, with the wall clock's reading. -/
def update (h : HLC) (wall rp : Int) (rl : Nat) : HLC :=
  let max := h.latest wall rp
  if max = h.physical ∧ max = rp then
    { physical := max, logical := next (if rl > h.logical then rl else h.logical) }
  else if max = h.physical then { physical := max, logical := next h.logical }
  else if max = rp then { physical := max, logical := next rl }
  else { physical := max, logical := 0 }

def stamp (h : HLC) : Int ×ₗ Nat := toLex (h.physical, h.logical)

/-- The counters that `Now` adds one to. -/
def nowCounts (h : HLC) (wall : Int) : Option Nat :=
  if wall > h.physical then none else some h.logical

/-- The counters that `Update` adds one to. -/
def updateCounts (h : HLC) (wall rp : Int) (rl : Nat) : Option Nat :=
  let max := h.latest wall rp
  if max = h.physical ∧ max = rp then some (if rl > h.logical then rl else h.logical)
  else if max = h.physical then some h.logical
  else if max = rp then some rl
  else none

variable {g h : HLC} {wall : Int}

theorem stamp_lt_iff :
    g.stamp < h.stamp ↔ g.physical < h.physical ∨ g.physical = h.physical ∧ g.logical < h.logical :=
  Prod.Lex.toLex_lt_toLex

theorem physical_le_of_stamp_le (hle : g.stamp ≤ h.stamp) :
    g.physical ≤ h.physical := by
  rcases Prod.Lex.toLex_le_toLex.mp hle with hlt | ⟨heq, -⟩
  · exact le_of_lt hlt
  · exact le_of_eq heq

theorem next_of_lt {l : Nat} (h : l + 1 < 2 ^ 64) : next l = l + 1 := Nat.mod_eq_of_lt h

theorem physical_now (h : HLC) (wall : Int) : (h.now wall).physical = max h.physical wall := by
  unfold now
  split
  · show wall = max h.physical wall
    omega
  · show h.physical = max h.physical wall
    omega

theorem stamp_lt_now (hwrap : ∀ l ∈ h.nowCounts wall, l + 1 < 2 ^ 64) :
    h.stamp < (h.now wall).stamp := by
  unfold nowCounts at hwrap
  unfold now
  rw [stamp_lt_iff]
  split
  · rename_i hgt
    exact .inl hgt
  rename_i hle
  rw [if_neg hle] at hwrap
  refine .inr ⟨rfl, ?_⟩
  rw [next_of_lt (hwrap _ rfl)]
  exact Nat.lt_succ_self _

theorem latest_eq (h : HLC) (wall rp : Int) :
    h.latest wall rp = max (max h.physical rp) wall := by
  unfold latest
  dsimp only
  split <;> split <;> omega

theorem physical_update (h : HLC) (wall rp : Int) (rl : Nat) :
    (h.update wall rp rl).physical = max (max h.physical rp) wall := by
  rw [← latest_eq]
  unfold update
  dsimp only
  split
  · rfl
  split
  · rfl
  · split <;> rfl

theorem stamp_lt_update (hwrap : ∀ l ∈ h.updateCounts wall g.physical g.logical, l + 1 < 2 ^ 64) :
    h.stamp < (h.update wall g.physical g.logical).stamp ∧
      g.stamp < (h.update wall g.physical g.logical).stamp := by
  have hmax := latest_eq h wall g.physical
  unfold updateCounts at hwrap
  unfold update
  rw [stamp_lt_iff, stamp_lt_iff]
  dsimp only at hwrap ⊢
  split
  · rename_i hboth
    rw [if_pos hboth] at hwrap
    rw [next_of_lt (hwrap _ rfl)]
    split <;> dsimp only <;> omega
  rename_i hboth
  rw [if_neg hboth] at hwrap
  split
  · rename_i hown
    rw [if_pos hown] at hwrap
    rw [next_of_lt (hwrap _ rfl)]
    dsimp only
    omega
  rename_i hown
  rw [if_neg hown] at hwrap
  split
  · rename_i hreceived
    rw [if_pos hreceived] at hwrap
    rw [next_of_lt (hwrap _ rfl)]
    dsimp only
    omega
  · dsimp only
    omega

end HLC

/-! ## Distributed runs -/

namespace Hybrid

structure Event where
  node : String
  wall : Int
  source : Option Nat
  time : HLC

structure State where
  clocks : String → HLC
  events : List Event

def State.initial : State := { clocks := fun _ => .new, events := [] }

inductive Label
  | now (node : String) (wall : Int)
  | update (node : String) (wall : Int) (message : Nat)

/-- Give a node the clock `h` and record the event. -/
def State.record (s : State) (node : String) (wall : Int) (source : Option Nat) (h : HLC) :
    State where
  clocks n := if n = node then h else s.clocks n
  events := s.events ++ [{ node := node, wall := wall, source := source, time := h }]

def step (s : State) : Label → Option State
  | .now node wall => some (s.record node wall none ((s.clocks node).now wall))
  | .update node wall message =>
    match s.events[message]? with
    | some e =>
      some (s.record node wall (some message)
        ((s.clocks node).update wall e.time.physical e.time.logical))
    | none => none

def NoWrap (s : State) : Label → Prop
  | .now node wall => ∀ l ∈ (s.clocks node).nowCounts wall, l + 1 < 2 ^ 64
  | .update node wall message => ∀ e ∈ s.events[message]?,
      ∀ l ∈ (s.clocks node).updateCounts wall e.time.physical e.time.logical, l + 1 < 2 ^ 64

instance (s : State) : ∀ a, Decidable (NoWrap s a) := fun _ => by
  unfold NoWrap
  split <;> infer_instance

/-- What one step does: it gives a node the clock `h`, above its last one and above the
timestamp taken in, whose physical part is the largest of what the node knew, what it was
told and what its wall clock shows. -/
structure Records (s : State) (node : String) (wall : Int) (source : Option Nat) (h : HLC)
    (s' : State) : Prop where
  state : s' = s.record node wall source h
  above : (s.clocks node).stamp < h.stamp
  message : ∀ i, source = some i → ∃ e, s.events[i]? = some e ∧ e.time.stamp < h.stamp
  wall_le : wall ≤ h.physical
  physical : h.physical = (s.clocks node).physical ∨ h.physical = wall ∨
    ∃ i e, source = some i ∧ s.events[i]? = some e ∧ h.physical = e.time.physical

theorem records_of_step {s s' : State} {a : Label} (h : step s a = some s') (hwrap : NoWrap s a) :
    ∃ node wall source c, Records s node wall source c s' := by
  cases a with
  | now node wall =>
    cases h
    have hmax := HLC.physical_now (s.clocks node) wall
    refine ⟨node, wall, none, _, rfl, HLC.stamp_lt_now hwrap, ?_, ?_, ?_⟩
    · intro i hi
      cases hi
    · omega
    rcases le_total (s.clocks node).physical wall with hle | hle
    · exact .inr (.inl (by omega))
    · exact .inl (by omega)
  | update node wall message =>
    simp only [step] at h
    cases he : s.events[message]? with
    | none =>
      rw [he] at h
      cases h
    | some e =>
      rw [he] at h
      cases h
      have hmax := HLC.physical_update (s.clocks node) wall e.time.physical e.time.logical
      obtain ⟨hown, hreceived⟩ := HLC.stamp_lt_update (hwrap e he)
      refine ⟨node, wall, some message, _, rfl, hown, ?_, ?_, ?_⟩
      · rintro i ⟨rfl⟩
        exact ⟨e, he, hreceived⟩
      · omega
      by_cases hwall : wall = max (max (s.clocks node).physical e.time.physical) wall
      · exact .inr (.inl (by omega))
      by_cases hle : (s.clocks node).physical ≤ e.time.physical
      · exact .inr (.inr ⟨message, e, rfl, he, by omega⟩)
      · exact .inl (by omega)

/-- Zero and the wall readings in the past of the event at `j`. -/
def readings (es : List Event) (j : Nat) : Set Int :=
  insert 0 (pastValues Event.node Event.source Event.wall es j)

structure Inv (s : State) : Prop where
  along : Along Event.node Event.source (fun e f => e.time.stamp < f.time.stamp) s.events
  earlier : ∀ (i j : Nat) (f : Event), s.events[j]? = some f → f.source = some i → i < j
  above : ∀ e ∈ s.events, e.time.stamp ≤ (s.clocks e.node).stamp
  shown : ∀ n, s.clocks n = .new ∨ ∃ e ∈ s.events, e.node = n ∧ e.time = s.clocks n
  greatest : ∀ (j : Nat) (f : Event), s.events[j]? = some f →
    IsGreatest (readings s.events j) f.time.physical

theorem inv_initial : Inv State.initial where
  along := along_nil _
  earlier i j f hj := by cases hj
  above e he := by cases he
  shown _ := .inl rfl
  greatest j f hj := by cases hj

theorem Inv.physical_nonneg {s : State} (hs : Inv s) (n : String) :
    0 ≤ (s.clocks n).physical := by
  rcases hs.shown n with hnew | ⟨e, he, -, htime⟩
  · rw [hnew]
    exact le_rfl
  obtain ⟨k, hk⟩ := mem_iff_getElem?.mp he
  rw [← htime]
  exact (hs.greatest k e hk).2 (.inl rfl)

section
variable {s s' : State} {node : String} {wall : Int} {source : Option Nat} {h : HLC}

section
variable (hs : Inv s) (hr : Records s node wall source h s')
include hs hr

theorem feeds_lt {i : Nat} {e : Event}
    (he : Feeds Event.node Event.source s.events ⟨node, wall, source, h⟩ i e) :
    e.time.stamp < h.stamp := by
  obtain ⟨hi, hnode | hsource⟩ := he
  · have habove := hs.above e (mem_of_getElem? hi)
    rw [show e.node = node from hnode] at habove
    exact lt_of_le_of_lt habove hr.above
  obtain ⟨e', he', hlt⟩ := hr.message i hsource
  rw [hi] at he'
  cases he'
  exact hlt

theorem greatest_record :
    IsGreatest (readings (s.events ++ [⟨node, wall, source, h⟩]) s.events.length) h.physical := by
  have hfeed : ∀ k e, Feeds Event.node Event.source s.events ⟨node, wall, source, h⟩ k e →
      e.time.physical ∈ readings (s.events ++ [⟨node, wall, source, h⟩]) s.events.length := by
    intro k e he
    rcases (hs.greatest k e he.1).1 with hzero | hmem
    · exact .inl hzero
    · exact .inr (mem_pastValues_concat.mpr (.inr ⟨k, e, he, hmem⟩))
  constructor
  · rcases hr.physical with hown | hwall | ⟨k, e, hk, he, hreceived⟩
    · -- what the node knew is what one of its events showed, or zero
      rw [hown]
      rcases hs.shown node with hnew | ⟨e, he, hnode, htime⟩
      · rw [hnew]
        exact .inl rfl
      obtain ⟨k, hk⟩ := mem_iff_getElem?.mp he
      rw [← htime]
      exact hfeed k e ⟨hk, .inl hnode⟩
    · exact .inr (mem_pastValues_concat.mpr (.inl hwall))
    · rw [hreceived]
      exact hfeed k e ⟨he, .inr hk⟩
  · rintro w (rfl | hw)
    · exact le_trans (hs.physical_nonneg node) (HLC.physical_le_of_stamp_le (le_of_lt hr.above))
    rcases mem_pastValues_concat.mp hw with rfl | ⟨k, e, he, hmem⟩
    · exact hr.wall_le
    · have hle := (hs.greatest k e he.1).2 (.inr hmem)
      exact le_trans hle (HLC.physical_le_of_stamp_le (le_of_lt (feeds_lt hs hr he)))

theorem inv_records : Inv s' := by
  have hgreatest := greatest_record hs hr
  have hfeeds := fun i e (he : Feeds Event.node Event.source s.events
    ⟨node, wall, source, h⟩ i e) => feeds_lt hs hr he
  have habove := hr.above
  have hmessage := hr.message
  obtain rfl := hr.state
  refine ⟨hs.along.concat hfeeds, fun i j f hj hsource => ?_, ?_, fun n => ?_, fun j f hj => ?_⟩
  · rcases getElem?_concat_cases hj with hold | ⟨rfl, rfl⟩
    · exact hs.earlier i j f hold hsource
    · obtain ⟨e, he, -⟩ := hmessage i hsource
      exact lt_length_of_getElem? he
  · exact held_concat (R := fun (e : Event) (c : HLC) => e.time.stamp ≤ c.stamp) hs.above
      (fun _ hle => hle.trans habove.le) le_rfl
  · by_cases hn : n = node
    · refine .inr ⟨_, mem_concat_self, hn.symm, ?_⟩
      simp only [State.record, if_pos hn]
    simp only [State.record, if_neg hn]
    refine (hs.shown n).imp_right ?_
    rintro ⟨e, he, hshown⟩
    exact ⟨e, mem_append_left _ he, hshown⟩
  · rcases getElem?_concat_cases hj with hold | ⟨rfl, rfl⟩
    · unfold readings
      rw [State.record, pastValues_concat_of_lt (lt_length_of_getElem? hold)]
      exact hs.greatest j f hold
    · exact hgreatest

end

end

theorem inv_run {as : List Label} {s : State} (h : run step .initial as = some s)
    (hwrap : RunMeets step NoWrap .initial as) : Inv s := by
  refine run_invariant_of_meets (fun s a s' hs ha hstep => ?_) inv_initial hwrap h
  obtain ⟨node, wall, source, c, hr⟩ := records_of_step hstep ha
  exact inv_records hs hr

/-- In every run in which no counter wraps, the timestamps of one node increase, an event
is stamped above the timestamp it took in, so the causal order is kept, and the physical
part of a timestamp is the largest of zero and the wall readings in its causal past. -/
theorem timestamps_follow_causality {as : List Label} {s : State}
    (h : run step .initial as = some s) (hwrap : RunMeets step NoWrap .initial as) :
    (∀ (i j : Nat) (e f : Event), i < j → s.events[i]? = some e → s.events[j]? = some f →
      e.node = f.node → e.time.stamp < f.time.stamp) ∧
    (∀ (i j : Nat) (e f : Event), s.events[i]? = some e → s.events[j]? = some f →
      f.source = some i → e.time.stamp < f.time.stamp) ∧
    (∀ (i j : Nat) (e f : Event), s.events[i]? = some e → s.events[j]? = some f →
      HappenedBefore Event.node Event.source s.events i j → e.time.stamp < f.time.stamp) ∧
    ∀ (j : Nat) (f : Event), s.events[j]? = some f →
      IsGreatest (insert 0 {w | ∃ i e, CausalPast Event.node Event.source s.events i j ∧
        s.events[i]? = some e ∧ e.wall = w}) f.time.physical := by
  have hs := inv_run h hwrap
  refine ⟨fun i j e f hlt hi hj hnode => ?_, fun i j e f hi hj hsource => ?_,
    fun i j e f hi hj hij => hs.along.before lt_trans hij hi hj, hs.greatest⟩
  · exact hs.along i j e f ⟨hlt, e, f, hi, hj, .inl hnode⟩ hi hj
  · exact hs.along i j e f ⟨hs.earlier i j f hj hsource, e, f, hi, hj, .inr hsource⟩ hi hj

/-- Node `b`, whose wall clock is behind and then jumps back, hears from `a` twice. -/
def demoRun : List Label :=
  [.now "a" 1000, .update "b" 400 0, .now "b" 300, .update "b" 200 0, .now "a" 1000]

theorem timestamps_follow_causality_skewed :
    ∃ s ∈ run step .initial demoRun, ∃ e ∈ s.events[0]?, ∃ f ∈ s.events[3]?,
      e.time = ⟨1000, 0⟩ ∧ f.time = ⟨1000, 3⟩ ∧ e.time.stamp < f.time.stamp := by
  obtain ⟨s, hs, e, he, f, hf, hsource, htime⟩ :
      ∃ s ∈ run step .initial demoRun, ∃ e ∈ s.events[0]?, ∃ f ∈ s.events[3]?,
        f.source = some 0 ∧ e.time = ⟨1000, 0⟩ ∧ f.time = ⟨1000, 3⟩ := by
    decide +kernel
  have hwrap : RunMeets step NoWrap .initial demoRun := by decide +kernel
  have hfollows := timestamps_follow_causality hs hwrap
  exact ⟨s, hs, e, he, f, hf, htime.1, htime.2, hfollows.2.1 0 3 e f he hf hsource⟩

end Hybrid

end GoServices.Clocks
