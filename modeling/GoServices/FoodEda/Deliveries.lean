/-
What becomes of an event at a consumer.

An event that was published to a consumer is in exactly one place of the consumer's, or it has
been processed, or it is a dead letter.
-/
import GoServices.FoodEda.Bus

namespace GoServices.FoodEda.Bus

open List State

section
variable {σ : Type}

/-! ## Counts -/

def places (σ : Type) (i : Nat) (x : String) : Weights σ :=
  .even (fun j e => if j = i ∧ e.id = x then 1 else 0)
    fun j m _ => if j = i ∧ m.event.id = x then 1 else 0

/-- One for each call of `drain` that works for the consumer. -/
def activity (σ : Type) (i : Nat) : Weights σ where
  call _ _ := 0
  queued _ _ := 0
  timer _ _ := 0
  loop j := if j = i then 1 else 0
  running j _ _ := if j = i then 1 else 0

def strays (σ : Type) (n : Nat) : Weights σ where
  call j _ := if n ≤ j then 1 else 0
  queued j _ := if n ≤ j then 1 else 0
  timer j _ := if n ≤ j then 1 else 0
  loop j := if n ≤ j then 1 else 0
  running j _ _ := if n ≤ j then 1 else 0

def listAt {α : Type} (f : Consumer → List α) (consumers : List Consumer) (i : Nat) : List α :=
  match consumers[i]? with
  | some c => f c
  | none => []

def processedBy (consumers : List Consumer) (i : Nat) : List String :=
  listAt Consumer.processed consumers i

def State.finished (s : State σ) (i : Nat) (x : String) : Nat :=
  (processedBy s.consumers i).count x + s.dead.countP fun p => p.1 = i ∧ p.2.id = x

def State.published (s : State σ) (topics : List Topic) (i : Nat) (x : String) : Nat :=
  s.log.countP fun e => e.id = x ∧ topics[i]? = some e.type

def State.outcomes (s : State σ) (i : Nat) (x : String) : List Bool :=
  (s.attempts.filter fun a => a.consumer = i ∧ a.event.id = x).map (·.ok)

inductive State.Holds (s : State σ) (i : Nat) : Message → Prop
  | call {call : Call} (hcall : call ∈ s.calls) (hi : i ∈ call.rest) : s.Holds i ⟨call.event, 1⟩
  | queued {c : Consumer} {m : Message} (hc : s.consumers[i]? = some c) (hm : m ∈ c.queue) :
    s.Holds i m
  | timer {m : Message} (ht : ⟨i, m⟩ ∈ s.timers) : s.Holds i m
  | running {m : Message} {h : σ} (hd : ⟨i, .deliver m h⟩ ∈ s.drains) : s.Holds i m

structure State.Idle (s : State σ) : Prop where
  calls : ∀ call ∈ s.calls, call.rest = []
  drains : s.drains = []
  timers : s.timers = []

structure Inv (topics : List Topic) (s : State σ) : Prop where
  consumers : s.consumers.length = topics.length
  valid : s.weight (strays σ topics.length) = 0
  draining : ∀ (i : Nat) (c : Consumer), s.consumers[i]? = some c →
    s.weight (activity σ i) = if c.draining then 1 else 0
  queues : ∀ (i : Nat) (c : Consumer), s.consumers[i]? = some c → c.queue ≠ [] → c.draining = true
  ids : (s.log.map (·.id)).Nodup
  once : ∀ i x, s.weight (places σ i x) + s.finished i x = s.published topics i x
  held : ∀ i m, s.Holds i m → m.event ∈ s.log ∧ 1 ≤ m.attempt ∧ m.attempt ≤ maxAttempts ∧
    s.outcomes i m.event.id = List.replicate (m.attempt - 1) false
  unpublished : ∀ i x, s.published topics i x = 0 → s.outcomes i x = []
  processed : ∀ i, ∀ x ∈ processedBy s.consumers i, ∃ k < maxAttempts,
    s.outcomes i x = List.replicate k false ++ [true]
  dead : ∀ i e, (i, e) ∈ s.dead → s.outcomes i e.id = List.replicate maxAttempts false

variable {topics : List Topic} {s s' : State σ} {a : Label σ} {i : Nat} {m : Message} {x : String}
  {c : Consumer}

theorem mem_subscribers {topic : Topic} :
    i ∈ subscribers topics topic ↔ topics[i]? = some topic := by
  rw [subscribers, mem_filter, mem_range]
  constructor
  · rintro ⟨-, h⟩
    exact of_decide_eq_true h
  · intro h
    exact ⟨(List.getElem?_eq_some_iff.mp h).1, decide_eq_true h⟩

theorem subscribers_nodup (topics : List Topic) (topic : Topic) :
    (subscribers topics topic).Nodup :=
  nodup_range.filter _

/-! ## Places and their counts -/

theorem places_call (i : Nat) (x : String) (j : Nat) (e : DomainEvent) :
    (places σ i x).call j e = if j = i ∧ e.id = x then 1 else 0 := rfl

theorem State.Holds.count_pos (h : s.Holds i m) :
    0 < s.weight (places σ i m.event.id) := by
  rw [weight]
  cases h with
  | @call call hcall hi =>
    have hrest := le_weigh (f := fun j => (places σ i call.event.id).call j call.event) hi
    have hle := le_weigh (f := fun c : Call =>
      weigh (fun j => (places σ i call.event.id).call j c.event) c.rest) hcall
    simp only [places, Weights.even, and_self, if_true] at hrest hle ⊢
    omega
  | queued hc hm =>
    have hqueue := le_weigh (f := (places σ i m.event.id).queued i) hm
    have hle := le_weighAt
      (f := fun j c => weigh ((places σ i m.event.id).queued j) c.queue) hc
    simp only [places, Weights.even, and_self, if_true] at hqueue hle ⊢
    omega
  | timer ht =>
    have hle := le_weigh (f := fun t : Timer =>
      (places σ i m.event.id).timer t.consumer t.message) ht
    simp only [places, Weights.even, and_self, if_true] at hle ⊢
    omega
  | running hd =>
    have hle := le_weigh (f := (places σ i m.event.id).drain) hd
    simp only [places, Weights.even, Weights.drain, and_self, if_true] at hle ⊢
    omega

theorem indicator_pos {p : Prop} [Decidable p] (h : 0 < if p then 1 else 0) : p := by
  by_contra hp
  rw [if_neg hp] at h
  cases h

theorem exists_holds (h : 0 < s.weight (places σ i x)) :
    ∃ m, s.Holds i m ∧ m.event.id = x := by
  obtain ⟨call, hcall, j, hj, hpos⟩ | ⟨j, c, hc, m, hm, hpos⟩ | ⟨⟨j, m⟩, ht, hpos⟩ |
    ⟨⟨j, pc⟩, hd, hpos⟩ := exists_of_weight_pos h
  · obtain ⟨rfl, hid⟩ := indicator_pos hpos
    exact ⟨_, .call hcall hj, hid⟩
  · obtain ⟨rfl, hid⟩ := indicator_pos hpos
    exact ⟨m, .queued hc hm, hid⟩
  · obtain ⟨rfl, hid⟩ := indicator_pos hpos
    exact ⟨m, .timer ht, hid⟩
  cases pc with
  | loop => cases hpos
  | deliver m h =>
    obtain ⟨rfl, hid⟩ := indicator_pos hpos
    exact ⟨m, .running hd, hid⟩

theorem published_le_one (topics : List Topic) (h : (s.log.map (·.id)).Nodup) (i : Nat)
    (x : String) :
    s.published topics i x ≤ 1 := by
  calc s.published topics i x
      ≤ s.log.countP fun e => e.id = x := by
        refine countP_mono_left fun e _ hp => ?_
        rw [decide_eq_true_iff] at hp ⊢
        exact hp.1
    _ = (s.log.map (·.id)).count x := by
        rw [count, countP_map]
        refine countP_congr fun e _ => ?_
        simp
    _ ≤ 1 := nodup_iff_count_le_one.mp h x

theorem getElem?_lt {α : Type} {l : List α} {b : α} (h : l[i]? = some b) :
    i < l.length :=
  (List.getElem?_eq_some_iff.mp h).1

/-! ## Consumers -/

section
variable (h : Inv topics s)
include h

theorem Inv.lt {i : Nat} {c : Consumer} (hc : s.consumers[i]? = some c) : i < topics.length := by
  rw [← h.consumers]
  exact getElem?_lt hc

theorem Inv.eq_of_id {e e' : DomainEvent} (he : e ∈ s.log) (he' : e' ∈ s.log) (hid : e.id = e'.id) :
    e = e' :=
  inj_on_of_nodup_map h.ids he he' hid

theorem consumers_step (he : Effect topics s a s') : s'.consumers.length = topics.length := by
  have hlength := h.consumers
  cases he <;> simp [drain_consumers, hlength]

theorem valid_step (he : Effect topics s a s') : s'.weight (strays σ topics.length) = 0 := by
  have hzero := h.valid
  have hin {i : Nat} {c : Consumer} (hc : s.consumers[i]? = some c) : ¬ topics.length ≤ i :=
    Nat.not_le_of_lt (h.lt hc)
  cases he with
  | @publish e hnew =>
    have hnone : weigh (fun i => (strays σ topics.length).call i e)
        (subscribers topics e.type) = 0 := by
      refine weigh_eq_zero.mpr fun i hi => if_neg (Nat.not_le_of_lt ?_)
      exact getElem?_lt (mem_subscribers.mp hi)
    rw [weight_publish, hnone, hzero]
  | push hcall hc =>
    have heq := weight_push (w := strays σ topics.length) hcall hc
    simp only [strays, if_neg (hin hc), ite_self] at heq hzero ⊢
    omega
  | finish hd hc hqueue =>
    have heq := weight_finish (w := strays σ topics.length) hd hc
    omega
  | skip hd hc hqueue hdone =>
    have heq := weight_skip (w := strays σ topics.length) hc hqueue
    omega
  | @call d h i c m queue hd hc hqueue hdone =>
    have heq := weight_call (w := strays σ topics.length) hd hc hqueue h
    simp only [strays, if_neg (hin hc)] at heq hzero ⊢
    omega
  | @proceed d h h' i m hd =>
    have heq := weight_proceed (w := strays σ topics.length) hd h'
    simp only [strays] at heq hzero ⊢
    omega
  | succeed hd hc =>
    have heq := weight_succeed (w := strays σ topics.length) hd hc
    simp only [strays, if_neg (hin hc)] at heq hzero ⊢
    exact (heq _ _).trans hzero
  | bury hd hc hlast =>
    have heq := weight_bury (w := strays σ topics.length) hd
    simp only [strays, if_neg (hin hc)] at heq hzero ⊢
    exact (heq _ _).trans hzero
  | retry hd hc hagain =>
    have heq := weight_retry (w := strays σ topics.length) hd
    simp only [strays, if_neg (hin hc)] at heq hzero ⊢
    exact (heq _ _).trans hzero
  | fire ht hc =>
    have heq := weight_fire (w := strays σ topics.length) ht hc
    simp only [strays, if_neg (hin hc), ite_self] at heq hzero ⊢
    omega

end

theorem draining_drain {j : Nat} {c' : Consumer} {weight weight' : Nat}
    (hold : ∀ b : Consumer, s.consumers[j]? = some b → weight = if b.draining then 1 else 0)
    (hc : s.consumers[i]? = some c)
    (hweight : weight' = weight + if c.draining then 0 else if i = j then 1 else 0)
    (hget : (s.consumers.set i { c.push m with draining := true })[j]? = some c') :
    weight' = if c'.draining then 1 else 0 := by
  obtain ⟨rfl, rfl⟩ | ⟨hne, hget⟩ := getElem?_set_cases hget
  · have hj := hold c hc
    rw [hweight, hj, if_pos rfl, if_pos rfl]
    cases c.draining <;> rfl
  · rw [hweight, hold c' hget, if_neg hne.symm, ite_self, Nat.add_zero]

section
variable (h : Inv topics s) (he : Effect topics s a s') (j : Nat) (c' : Consumer)
    (hget : s'.consumers[j]? = some c')
include h he j c' hget

theorem draining_step : s'.weight (activity σ j) = if c'.draining then 1 else 0 := by
  have hold := h.draining j
  cases he with
  | @publish e hnew =>
    have hnone : weigh (fun i => (activity σ j).call i e) (subscribers topics e.type) = 0 :=
      weigh_eq_zero.mpr fun _ _ => rfl
    rw [weight_publish, hnone]
    exact hold c' hget
  | push hcall hc =>
    rw [drain_consumers] at hget
    exact draining_drain hold hc (weight_push (w := activity σ j) hcall hc) hget
  | finish hd hc hqueue =>
    have heq := weight_finish (w := activity σ j) hd hc
    simp only [activity] at heq
    obtain ⟨rfl, rfl⟩ | ⟨hne, hget⟩ := getElem?_set_cases hget
    · have hj := hold _ hc
      rw [if_pos rfl] at heq
      split at hj
      · exact Nat.succ.inj (heq.trans hj)
      · exact absurd (heq.trans hj) (Nat.succ_ne_zero _)
    · rw [if_neg hne.symm] at heq
      exact heq.trans (hold c' hget)
  | @skip d h i c m queue hd hc hqueue hdone =>
    have heq := weight_skip (w := activity σ j) hc hqueue
    obtain ⟨rfl, rfl⟩ | ⟨hne, hget⟩ := getElem?_set_cases hget
    · exact heq.trans (hold c hc)
    · exact heq.trans (hold c' hget)
  | @call d h i c m queue hd hc hqueue hdone =>
    have heq := weight_call (w := activity σ j) hd hc hqueue h
    simp only [activity, Nat.add_zero, Nat.add_right_cancel_iff] at heq
    obtain ⟨rfl, rfl⟩ | ⟨hne, hget⟩ := getElem?_set_cases hget
    · exact heq.trans (hold c hc)
    · exact heq.trans (hold c' hget)
  | @proceed d h h' i m hd =>
    have heq := weight_proceed (w := activity σ j) hd h'
    simp only [activity, Nat.add_right_cancel_iff] at heq
    exact heq.trans (hold c' hget)
  | @succeed d h i c m hd hc =>
    have heq := weight_succeed (w := activity σ j) hd hc
    simp only [activity, Nat.add_right_cancel_iff] at heq
    obtain ⟨rfl, rfl⟩ | ⟨hne, hget⟩ := getElem?_set_cases hget
    · exact (heq _ _).trans (hold c hc)
    · exact (heq _ _).trans (hold c' hget)
  | bury hd hc hlast =>
    have heq := weight_bury (w := activity σ j) hd
    simp only [activity, Nat.add_right_cancel_iff] at heq
    exact (heq _ _).trans (hold c' hget)
  | retry hd hc hagain =>
    have heq := weight_retry (w := activity σ j) hd
    simp only [activity, Nat.add_zero, Nat.add_right_cancel_iff] at heq
    exact (heq _ _).trans (hold c' hget)
  | fire ht hc =>
    rw [drain_consumers] at hget
    exact draining_drain hold hc (weight_fire (w := activity σ j) ht hc) hget

theorem queues_step (hne : c'.queue ≠ []) : c'.draining = true := by
  cases he with
  | publish hnew => exact h.queues j c' hget hne
  | push hcall hc | fire ht hc =>
    rw [drain_consumers] at hget
    obtain ⟨rfl, rfl⟩ | ⟨-, hget⟩ := getElem?_set_cases hget
    · rfl
    · exact h.queues j c' hget hne
  | finish hd hc hqueue =>
    obtain ⟨rfl, rfl⟩ | ⟨-, hget⟩ := getElem?_set_cases hget
    · exact absurd hqueue hne
    · exact h.queues j c' hget hne
  | @skip d h' i c m queue hd hc hqueue hdone | @call d h' i c m queue hd hc hqueue hdone =>
    obtain ⟨rfl, rfl⟩ | ⟨-, hget⟩ := getElem?_set_cases hget
    · exact h.queues j c hc (hqueue ▸ cons_ne_nil m queue)
    · exact h.queues j c' hget hne
  | proceed hd => exact h.queues j c' hget hne
  | @succeed d h' i c m hd hc =>
    obtain ⟨rfl, rfl⟩ | ⟨-, hget⟩ := getElem?_set_cases hget
    · exact h.queues j c hc hne
    · exact h.queues j c' hget hne
  | bury hd hc hlast | retry hd hc hagain => exact h.queues j c' hget hne

end

theorem ids_step (h : Inv topics s) (he : Effect topics s a s') :
    (s'.log.map (·.id)).Nodup := by
  have hids := h.ids
  cases he with
  | @publish e hnew =>
    rw [map_append, nodup_append]
    refine ⟨hids, nodup_singleton _, fun x hx y hy => ?_⟩
    obtain ⟨e', he', rfl⟩ := mem_map.mp hx
    rw [mem_singleton.mp hy]
    exact hnew e' he'
  | push hcall hc | fire ht hc =>
    rw [drain_log]
    exact hids
  | finish | skip | call | proceed | succeed | bury | retry => exact hids

/-! ## The places of an event -/

section
variable {α : Type} {f : Consumer → List α} {consumers : List Consumer} {i : Nat} {c c' : Consumer}

section
variable (hc : consumers[i]? = some c)
include hc

theorem listAt_of : listAt f consumers i = f c := by
  rw [listAt, hc]

theorem listAt_set (c' : Consumer) (j : Nat) :
    listAt f (consumers.set i c') j = if j = i then f c' else listAt f consumers j := by
  rw [listAt, getElem?_set]
  by_cases hji : j = i
  · subst hji
    rw [if_pos rfl, if_pos (getElem?_lt hc), if_pos rfl]
  · rw [if_neg (Ne.symm hji), if_neg hji]
    rfl

theorem listAt_same (hsame : f c' = f c) (j : Nat) :
    listAt f (consumers.set i c') j = listAt f consumers j := by
  rw [listAt_set hc]
  split
  · rename_i hji
    rw [hji, hsame, listAt_of hc]
  · rfl

end

theorem weigh_subscribers (i : Nat) (x : String) (e : DomainEvent) :
    weigh (fun j => (places σ i x).call j e) (subscribers topics e.type) =
      if e.id = x ∧ topics[i]? = some e.type then 1 else 0 := by
  have hweights : (fun j => (places σ i x).call j e) =
      fun j => if j = i then (if e.id = x then 1 else 0) else 0 := by
    funext j
    simp only [places_call, ite_and]
  rw [hweights, weigh_ite (subscribers_nodup topics e.type)]
  simp only [mem_subscribers, ← ite_and, and_comm]

theorem published_append (e : DomainEvent) (i : Nat) (x : String) (calls : List Call) :
    published { s with log := s.log ++ [e], calls := calls } topics i x =
      s.published topics i x + if e.id = x ∧ topics[i]? = some e.type then 1 else 0 := by
  simp only [published, countP_append, countP_cons, countP_nil,
    decide_eq_true_eq, Nat.zero_add]

variable {j : Nat} {e : DomainEvent} {m' : Message}

theorem once_of_same {x : String}
    (hold : s.weight (places σ j x) + s.finished j x = s.published topics j x)
    (hweight : s'.weight (places σ j x) = s.weight (places σ j x))
    (hprocessed : processedBy s'.consumers j = processedBy s.consumers j)
    (hdead : s'.dead = s.dead) (hlog : s'.log = s.log) :
    s'.weight (places σ j x) + s'.finished j x = s'.published topics j x := by
  rw [finished, published, hweight, hprocessed, hdead, hlog]
  exact hold

theorem once_step (h : Inv topics s) (he : Effect topics s a s') (j : Nat) (x : String) :
    s'.weight (places σ j x) + s'.finished j x = s'.published topics j x := by
  have hold := h.once j x
  cases he with
  | @publish e hnew =>
    rw [weight_publish, weigh_subscribers, published_append, ← hold]
    simp only [finished]
    omega
  | push hcall hc =>
    refine once_of_same hold (even_push hcall hc) ?_ (drain_dead _ _ _) (drain_log _ _ _)
    rw [drain_consumers]
    exact listAt_same hc (by rfl) j
  | fire ht hc =>
    refine once_of_same hold (even_fire ht hc) ?_ (drain_dead _ _ _) (drain_log _ _ _)
    rw [drain_consumers]
    exact listAt_same hc (by rfl) j
  | finish hd hc hqueue =>
    exact once_of_same hold (weight_finish (w := places σ j x) hd hc)
      (listAt_same hc (by rfl) j) rfl rfl
  | @skip d h' i c m queue hd hc hqueue hdone =>
    -- The event would be processed and in the queue.
    have hle := published_le_one topics h.ids i m.event.id
    have honce := h.once i m.event.id
    have hpos := (State.Holds.queued (s := s) hc (hqueue ▸ mem_cons_self)).count_pos
    have hcount : 0 < (processedBy s.consumers i).count m.event.id := by
      rw [processedBy, listAt_of hc]
      exact count_pos_iff.mpr hdone
    rw [finished] at honce
    omega
  | @call d h' i c m queue hd hc hqueue hdone =>
    exact once_of_same hold (Nat.add_right_cancel (weight_call (w := places σ j x) hd hc hqueue h'))
      (listAt_same hc (by rfl) j) rfl rfl
  | @proceed d h' h'' i m hd =>
    exact once_of_same hold (Nat.add_right_cancel (weight_proceed hd h'')) rfl rfl rfl
  | @succeed d h' i c m hd hc =>
    have heq : _ + (if i = j ∧ m.event.id = x then 1 else 0) = s.weight (places σ j x) :=
      weight_succeed (w := places σ j x) hd hc (c.processed ++ [m.event.id])
        (s.attempts ++ [⟨i, m.event, true⟩])
    have hfinished : (processedBy (s.consumers.set i
        { c with processed := c.processed ++ [m.event.id] }) j).count x =
        (processedBy s.consumers j).count x + if i = j ∧ m.event.id = x then 1 else 0 := by
      rw [processedBy, processedBy, listAt_set hc]
      by_cases hji : j = i
      · subst hji
        simp [listAt_of hc, count_singleton]
      · rw [if_neg hji, if_neg fun hand => hji hand.1.symm, Nat.add_zero]
    simp only [finished, published, hfinished] at hold ⊢
    omega
  | @bury d h' i c m hd hc hlast =>
    have heq : _ + (if i = j ∧ m.event.id = x then 1 else 0) = s.weight (places σ j x) :=
      weight_bury (w := places σ j x) hd (s.attempts ++ [⟨i, m.event, false⟩])
        (s.dead ++ [(i, m.event)])
    simp only [finished, published, countP_append, countP_cons,
      countP_nil, decide_eq_true_eq, Nat.zero_add] at hold ⊢
    omega
  | @retry d h' i c m hd hc hagain =>
    exact once_of_same hold (Nat.add_right_cancel (weight_retry (w := places σ j x) hd _ _))
      rfl rfl rfl

/-! ## Attempts -/

theorem outcomes_append {i : Nat} {ok : Bool}
    (hattempts : s'.attempts = s.attempts ++ [⟨i, e, ok⟩]) (j : Nat) (x : String) :
    s'.outcomes j x = s.outcomes j x ++ if i = j ∧ e.id = x then [ok] else [] := by
  rw [outcomes, hattempts, filter_append, map_append]
  congr 1
  by_cases hmatch : i = j ∧ e.id = x
  · simp [hmatch]
  · simp [hmatch]

theorem State.Holds.mono {m : Message} (h : s'.Holds j m)
    (hcalls : ∀ call ∈ s'.calls, j ∈ call.rest → s.Holds j ⟨call.event, 1⟩)
    (hqueues : ∀ c : Consumer, s'.consumers[j]? = some c → ∀ m ∈ c.queue, s.Holds j m)
    (htimers : ∀ m, ⟨j, m⟩ ∈ s'.timers → s.Holds j m)
    (hdrains : ∀ m h, ⟨j, .deliver m h⟩ ∈ s'.drains → s.Holds j m) : s.Holds j m := by
  cases h with
  | call hcall hi => exact hcalls _ hcall hi
  | queued hc hm => exact hqueues _ hc m hm
  | timer ht => exact htimers m ht
  | running hd => exact hdrains m _ hd

theorem holds_drain {i : Nat} {c : Consumer} {m : Message} {t : State σ}
    (h : (t.drain i (c.push m)).Holds j m') (hc : s.consumers[i]? = some c) (hm : s.Holds i m)
    (hconsumers : t.consumers = s.consumers) (hdrains : t.drains = s.drains)
    (hcalls : ∀ call ∈ t.calls, j ∈ call.rest → s.Holds j ⟨call.event, 1⟩)
    (htimers : ∀ m, ⟨j, m⟩ ∈ t.timers → s.Holds j m) : s.Holds j m' := by
  refine h.mono (by rwa [drain_calls]) (fun c' hc' m₁ hm₁ => ?_) (by rwa [drain_timers])
    fun m₁ h₁ hd => ?_
  · rw [drain_consumers, hconsumers] at hc'
    obtain ⟨rfl, rfl⟩ | ⟨-, hc'⟩ := getElem?_set_cases hc'
    · obtain hm₁ | rfl := mem_concat_cases hm₁
      · exact .queued hc hm₁
      · exact hm
    · exact .queued hc' hm₁
  · have hmem := deliver_mem_drain _ _ _ hd
    rw [hdrains] at hmem
    exact .running hmem

theorem mem_of_mem_set {α : Type} {l : List α} {i : Nat} {b x : α} (h : x ∈ l.set i b)
    (hne : x ≠ b) : x ∈ l :=
  (mem_or_eq_of_mem_set h).resolve_right hne

theorem holds_push {k i : Nat} {rest : List Nat} {c : Consumer} {m : Message}
    (hcall : s.calls[k]? = some ⟨e, i :: rest⟩) (hc : s.consumers[i]? = some c)
    (h : (drain { s with calls := s.calls.set k ⟨e, rest⟩ } i (c.push ⟨e, 1⟩)).Holds j m) :
    s.Holds j m := by
  have hmem := mem_of_getElem? hcall
  refine holds_drain h hc (.call hmem mem_cons_self) rfl rfl (fun call hcall' hj => ?_)
    fun m ht => .timer ht
  obtain hcall' | rfl := mem_or_eq_of_mem_set hcall'
  · exact .call hcall' hj
  · have hheld : s.Holds j ⟨e, 1⟩ := .call hmem (mem_cons_of_mem _ hj)
    exact hheld

theorem holds_fire {t i : Nat} {c : Consumer} {m : Message}
    (ht : s.timers[t]? = some ⟨i, m⟩) (hc : s.consumers[i]? = some c)
    (h : (drain { s with timers := s.timers.eraseIdx t } i (c.push m)).Holds j m') :
    s.Holds j m' := by
  refine holds_drain h hc (.timer (mem_of_getElem? ht)) rfl rfl (fun call hcall hj => ?_)
    fun m ht' => ?_
  · exact .call hcall hj
  · exact .timer (mem_of_mem_eraseIdx ht')

theorem holds_queue {i : Nat} {c c' : Consumer} {m : Message} {t : State σ}
    (h : t.Holds j m) (hc : s.consumers[i]? = some c)
    (hconsumers : t.consumers = s.consumers.set i c') (hqueue : ∀ m ∈ c'.queue, m ∈ c.queue)
    (hcalls : t.calls = s.calls) (htimers : t.timers = s.timers)
    (hdrains : ∀ m h, ⟨j, .deliver m h⟩ ∈ t.drains → s.Holds j m) : s.Holds j m := by
  refine h.mono (fun call hcall hj => ?_) (fun b hb m₁ hm₁ => ?_) (fun m₁ ht => ?_) hdrains
  · rw [hcalls] at hcall
    exact .call hcall hj
  · rw [hconsumers] at hb
    obtain ⟨rfl, rfl⟩ | ⟨-, hb⟩ := getElem?_set_cases hb
    · exact .queued hc (hqueue m₁ hm₁)
    · exact .queued hb hm₁
  · rw [htimers] at ht
    exact .timer ht

theorem holds_step (he : Effect topics s a s') (hpublish : a.isPublish = false)
    (hsettle : a.isSettle = false) (h : s'.Holds j m') :
    s.Holds j m' := by
  cases he with
  | publish hnew => cases hpublish
  | push hcall hc => exact holds_push hcall hc h
  | finish hd hc hqueue =>
    refine holds_queue h hc rfl (fun m hm => hm) rfl rfl fun m h' hd' => ?_
    exact .running (mem_of_mem_eraseIdx hd')
  | skip hd hc hqueue hdone =>
    refine holds_queue h hc rfl (fun m hm => ?_) rfl rfl fun m h' hd' => .running hd'
    rw [hqueue]
    exact mem_cons_of_mem _ hm
  | @call d h' i c m queue hd hc hqueue hdone =>
    refine holds_queue h hc rfl (fun m hm => ?_) rfl rfl fun m₁ h₁ hd' => ?_
    · rw [hqueue]
      exact mem_cons_of_mem _ hm
    obtain hd' | heq := mem_or_eq_of_mem_set hd'
    · exact .running hd'
    cases heq
    refine .queued hc ?_
    rw [hqueue]
    exact mem_cons_self
  | @proceed d h' h'' i m hd =>
    refine h.mono (fun call hcall hj => .call hcall hj) (fun c hc m hm => .queued hc hm)
      (fun m ht => .timer ht) fun m₁ h₁ hd' => ?_
    obtain hd' | heq := mem_or_eq_of_mem_set hd'
    · exact .running hd'
    · cases heq
      exact .running (mem_of_getElem? hd)
  | succeed | bury | retry => cases hsettle
  | fire ht hc => exact holds_fire ht hc h

variable {d : Nat} {m : Message} {h' : σ}

def State.released (s : State σ) (d i : Nat) : State σ :=
  { s with drains := s.drains.set d ⟨i, .loop⟩ }

section
variable (h : Inv topics s) (hd : s.drains[d]? = some ⟨i, .deliver m h'⟩)
include h hd

theorem Inv.running_once :
    (s.released d i).weight (places σ i m.event.id) = 0 ∧ s.finished i m.event.id = 0 ∧
      s.published topics i m.event.id = 1 := by
  have hle := published_le_one topics h.ids i m.event.id
  have honce := h.once i m.event.id
  have heq : (s.released d i).weight (places σ i m.event.id) +
      (if i = i ∧ m.event.id = m.event.id then 1 else 0) = s.weight (places σ i m.event.id) :=
    weight_setDrain (w := places σ i m.event.id) hd .loop
  rw [if_pos ⟨rfl, rfl⟩] at heq
  omega

theorem Inv.released_ne {j : Nat} {m' : Message} (hm' : (s.released d i).Holds j m') :
    ¬ (i = j ∧ m.event.id = m'.event.id) := by
  rintro ⟨rfl, hid⟩
  have hpos := hm'.count_pos
  rw [← hid, (h.running_once hd).1] at hpos
  exact absurd hpos (Nat.lt_irrefl 0)

theorem Inv.finished_ne {j : Nat} {x : String} (hx : 0 < s.finished j x) :
    ¬ (i = j ∧ m.event.id = x) := by
  rintro ⟨rfl, rfl⟩
  rw [(h.running_once hd).2.1] at hx
  exact absurd hx (Nat.lt_irrefl 0)

end

theorem released_holds (hm' : (s.released d i).Holds j m') :
    s.Holds j m' := by
  refine hm'.mono (fun call hcall hj => .call hcall hj) (fun c hc m hm => .queued hc hm)
    (fun m ht => .timer ht) fun m₁ h₁ hd' => ?_
  exact .running (mem_of_mem_set hd' nofun)

section
variable (h : Inv topics s) (hd : s.drains[d]? = some ⟨i, .deliver m h'⟩) {ok : Bool}
    (hattempts : s'.attempts = s.attempts ++ [⟨i, m.event, ok⟩])
include h hd hattempts

theorem settle_outcomes :
    s'.outcomes i m.event.id = List.replicate (m.attempt - 1) false ++ [ok] ∧
      ∀ j x, ¬ (i = j ∧ m.event.id = x) → s'.outcomes j x = s.outcomes j x := by
  obtain ⟨-, -, -, houtcomes⟩ := h.held i m (.running (mem_of_getElem? hd))
  refine ⟨?_, fun j x hne => ?_⟩
  · rw [outcomes_append hattempts, houtcomes, if_pos ⟨rfl, rfl⟩]
  · rw [outcomes_append hattempts, if_neg hne, append_nil]

theorem settle_held {j : Nat} {m' : Message} (hm' : (s.released d i).Holds j m') :
    m'.event ∈ s.log ∧ 1 ≤ m'.attempt ∧ m'.attempt ≤ maxAttempts ∧
      s'.outcomes j m'.event.id = List.replicate (m'.attempt - 1) false := by
  rw [(settle_outcomes h hd hattempts).2 j _ (h.released_ne hd hm')]
  exact h.held j m' (released_holds hm')

end

end

theorem one_le_maxAttempts : 1 ≤ maxAttempts := by decide

theorem held_step (h : Inv topics s) (he : Effect topics s a s') (j : Nat) (m' : Message)
    (hm' : s'.Holds j m') :
    m'.event ∈ s'.log ∧ 1 ≤ m'.attempt ∧ m'.attempt ≤ maxAttempts ∧
      s'.outcomes j m'.event.id = List.replicate (m'.attempt - 1) false := by
  have hback (hpublish : a.isPublish = false) (hsettle : a.isSettle = false) :=
    holds_step he hpublish hsettle hm'
  cases he with
  | @publish e hnew =>
    have hmem {e' : DomainEvent} (he' : e' ∈ s.log) : e' ∈ s.log ++ [e] := mem_append_left _ he'
    have hold (hm : s.Holds j m') := (h.held j m' hm).imp_left hmem
    cases hm' with
    | call hcall hi =>
      obtain hcall | rfl := mem_concat_cases hcall
      · exact hold (.call hcall hi)
      refine ⟨mem_concat_self, Nat.le_refl 1, one_le_maxAttempts, ?_⟩
      refine h.unpublished j e.id (countP_eq_zero.mpr fun e' he' hp => ?_)
      exact hnew e' he' (of_decide_eq_true hp).1
    | queued hc hm => exact hold (.queued hc hm)
    | timer ht => exact hold (.timer ht)
    | running hd => exact hold (.running hd)
  | push hcall hc | fire ht hc =>
    rw [drain_log, outcomes, drain_attempts]
    exact h.held j m' (hback rfl rfl)
  | finish | skip | call | proceed =>
    exact h.held j m' (hback rfl rfl)
  | succeed hd hc =>
    refine settle_held h hd rfl ?_
    exact holds_queue hm' hc rfl (fun _ hm => hm) rfl rfl fun _ _ hd' => .running hd'
  | bury hd hc hlast =>
    refine settle_held h hd rfl (hm'.mono (fun call hcall hj => .call hcall hj)
      (fun c hc m hm => .queued hc hm) (fun m ht => .timer ht) fun m h hd' => .running hd')
  | @retry d h' i c m hd hc hagain =>
    cases hm' with
    | timer ht =>
      obtain ht | heq := mem_concat_cases ht
      · exact settle_held h hd rfl (.timer ht)
      cases heq
      obtain ⟨hmem, hpos, -, -⟩ := h.held _ m (.running (mem_of_getElem? hd))
      refine ⟨hmem, Nat.le_add_left 1 _, hagain, ?_⟩
      refine (settle_outcomes h hd rfl).1.trans ?_
      rw [← replicate_succ', Nat.sub_add_cancel hpos]
      rfl
    | call hcall hi => exact settle_held h hd rfl (.call hcall hi)
    | queued hc hm => exact settle_held h hd rfl (.queued hc hm)
    | running hd' => exact settle_held h hd rfl (.running hd')

theorem finished_pos_of_processed (hx : x ∈ processedBy s.consumers i) :
    0 < s.finished i x := by
  have hpos := count_pos_iff.mpr hx
  rw [finished]
  omega

theorem finished_pos_of_dead {e : DomainEvent} (he : (i, e) ∈ s.dead) :
    0 < s.finished i e.id := by
  have hpos : 0 < s.dead.countP fun p => p.1 = i ∧ p.2.id = e.id :=
    countP_pos_iff.mpr ⟨(i, e), he, decide_eq_true ⟨rfl, rfl⟩⟩
  rw [finished]
  omega

theorem outcomes_same (he : Effect topics s a s') (hsettle : a.isSettle = false) (j : Nat)
    (x : String) : s'.outcomes j x = s.outcomes j x := by
  cases he with
  | push | fire => rw [outcomes, drain_attempts]; rfl
  | publish | finish | skip | call | proceed => rfl
  | succeed | bury | retry => cases hsettle

theorem processedBy_step (he : Effect topics s a s') (hsettle : a.isSuccess = false)
    (j : Nat) : processedBy s'.consumers j = processedBy s.consumers j := by
  cases he with
  | push hcall hc | fire ht hc =>
    rw [drain_consumers]
    exact listAt_same hc (by rfl) j
  | finish hd hc hqueue | skip hd hc hqueue hdone | call hd hc hqueue hdone =>
    exact listAt_same hc (by rfl) j
  | publish | proceed | bury | retry => rfl
  | succeed => cases hsettle

section
variable (h : Inv topics s) (he : Effect topics s a s') (j : Nat)
include h he j

theorem unpublished_step (x : String) (hzero : s'.published topics j x = 0) :
    s'.outcomes j x = [] := by
  have hsame := outcomes_same he
  have hsettled {d i : Nat} {m : Message} {h' : σ} {ok : Bool}
      (hd : s.drains[d]? = some ⟨i, .deliver m h'⟩) (hzero : s.published topics j x = 0)
      (hattempts : s'.attempts = s.attempts ++ [⟨i, m.event, ok⟩]) : s'.outcomes j x = [] := by
    rw [(settle_outcomes h hd hattempts).2 j x]
    · exact h.unpublished j x hzero
    rintro ⟨rfl, rfl⟩
    rw [(h.running_once hd).2.2] at hzero
    cases hzero
  cases he with
  | publish hnew =>
    rw [published_append] at hzero
    exact h.unpublished j x (Nat.eq_zero_of_add_eq_zero_right hzero)
  | push | fire =>
    rw [hsame rfl]
    rw [published, drain_log] at hzero
    exact h.unpublished j x hzero
  | finish | skip | call | proceed => exact h.unpublished j x hzero
  | succeed hd hc | bury hd hc hlast | retry hd hc hagain => exact hsettled hd hzero rfl

theorem processed_step (x : String) (hx : x ∈ processedBy s'.consumers j) :
    ∃ k < maxAttempts, s'.outcomes j x = List.replicate k false ++ [true] := by
  have hsame := outcomes_same he
  have hprocessed := processedBy_step he
  have hsettled {d i : Nat} {m : Message} {h' : σ} {ok : Bool}
      (hd : s.drains[d]? = some ⟨i, .deliver m h'⟩) (hx : x ∈ processedBy s.consumers j)
      (hattempts : s'.attempts = s.attempts ++ [⟨i, m.event, ok⟩]) :
      ∃ k < maxAttempts, s'.outcomes j x = replicate k false ++ [true] := by
    have hne := h.finished_ne hd (finished_pos_of_processed hx)
    rw [(settle_outcomes h hd hattempts).2 j x hne]
    exact h.processed j x hx
  cases he with
  | @succeed d h' i c m hd hc =>
    rw [processedBy, listAt_set hc] at hx
    split at hx
    · rename_i hji
      subst hji
      obtain hx | hx := mem_append.mp hx
      · refine hsettled hd ?_ rfl
        rw [processedBy, listAt_of hc]
        exact hx
      obtain ⟨-, hpos, hle, -⟩ := h.held j m (.running (mem_of_getElem? hd))
      rw [mem_singleton.mp hx]
      exact ⟨m.attempt - 1, by omega, (settle_outcomes h hd rfl).1⟩
    · exact hsettled hd hx rfl
  | bury hd hc hlast | retry hd hc hagain =>
    exact hsettled hd hx rfl
  | publish | push | finish | skip | call | proceed | fire =>
    rw [hprocessed rfl] at hx
    rw [hsame rfl]
    exact h.processed j x hx

theorem dead_step (e : DomainEvent) (hdead : (j, e) ∈ s'.dead) :
    s'.outcomes j e.id = List.replicate maxAttempts false := by
  have hsame := outcomes_same he
  have hsettled {d i : Nat} {m : Message} {h' : σ} {ok : Bool}
      (hd : s.drains[d]? = some ⟨i, .deliver m h'⟩) (hdead : (j, e) ∈ s.dead)
      (hattempts : s'.attempts = s.attempts ++ [⟨i, m.event, ok⟩]) :
      s'.outcomes j e.id = replicate maxAttempts false := by
    have hne := h.finished_ne hd (finished_pos_of_dead hdead)
    rw [(settle_outcomes h hd hattempts).2 j e.id hne]
    exact h.dead j e hdead
  cases he with
  | succeed hd hc | retry hd hc hagain => exact hsettled hd hdead rfl
  | @bury d h' i c m hd hc hlast =>
    obtain hdead | heq := mem_concat_cases hdead
    · exact hsettled hd hdead rfl
    cases heq
    obtain ⟨-, hpos, hle, -⟩ := h.held _ m (.running (mem_of_getElem? hd))
    refine (settle_outcomes h hd rfl).1.trans ?_
    rw [← replicate_succ', Nat.sub_add_cancel hpos, Nat.le_antisymm hle hlast]
  | push | fire =>
    rw [drain_dead] at hdead
    rw [hsame rfl]
    exact h.dead j e hdead
  | publish | finish | skip | call | proceed => exact h.dead j e hdead

end

theorem step_inv (h : Inv topics s) (hstep : step topics s a = some s') : Inv topics s' := by
  have he := effect_of_step hstep
  exact
    { consumers := consumers_step h he
      valid := valid_step h he
      draining := draining_step h he
      queues := queues_step h he
      ids := ids_step h he
      once := once_step h he
      held := held_step h he
      unpublished := unpublished_step h he
      processed := processed_step h he
      dead := dead_step h he }

theorem consumer_initial
    (hc : (initial σ topics).consumers[i]? = some c) : c = ⟨[], false, []⟩ := by
  obtain ⟨-, -, rfl⟩ := mem_map.mp (mem_of_getElem? hc)
  rfl

theorem weight_initial (w : Weights σ) : (initial σ topics).weight w = 0 := by
  rw [weight]
  by_contra hne
  obtain ⟨i, c, hc, hpos⟩ := exists_of_weighAt_pos
    (f := fun i (c : Consumer) => weigh (w.queued i) c.queue)
    (l := (initial σ topics).consumers) (Nat.pos_of_ne_zero fun hzero => hne (by rw [hzero]; rfl))
  rw [consumer_initial hc] at hpos
  cases hpos

theorem processedBy_initial (i : Nat) : processedBy (initial σ topics).consumers i = [] := by
  rw [processedBy, listAt]
  split
  · rename_i c hc
    rw [consumer_initial hc]
  · rfl

theorem inv_initial (σ : Type) (topics : List Topic) : Inv topics (initial σ topics) where
  consumers := List.length_map _
  valid := weight_initial _
  draining i c hc := by
    rw [consumer_initial hc]
    exact weight_initial _
  queues i c hc hne := by
    rw [consumer_initial hc] at hne
    exact absurd rfl hne
  ids := nodup_nil
  once i x := by
    rw [weight_initial, finished, processedBy_initial]
    rfl
  held i m hm := by
    cases hm with
    | call hcall => cases hcall
    | queued hc hm =>
      rw [consumer_initial hc] at hm
      cases hm
    | timer ht => cases ht
    | running hd => cases hd
  unpublished _ _ _ := rfl
  processed i x hx := by
    rw [processedBy_initial] at hx
    cases hx
  dead i e he := by cases he

/-! ## Progress -/

def effort (attempt : Nat) : Nat := 2 + 4 * (maxAttempts - attempt)

def remaining (σ : Type) : Weights σ where
  call _ _ := effort 1 + 2
  queued _ m := effort m.attempt
  timer _ m := effort m.attempt + 2
  loop _ := 1
  running _ m _ := effort m.attempt

def Label.advances : Label σ → Bool
  | .push _ | .next _ _ | .settle _ _ | .fire _ => true
  | .publish _ | .proceed _ _ => false

theorem effort_retry {attempt : Nat} (h : attempt < maxAttempts) :
    effort attempt = effort (attempt + 1) + 4 := by
  rw [effort, effort]
  omega

theorem two_le_effort (attempt : Nat) : 2 ≤ effort attempt := Nat.le_add_right _ _

theorem remaining_step (he : Effect topics s a s') (hpublish : a.isPublish = false) :
    (if a.advances then 1 else 0) + s'.weight (remaining σ) ≤ s.weight (remaining σ) := by
  cases he with
  | publish hnew => cases hpublish
  | @push k e i rest c hcall hc =>
    have heq : _ + (effort 1 + 2) = _ + effort 1 + (if c.draining then 0 else 1) :=
      weight_push (w := remaining σ) hcall hc
    rw [Label.advances, if_pos rfl]
    split at heq
    · omega
    · omega
  | finish hd hc hqueue =>
    have heq : _ + 1 = _ := weight_finish (w := remaining σ) hd hc
    rw [Label.advances, if_pos rfl]
    omega
  | @skip d h i c m queue hd hc hqueue hdone =>
    have heq : _ + effort m.attempt = _ := weight_skip (w := remaining σ) hc hqueue
    have htwo := two_le_effort m.attempt
    rw [Label.advances, if_pos rfl]
    omega
  | @call d h i c m queue hd hc hqueue hdone =>
    have heq : _ + 1 + effort m.attempt = _ + effort m.attempt :=
      weight_call (w := remaining σ) hd hc hqueue h
    rw [Label.advances, if_pos rfl]
    omega
  | @proceed d h h' i m hd =>
    have heq : _ + effort m.attempt = _ + effort m.attempt :=
      weight_proceed (w := remaining σ) hd h'
    rw [Label.advances, if_neg Bool.false_ne_true]
    omega
  | @succeed d h i c m hd hc =>
    have heq : _ + effort m.attempt = _ + 1 := weight_succeed (w := remaining σ) hd hc
      (c.processed ++ [m.event.id]) (s.attempts ++ [⟨i, m.event, true⟩])
    have htwo := two_le_effort m.attempt
    rw [Label.advances, if_pos rfl]
    omega
  | @bury d h i c m hd hc hlast =>
    have heq : _ + effort m.attempt = _ + 1 := weight_bury (w := remaining σ) hd
      (s.attempts ++ [⟨i, m.event, false⟩]) (s.dead ++ [(i, m.event)])
    have htwo := two_le_effort m.attempt
    rw [Label.advances, if_pos rfl]
    omega
  | @retry d h i c m hd hc hagain =>
    have heq : _ + effort m.attempt = _ + 1 + (effort (m.attempt + 1) + 2) :=
      weight_retry (w := remaining σ) hd (s.attempts ++ [⟨i, m.event, false⟩])
        { m with attempt := m.attempt + 1 }
    have hmore := effort_retry hagain
    rw [Label.advances, if_pos rfl]
    omega
  | @fire t i m c ht hc =>
    have heq : _ + (effort m.attempt + 2) = _ + effort m.attempt + (if c.draining then 0 else 1) :=
      weight_fire (w := remaining σ) ht hc
    rw [Label.advances, if_pos rfl]
    split at heq
    · omega
    · omega

theorem stray_of_pos {n : Nat} (h : (if n ≤ i then 1 else 0) = 0) : i < n := by
  by_contra hle
  rw [if_pos (Nat.le_of_not_lt hle)] at h
  cases h

theorem Inv.consumer (h : Inv topics s) :
    (∀ call ∈ s.calls, ∀ i ∈ call.rest, i < s.consumers.length) ∧
      (∀ t ∈ s.timers, t.consumer < s.consumers.length) ∧
      ∀ d ∈ s.drains, d.consumer < s.consumers.length := by
  have hzero := h.valid
  rw [h.consumers]
  refine ⟨fun call hcall i hi => ?_, fun t ht => ?_, fun d hd => ?_⟩
  · have hcalls : weigh _ s.calls = 0 := Nat.eq_zero_of_add_eq_zero_right
      (Nat.eq_zero_of_add_eq_zero_right (Nat.eq_zero_of_add_eq_zero_right hzero))
    exact stray_of_pos (weigh_eq_zero.mp (weigh_eq_zero.mp hcalls call hcall) i hi)
  · have htimers : weigh _ s.timers = 0 :=
      Nat.eq_zero_of_add_eq_zero_left (Nat.eq_zero_of_add_eq_zero_right hzero)
    exact stray_of_pos (weigh_eq_zero.mp htimers t ht)
  have hdrains : weigh _ s.drains = 0 := Nat.eq_zero_of_add_eq_zero_left hzero
  have hd := weigh_eq_zero.mp hdrains d hd
  rw [Weights.drain] at hd
  split at hd
  all_goals exact stray_of_pos hd

theorem Inv.progress [Inhabited σ] (h : Inv topics s) :
    s.Idle ∨ ∃ b : Label σ, b.advances = true ∧ (step topics s b).isSome = true := by
  obtain ⟨hcalls, htimers, hdrains⟩ := h.consumer
  by_cases hrest : ∀ call ∈ s.calls, call.rest = []
  · cases hd : s.drains with
    | nil =>
      cases ht : s.timers with
      | nil => exact .inl ⟨hrest, hd, ht⟩
      | cons t timers =>
        have hc := getElem?_eq_getElem (htimers t (by rw [ht]; exact mem_cons_self))
        refine .inr ⟨.fire 0, rfl, ?_⟩
        simp [step, ht, hc]
    | cons d drains =>
      have hc := getElem?_eq_getElem (hdrains d (by rw [hd]; exact mem_cons_self))
      obtain ⟨i, pc⟩ := d
      cases pc with
      | loop =>
        refine .inr ⟨.next 0 default, rfl, ?_⟩
        simp only [step, hd, getElem?_cons_zero, hc]
        split
        · rfl
        split
        · rfl
        · rfl
      | deliver m h' =>
        refine .inr ⟨.settle 0 true, rfl, ?_⟩
        simp [step, hd, hc]
  · simp only [not_forall] at hrest
    obtain ⟨⟨e, rest⟩, hcall, hne⟩ := hrest
    cases rest with
    | nil => exact absurd rfl hne
    | cons i rest =>
      obtain ⟨k, hk⟩ := mem_iff_getElem?.mp hcall
      have hc := getElem?_eq_getElem (hcalls _ hcall i mem_cons_self)
      refine .inr ⟨.push k, rfl, ?_⟩
      simp [step, hk, hc]

/-! ## Results -/

section
variable (h : Inv topics s)
include h

theorem Inv.outcomes_shape (i : Nat) (x : String) :
    ∃ k ≤ maxAttempts, s.outcomes i x = List.replicate k false ∨
      k < maxAttempts ∧ s.outcomes i x = List.replicate k false ++ [true] := by
  by_cases hplace : 0 < s.weight (places σ i x)
  · obtain ⟨m, hm, rfl⟩ := exists_holds hplace
    obtain ⟨-, -, hle, houtcomes⟩ := h.held i m hm
    exact ⟨m.attempt - 1, Nat.le_trans (Nat.sub_le _ _) hle, .inl houtcomes⟩
  by_cases hprocessed : x ∈ processedBy s.consumers i
  · obtain ⟨k, hk, houtcomes⟩ := h.processed i x hprocessed
    exact ⟨k, Nat.le_of_lt hk, .inr ⟨hk, houtcomes⟩⟩
  by_cases hdead : ∃ e, (i, e) ∈ s.dead ∧ e.id = x
  · obtain ⟨e, hmem, rfl⟩ := hdead
    exact ⟨maxAttempts, Nat.le_refl _, .inl (h.dead i e hmem)⟩
  have hcount : (s.dead.countP fun p => p.1 = i ∧ p.2.id = x) = 0 := by
    refine countP_eq_zero.mpr fun p hp hmatch => hdead ?_
    obtain ⟨rfl, hid⟩ := of_decide_eq_true hmatch
    exact ⟨p.2, hp, hid⟩
  have honce := h.once i x
  rw [finished, count_eq_zero.mpr hprocessed, hcount] at honce
  exact ⟨0, Nat.zero_le _, .inl (h.unpublished i x (by omega))⟩

variable {i : Nat} {c : Consumer}

theorem Inv.one_handler {d d' : Nat} {m m' : Message} {h₁ h₂ : σ}
    (hd : s.drains[d]? = some ⟨i, .deliver m h₁⟩) (hd' : s.drains[d']? = some ⟨i, .deliver m' h₂⟩) :
    d = d' := by
  by_contra hne
  have htwo := add_le_weigh (f := (activity σ i).drain) hd hd' hne
  have hc := getElem?_eq_getElem (h.consumer.2.2 _ (mem_of_getElem? hd))
  have hactive := h.draining i _ hc
  simp only [Weights.drain, activity, if_true] at htwo
  rw [weight] at hactive
  split at hactive
  all_goals
    simp only [activity] at hactive
    omega

theorem Inv.drained (hc : s.consumers[i]? = some c) (hne : c.queue ≠ []) :
    ∃ d ∈ s.drains, d.consumer = i := by
  have hactive := h.draining i c hc
  rw [h.queues i c hc hne, if_pos rfl] at hactive
  have hone : 0 < s.weight (activity σ i) := Nat.lt_of_lt_of_eq Nat.one_pos hactive.symm
  obtain ⟨_, _, _, _, hpos⟩ | ⟨_, _, _, _, _, hpos⟩ | ⟨_, _, hpos⟩ | ⟨⟨j, pc⟩, hd, hpos⟩ :=
    exists_of_weight_pos hone
  · cases hpos
  · cases hpos
  · cases hpos
  refine ⟨_, hd, ?_⟩
  cases pc with
  | loop | deliver m h' => exact indicator_pos hpos

theorem Inv.idle_queues (hidle : s.Idle) (hc : s.consumers[i]? = some c) :
    c.queue = [] := by
  by_contra hne
  obtain ⟨d, hd, -⟩ := h.drained hc hne
  rw [hidle.drains] at hd
  cases hd

theorem Inv.idle_finished (hidle : s.Idle) {e : DomainEvent} (he : e ∈ s.log)
    (hi : topics[i]? = some e.type) :
    s.outcomes i e.id ≠ [] ∧
      (e.id ∈ processedBy s.consumers i ∨ ∃ e', (i, e') ∈ s.dead ∧ e'.id = e.id) := by
  have hnone : s.weight (places σ i e.id) = 0 := by
    by_contra hpos
    obtain ⟨m, hm, -⟩ := exists_holds (Nat.pos_of_ne_zero hpos)
    cases hm with
    | call hcall hj =>
      rw [hidle.calls _ hcall] at hj
      cases hj
    | queued hc hm =>
      rw [h.idle_queues hidle hc] at hm
      cases hm
    | timer ht =>
      rw [hidle.timers] at ht
      cases ht
    | running hd =>
      rw [hidle.drains] at hd
      cases hd
  have hpublished : 0 < s.published topics i e.id :=
    countP_pos_iff.mpr ⟨e, he, decide_eq_true ⟨rfl, hi⟩⟩
  have honce := h.once i e.id
  by_cases hprocessed : e.id ∈ processedBy s.consumers i
  · obtain ⟨k, -, houtcomes⟩ := h.processed i e.id hprocessed
    refine ⟨?_, .inl hprocessed⟩
    rw [houtcomes]
    exact append_ne_nil_of_right_ne_nil _ (cons_ne_nil _ _)
  rw [finished, count_eq_zero.mpr hprocessed] at honce
  have hcount : 0 < s.dead.countP fun p => p.1 = i ∧ p.2.id = e.id := by omega
  obtain ⟨⟨j, e'⟩, hmem, hmatch⟩ := countP_pos_iff.mp hcount
  obtain ⟨rfl, hid⟩ := of_decide_eq_true hmatch
  refine ⟨?_, .inr ⟨e', hmem, hid⟩⟩
  rw [← hid, h.dead _ e' hmem]
  exact cons_ne_nil _ _

end

end

/-- In every run: the attempts of a consumer at an event are at most four, and all but the last
one have failed; a handler is only called for a published event that has not been processed or
buried, and a consumer has at most one handler running. -/
theorem events_delivered {σ : Type} [Inhabited σ] {topics : List Topic} {as : List (Label σ)}
    {s : State σ} (hrun : run (step topics) (initial σ topics) as = some s) :
    (∀ i x, ∃ k ≤ maxAttempts, s.outcomes i x = List.replicate k false ∨
      k < maxAttempts ∧ s.outcomes i x = List.replicate k false ++ [true]) ∧
    (∀ (d i : Nat) (m : Message) (h : σ), s.drains[d]? = some ⟨i, .deliver m h⟩ →
      m.event ∈ s.log ∧ s.published topics i m.event.id = 1 ∧
        ∃ k < maxAttempts, s.outcomes i m.event.id = List.replicate k false) ∧
    (∀ (d d' i : Nat) (m m' : Message) (h h' : σ), s.drains[d]? = some ⟨i, .deliver m h⟩ →
      s.drains[d']? = some ⟨i, .deliver m' h'⟩ → d = d') ∧
    (s.Idle → (∀ c ∈ s.consumers, c.queue = []) ∧
      ∀ i, ∀ e ∈ s.log, topics[i]? = some e.type → s.outcomes i e.id ≠ [] ∧
        (e.id ∈ processedBy s.consumers i ∨ ∃ e', (i, e') ∈ s.dead ∧ e'.id = e.id)) ∧
    ∀ (bs : List (Label σ)) (t : State σ), (∀ b ∈ bs, b.isPublish = false) →
      run (step topics) s bs = some t →
      bs.countP Label.advances ≤ s.weight (remaining σ) ∧
        (t.Idle ∨ ∃ b : Label σ, b.advances = true ∧ (step topics t b).isSome = true) := by
  have hs : Inv topics s := run_invariant (fun _ _ _ => step_inv) (inv_initial σ topics) hrun
  refine ⟨hs.outcomes_shape, fun d i m h hd => ?_, fun d d' i m m' h h' => hs.one_handler,
    fun hidle => ⟨fun c hc => ?_, fun i e he hi => hs.idle_finished hidle he hi⟩,
    fun bs t hbs hrun' => ⟨?_, ?_⟩⟩
  · obtain ⟨hmem, hpos, hle, houtcomes⟩ := hs.held i m (.running (mem_of_getElem? hd))
    exact ⟨hmem, (hs.running_once hd).2.2, m.attempt - 1, by omega, houtcomes⟩
  · obtain ⟨i, hi⟩ := mem_iff_getElem?.mp hc
    exact hs.idle_queues hidle hi
  · have hcount := run_countP_le_of_meets (c := fun _ b => b.isPublish = false)
      (m := fun s => s.weight (remaining σ)) (p := Label.advances)
      (fun _ _ _ hok h => remaining_step (effect_of_step h) hok)
      (runMeets_of_forall (fun b hb _ => hbs b hb) s) hrun'
    exact Nat.le_of_add_right_le hcount
  · exact (run_invariant (fun _ _ _ => step_inv) hs hrun' : Inv topics t).progress

/-! ## A retry -/

def unavailableEvent (id : String) : DomainEvent :=
  ⟨id, .riderUnavailable, "order-1", "2026-01-01T10:00:00.000Z", .empty⟩

def retriedOnce : List (Label Unit) :=
  [.publish (unavailableEvent "e1"), .push 0, .next 0 (), .settle 0 false, .next 0 (), .fire 0,
    .next 0 (), .settle 0 true, .next 0 ()]

theorem events_delivered_retried :
    ∃ s, run (step [.riderUnavailable]) (initial Unit [.riderUnavailable]) retriedOnce = some s ∧
      s.outcomes 0 "e1" = [false, true] ∧ s.Idle ∧ ∀ c ∈ s.consumers, c.queue = [] := by
  refine exists_some_imp (A := fun s => s.outcomes 0 "e1" = [false, true] ∧
    (∀ call ∈ s.calls, call.rest = []) ∧ s.drains.length = 0 ∧ s.timers = [])
    (by decide +kernel) fun s hrun ⟨houtcomes, hcalls, hdrains, htimers⟩ => ?_
  have hidle : s.Idle := ⟨hcalls, eq_nil_of_length_eq_zero hdrains, htimers⟩
  obtain ⟨-, -, -, hdone, -⟩ := events_delivered hrun
  exact ⟨houtcomes, hidle, (hdone hidle).1⟩

/-- At every moment an event published to a consumer is in exactly one of the consumer's places
or finished there exactly once, and no other event is. -/
theorem events_conserved {σ : Type} [Inhabited σ] {topics : List Topic} {as : List (Label σ)}
    {s : State σ} (hrun : run (step topics) (initial σ topics) as = some s) (i : Nat) (x : String) :
    s.weight (places σ i x) + s.finished i x = s.published topics i x ∧
      s.published topics i x ≤ 1 := by
  have hs : Inv topics s := run_invariant (fun _ _ _ => step_inv) (inv_initial σ topics) hrun
  exact ⟨hs.once i x, published_le_one topics hs.ids i x⟩

theorem events_conserved_retried :
    ∃ s, run (step [.riderUnavailable]) (initial Unit [.riderUnavailable]) retriedOnce = some s ∧
      s.weight (places Unit 0 "e1") + s.finished 0 "e1" = 1 :=
  exists_some_imp (A := fun s => s.published [.riderUnavailable] 0 "e1" = 1) (by decide +kernel)
    fun _ hrun hone => (events_conserved hrun 0 "e1").1.trans hone

end GoServices.FoodEda.Bus
