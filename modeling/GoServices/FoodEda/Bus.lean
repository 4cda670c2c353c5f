/-
The in-memory event bus.

The bus has one consumer per subscription, each with its own queue.
-/
import GoServices.Base.Run
import GoServices.Base.Weights

namespace GoServices.FoodEda

/-! ## Events -/

inductive Topic
  | orderPlaced
  | paymentRequested
  | paymentAuthorized
  | paymentFailed
  | restaurantNotified
  | restaurantAccepted
  | restaurantRejected
  | foodPreparing
  | foodReady
  | riderAssigned
  | riderUnavailable
  | orderPickedUp
  | orderDelivered
  | orderCancelled
  deriving DecidableEq

inductive Payload
  | empty
  | order (customerId restaurantId : String) (amount : Nat)
  | charge (amount : Nat) (customerId : String)
  | receipt (amount : Option Nat) (txnId : String)
  | reason (reason : String)
  | rider (riderId : String)
  deriving DecidableEq

structure DomainEvent where
  id : String
  type : Topic
  orderId : String
  timestamp : String
  payload : Payload
  deriving DecidableEq

/-- The copy of an event in a queue.  An event is published with `attempt` 1, and only its
copies have another number. -/
structure Message where
  event : DomainEvent
  attempt : Nat

namespace Bus

/-! ## State -/

structure Consumer where
  queue : List Message
  draining : Bool
  processed : List String

/-- A call of `publish`, with the consumers that its loop has not reached. -/
structure Call where
  event : DomainEvent
  rest : List Nat

inductive DrainPc (σ : Type)
  | loop
  /-- In `deliver`, with the state of the handler. -/
  | deliver (message : Message) (handler : σ)

/-- A call of `drain` that has set the flag. -/
structure Drain (σ : Type) where
  consumer : Nat
  pc : DrainPc σ

structure Timer where
  consumer : Nat
  message : Message

structure Attempt where
  consumer : Nat
  event : DomainEvent
  ok : Bool

structure State (σ : Type) where
  consumers : List Consumer
  log : List DomainEvent
  calls : List Call
  drains : List (Drain σ)
  timers : List Timer
  attempts : List Attempt
  dead : List (Nat × DomainEvent)

/-- The bus after `subscribe` was called for each of the topics. -/
def initial (σ : Type) (topics : List Topic) : State σ :=
  { consumers := topics.map fun _ => ⟨[], false, []⟩
    log := [], calls := [], drains := [], timers := [], attempts := [], dead := [] }

def maxAttempts : Nat := 4

def subscribers (topics : List Topic) (topic : Topic) : List Nat :=
  (List.range topics.length).filter fun i => topics[i]? = some topic

inductive Label (σ : Type)
  /-- `publish` up to its loop. -/
  | publish (event : DomainEvent)
  /-- An iteration of the loop of `publish`. -/
  | push (call : Nat)
  /-- An iteration of the loop of `drain`; a handler that it calls starts in the given state. -/
  | next (drain : Nat) (handler : σ)
  | proceed (drain : Nat) (handler : σ)
  /-- A handler ends, and `deliver` with it. -/
  | settle (drain : Nat) (ok : Bool)
  | fire (timer : Nat)

def Label.isPublish {σ : Type} : Label σ → Bool
  | .publish _ => true
  | _ => false

def Label.isSettle {σ : Type} : Label σ → Bool
  | .settle _ _ => true
  | _ => false

def Label.isSuccess {σ : Type} : Label σ → Bool
  | .settle _ ok => ok
  | _ => false

/-! ## Steps -/

section
variable {σ : Type} (topics : List Topic)

def Consumer.push (c : Consumer) (m : Message) : Consumer := { c with queue := c.queue ++ [m] }

/-- `drain` for the consumer, up to its loop. -/
def State.drain (s : State σ) (i : Nat) (c : Consumer) : State σ :=
  if c.draining then { s with consumers := s.consumers.set i c }
  else
    { s with
      consumers := s.consumers.set i { c with draining := true }
      drains := s.drains ++ [⟨i, .loop⟩] }

/-- The rest of `deliver` after its handler has ended. -/
def State.deliver (s : State σ) (d i : Nat) (c : Consumer) (m : Message) (ok : Bool) : State σ :=
  let s : State σ := { s with
      drains := s.drains.set d ⟨i, .loop⟩
      attempts := s.attempts ++ [⟨i, m.event, ok⟩] }
  if ok then
    { s with consumers := s.consumers.set i { c with processed := c.processed ++ [m.event.id] } }
  else if maxAttempts ≤ m.attempt then { s with dead := s.dead ++ [(i, m.event)] }
  else { s with timers := s.timers ++ [⟨i, { m with attempt := m.attempt + 1 }⟩] }

def step (s : State σ) : Label σ → Option (State σ)
  | .publish e =>
    if ∀ e' ∈ s.log, e'.id ≠ e.id then
      some { s with log := s.log ++ [e], calls := s.calls ++ [⟨e, subscribers topics e.type⟩] }
    else none
  | .push k =>
    match s.calls[k]? with
    | some ⟨e, i :: rest⟩ =>
      match s.consumers[i]? with
      | some c =>
        some (State.drain { s with calls := s.calls.set k ⟨e, rest⟩ } i (c.push ⟨e, 1⟩))
      | none => none
    | _ => none
  | .next d h =>
    match s.drains[d]? with
    | some ⟨i, .loop⟩ =>
      match s.consumers[i]? with
      | some c =>
        match c.queue with
        | [] =>
          some { s with
            consumers := s.consumers.set i { c with draining := false }
            drains := s.drains.eraseIdx d }
        | m :: queue =>
          let s : State σ := { s with consumers := s.consumers.set i { c with queue := queue } }
          if m.event.id ∈ c.processed then some s
          else some { s with drains := s.drains.set d ⟨i, .deliver m h⟩ }
      | none => none
    | _ => none
  | .proceed d h =>
    match s.drains[d]? with
    | some ⟨i, .deliver m _⟩ => some { s with drains := s.drains.set d ⟨i, .deliver m h⟩ }
    | _ => none
  | .settle d ok =>
    match s.drains[d]? with
    | some ⟨i, .deliver m _⟩ =>
      match s.consumers[i]? with
      | some c => some (s.deliver d i c m ok)
      | none => none
    | _ => none
  | .fire t =>
    match s.timers[t]? with
    | some ⟨i, m⟩ =>
      match s.consumers[i]? with
      | some c => some (State.drain { s with timers := s.timers.eraseIdx t } i (c.push m))
      | none => none
    | none => none

/-! ## What a step does -/

inductive Effect : State σ → Label σ → State σ → Prop
  | publish {s e} (hnew : ∀ e' ∈ s.log, e'.id ≠ e.id) :
    Effect s (.publish e)
      { s with log := s.log ++ [e], calls := s.calls ++ [⟨e, subscribers topics e.type⟩] }
  | push {s k e i rest c} (hcall : s.calls[k]? = some ⟨e, i :: rest⟩)
      (hc : s.consumers[i]? = some c) :
    Effect s (.push k) (State.drain { s with calls := s.calls.set k ⟨e, rest⟩ } i (c.push ⟨e, 1⟩))
  | finish {s d h i c} (hd : s.drains[d]? = some ⟨i, .loop⟩) (hc : s.consumers[i]? = some c)
      (hqueue : c.queue = []) :
    Effect s (.next d h)
      { s with
        consumers := s.consumers.set i { c with draining := false }
        drains := s.drains.eraseIdx d }
  | skip {s d h i c m queue} (hd : s.drains[d]? = some ⟨i, .loop⟩)
      (hc : s.consumers[i]? = some c) (hqueue : c.queue = m :: queue)
      (hdone : m.event.id ∈ c.processed) :
    Effect s (.next d h) { s with consumers := s.consumers.set i { c with queue := queue } }
  | call {s d h i c m queue} (hd : s.drains[d]? = some ⟨i, .loop⟩)
      (hc : s.consumers[i]? = some c) (hqueue : c.queue = m :: queue)
      (hdone : m.event.id ∉ c.processed) :
    Effect s (.next d h)
      { s with
        consumers := s.consumers.set i { c with queue := queue }
        drains := s.drains.set d ⟨i, .deliver m h⟩ }
  | proceed {s d h h' i m} (hd : s.drains[d]? = some ⟨i, .deliver m h⟩) :
    Effect s (.proceed d h') { s with drains := s.drains.set d ⟨i, .deliver m h'⟩ }
  | succeed {s d h i c m} (hd : s.drains[d]? = some ⟨i, .deliver m h⟩)
      (hc : s.consumers[i]? = some c) :
    Effect s (.settle d true)
      { s with
        consumers := s.consumers.set i { c with processed := c.processed ++ [m.event.id] }
        drains := s.drains.set d ⟨i, .loop⟩
        attempts := s.attempts ++ [⟨i, m.event, true⟩] }
  | bury {s d h i c m} (hd : s.drains[d]? = some ⟨i, .deliver m h⟩)
      (hc : s.consumers[i]? = some c) (hlast : maxAttempts ≤ m.attempt) :
    Effect s (.settle d false)
      { s with
        drains := s.drains.set d ⟨i, .loop⟩
        attempts := s.attempts ++ [⟨i, m.event, false⟩]
        dead := s.dead ++ [(i, m.event)] }
  | retry {s d h i c m} (hd : s.drains[d]? = some ⟨i, .deliver m h⟩)
      (hc : s.consumers[i]? = some c) (hagain : m.attempt < maxAttempts) :
    Effect s (.settle d false)
      { s with
        drains := s.drains.set d ⟨i, .loop⟩
        attempts := s.attempts ++ [⟨i, m.event, false⟩]
        timers := s.timers ++ [⟨i, { m with attempt := m.attempt + 1 }⟩] }
  | fire {s t i m c} (ht : s.timers[t]? = some ⟨i, m⟩) (hc : s.consumers[i]? = some c) :
    Effect s (.fire t) (State.drain { s with timers := s.timers.eraseIdx t } i (c.push m))

variable {topics}

theorem effect_of_step {s s' : State σ} {a : Label σ} (h : step topics s a = some s') :
    Effect topics s a s' := by
  revert h
  fun_cases step topics s a <;> intro h <;> simp only [Option.some.injEq, reduceCtorEq] at h <;>
    subst h
  · exact .publish ‹_›
  · exact .push ‹_› ‹_›
  · exact .finish ‹_› ‹_› ‹_›
  · exact .skip ‹_› ‹_› ‹_› ‹_›
  · exact .call ‹_› ‹_› ‹_› ‹_›
  · exact .proceed ‹_›
  · rename_i ok i m _ hd c hc
    cases ok with
    | true => exact .succeed hd hc
    | false =>
      simp only [State.deliver, Bool.false_eq_true, if_false]
      split
      · rename_i hlast
        exact .bury hd hc hlast
      · rename_i hagain
        exact .retry hd hc (Nat.lt_of_not_le hagain)
  · exact .fire ‹_› ‹_›

end

/-! ## What `drain` leaves -/

section
variable {σ : Type} (s : State σ) (i : Nat) (c : Consumer)

theorem drain_consumers :
    (s.drain i c).consumers = s.consumers.set i { c with draining := true } := by
  rw [State.drain]
  split
  · rename_i hdraining
    rw [← hdraining]
  · rfl

theorem drain_drains :
    (s.drain i c).drains = if c.draining then s.drains else s.drains ++ [⟨i, .loop⟩] := by
  rw [State.drain]
  split
  · rfl
  · rfl

@[simp] theorem drain_log : (s.drain i c).log = s.log := by
  rw [State.drain]
  split <;> rfl

@[simp] theorem drain_calls : (s.drain i c).calls = s.calls := by
  rw [State.drain]
  split <;> rfl

@[simp] theorem drain_timers : (s.drain i c).timers = s.timers := by
  rw [State.drain]
  split <;> rfl

@[simp] theorem drain_attempts : (s.drain i c).attempts = s.attempts := by
  rw [State.drain]
  split <;> rfl

@[simp] theorem drain_dead : (s.drain i c).dead = s.dead := by
  rw [State.drain]
  split <;> rfl

theorem deliver_mem_drain {j : Nat} {m : Message} {h : σ}
    (hd : ⟨j, .deliver m h⟩ ∈ (s.drain i c).drains) : ⟨j, .deliver m h⟩ ∈ s.drains := by
  rw [drain_drains] at hd
  split at hd
  · exact hd
  obtain hd | hd := List.mem_append.mp hd
  · exact hd
  · cases List.mem_singleton.mp hd

end

/-! ## Weights

An event that a consumer has not finished with is in one of four places: in a call of `publish`,
in the queue, with a timer, or with the handler.  Counts of such places are weights.
-/

structure Weights (σ : Type) where
  call : Nat → DomainEvent → Nat
  queued : Nat → Message → Nat
  timer : Nat → Message → Nat
  loop : Nat → Nat
  running : Nat → Message → σ → Nat

section
variable {σ : Type} {topics : List Topic}

def Weights.drain (w : Weights σ) (d : Drain σ) : Nat :=
  match d.pc with
  | .loop => w.loop d.consumer
  | .deliver m h => w.running d.consumer m h

def State.weight (s : State σ) (w : Weights σ) : Nat :=
  weigh (fun call => weigh (fun i => w.call i call.event) call.rest) s.calls +
    weighAt (fun i c => weigh (w.queued i) c.queue) s.consumers +
    weigh (fun t => w.timer t.consumer t.message) s.timers + weigh w.drain s.drains

variable {s : State σ} {w : Weights σ} {i d : Nat} {c : Consumer} {m : Message} {h : σ}

theorem weight_publish (topics : List Topic) (e : DomainEvent) (log : List DomainEvent) :
    State.weight { s with log := log, calls := s.calls ++ [⟨e, subscribers topics e.type⟩] } w =
      s.weight w + weigh (fun i => w.call i e) (subscribers topics e.type) := by
  simp only [State.weight, weigh_append, weigh_cons, weigh_nil]
  omega

theorem weight_drain (hc : s.consumers[i]? = some c) (m : Message) :
    (s.drain i (c.push m)).weight w =
      s.weight w + w.queued i m + (if c.draining then 0 else w.loop i) := by
  have hset (b : Bool) := weighAt_set (f := fun i c => weigh (w.queued i) c.queue) hc
    { c.push m with draining := b }
  simp only [Consumer.push, weigh_append, weigh_cons, weigh_nil] at hset
  cases hdraining : c.draining with
  | true =>
    have hsum := hset true
    simp only [State.drain, Consumer.push, hdraining, if_true, State.weight]
    omega
  | false =>
    have hsum := hset true
    simp only [State.drain, Consumer.push, hdraining, Bool.false_eq_true, if_false, State.weight,
      weigh_append, weigh_cons, weigh_nil, Weights.drain]
    omega

theorem weight_push {k : Nat} {e : DomainEvent} {rest : List Nat}
    (hcall : s.calls[k]? = some ⟨e, i :: rest⟩) (hc : s.consumers[i]? = some c) :
    (State.drain { s with calls := s.calls.set k ⟨e, rest⟩ } i (c.push ⟨e, 1⟩)).weight w +
        w.call i e =
      s.weight w + w.queued i ⟨e, 1⟩ + (if c.draining then 0 else w.loop i) := by
  have hcalls := weigh_set
    (f := fun call => weigh (fun i => w.call i call.event) call.rest) hcall ⟨e, rest⟩
  rw [weight_drain (s := { s with calls := s.calls.set k ⟨e, rest⟩ }) hc]
  simp only [State.weight, weigh_cons] at hcalls ⊢
  omega

theorem weight_fire {t : Nat} (ht : s.timers[t]? = some ⟨i, m⟩) (hc : s.consumers[i]? = some c) :
    (State.drain { s with timers := s.timers.eraseIdx t } i (c.push m)).weight w + w.timer i m =
      s.weight w + w.queued i m + (if c.draining then 0 else w.loop i) := by
  have htimers := weigh_eraseIdx (f := fun t : Timer => w.timer t.consumer t.message) ht
  rw [weight_drain (s := { s with timers := s.timers.eraseIdx t }) hc]
  simp only [State.weight] at htimers ⊢
  omega

theorem weight_finish (hd : s.drains[d]? = some ⟨i, .loop⟩) (hc : s.consumers[i]? = some c) :
    State.weight { s with
        consumers := s.consumers.set i { c with draining := false }
        drains := s.drains.eraseIdx d } w + w.loop i = s.weight w := by
  have hdrains := weigh_eraseIdx (f := w.drain) hd
  have hqueues := weighAt_set (f := fun i c => weigh (w.queued i) c.queue) hc
    { c with draining := false }
  simp only [State.weight, Weights.drain] at hdrains hqueues ⊢
  omega

variable {queue : List Message}

theorem weight_skip (hc : s.consumers[i]? = some c) (hqueue : c.queue = m :: queue) :
    State.weight { s with consumers := s.consumers.set i { c with queue := queue } } w +
      w.queued i m = s.weight w := by
  have hqueues := weighAt_set (f := fun i c => weigh (w.queued i) c.queue) hc
    { c with queue := queue }
  simp only [hqueue, weigh_cons] at hqueues
  simp only [State.weight]
  omega

theorem weight_setDrain {x : Drain σ} (hd : s.drains[d]? = some x) (pc : DrainPc σ) :
    State.weight { s with drains := s.drains.set d ⟨x.consumer, pc⟩ } w + w.drain x =
      s.weight w + w.drain ⟨x.consumer, pc⟩ := by
  have hdrains := weigh_set (f := w.drain) hd ⟨x.consumer, pc⟩
  simp only [State.weight]
  omega

theorem weight_call (hd : s.drains[d]? = some ⟨i, .loop⟩) (hc : s.consumers[i]? = some c)
    (hqueue : c.queue = m :: queue) (h : σ) :
    State.weight { s with
        consumers := s.consumers.set i { c with queue := queue }
        drains := s.drains.set d ⟨i, .deliver m h⟩ } w + w.loop i + w.queued i m =
      s.weight w + w.running i m h := by
  have hskip := weight_skip (w := w) hc hqueue
  have hset := weight_setDrain (w := w)
    (s := { s with consumers := s.consumers.set i { c with queue := queue } }) hd (.deliver m h)
  simp only [Weights.drain] at hset
  omega

section
variable (hd : s.drains[d]? = some ⟨i, .deliver m h⟩)
include hd

theorem weight_proceed (h' : σ) :
    State.weight { s with drains := s.drains.set d ⟨i, .deliver m h'⟩ } w + w.running i m h =
      s.weight w + w.running i m h' :=
  weight_setDrain hd (.deliver m h')

theorem weight_succeed (hc : s.consumers[i]? = some c) (processed : List String)
    (attempts : List Attempt) :
    State.weight { s with
        consumers := s.consumers.set i { c with processed := processed }
        drains := s.drains.set d ⟨i, .loop⟩
        attempts := attempts } w + w.running i m h = s.weight w + w.loop i := by
  have hqueues := weighAt_set (f := fun i c => weigh (w.queued i) c.queue) hc
    { c with processed := processed }
  have hset := weight_setDrain (w := w) hd .loop
  simp only [State.weight, Weights.drain] at hqueues hset ⊢
  omega

theorem weight_bury (attempts : List Attempt) (dead : List (Nat × DomainEvent)) :
    State.weight { s with
        drains := s.drains.set d ⟨i, .loop⟩, attempts := attempts, dead := dead } w +
      w.running i m h = s.weight w + w.loop i :=
  weight_setDrain hd .loop

theorem weight_retry (attempts : List Attempt) (m' : Message) :
    State.weight { s with
        drains := s.drains.set d ⟨i, .loop⟩
        attempts := attempts
        timers := s.timers ++ [⟨i, m'⟩] } w + w.running i m h =
      s.weight w + w.loop i + w.timer i m' := by
  have hset := weight_setDrain (w := w) hd .loop
  simp only [State.weight, Weights.drain, weigh_append, weigh_cons, weigh_nil]
    at hset ⊢
  omega

end

theorem exists_of_weight_pos (hpos : 0 < s.weight w) :
    (∃ call ∈ s.calls, ∃ i ∈ call.rest, 0 < w.call i call.event) ∨
      (∃ (i : Nat) (c : Consumer), s.consumers[i]? = some c ∧ ∃ m ∈ c.queue, 0 < w.queued i m) ∨
      (∃ t ∈ s.timers, 0 < w.timer t.consumer t.message) ∨ ∃ d ∈ s.drains, 0 < w.drain d := by
  rw [State.weight] at hpos
  by_cases hcalls : 0 < weigh (fun call => weigh (fun i => w.call i call.event) call.rest) s.calls
  · obtain ⟨call, hcall, hpos⟩ := exists_of_weigh_pos hcalls
    exact .inl ⟨call, hcall, exists_of_weigh_pos hpos⟩
  by_cases hqueues : 0 < weighAt (fun i c => weigh (w.queued i) c.queue) s.consumers
  · obtain ⟨i, c, hc, hpos⟩ := exists_of_weighAt_pos hqueues
    exact .inr (.inl ⟨i, c, hc, exists_of_weigh_pos hpos⟩)
  by_cases htimers : 0 < weigh (fun t => w.timer t.consumer t.message) s.timers
  · exact .inr (.inr (.inl (exists_of_weigh_pos htimers)))
  · exact .inr (.inr (.inr (exists_of_weigh_pos (by omega))))

end

/-! ## Weights of events

Most counts do not tell apart where a message is, as long as no handler has it.
-/

def Weights.even {σ : Type} (f : Nat → DomainEvent → Nat) (g : Nat → Message → σ → Nat) :
    Weights σ where
  call := f
  queued i m := f i m.event
  timer i m := f i m.event
  loop _ := 0
  running := g

section
variable {σ : Type} {s : State σ} {f : Nat → DomainEvent → Nat} {g : Nat → Message → σ → Nat}
  {i d : Nat} {c : Consumer} {m : Message} {h : σ} {k t : Nat}

theorem even_push {e : DomainEvent} {rest : List Nat}
    (hcall : s.calls[k]? = some ⟨e, i :: rest⟩) (hc : s.consumers[i]? = some c) :
    (State.drain { s with calls := s.calls.set k ⟨e, rest⟩ } i (c.push ⟨e, 1⟩)).weight
      (.even f g) = s.weight (.even f g) := by
  have heq : _ + f i e = _ + f i e + (if c.draining then 0 else 0) :=
    weight_push (w := .even f g) hcall hc
  rw [ite_self] at heq
  omega

theorem even_fire (ht : s.timers[t]? = some ⟨i, m⟩) (hc : s.consumers[i]? = some c) :
    (State.drain { s with timers := s.timers.eraseIdx t } i (c.push m)).weight (.even f g) =
      s.weight (.even f g) := by
  have heq : _ + f i m.event = _ + f i m.event + (if c.draining then 0 else 0) :=
    weight_fire (w := .even f g) ht hc
  rw [ite_self] at heq
  omega

variable {topics : List Topic} {s' : State σ}

theorem even_push_effect (he : Effect topics s (.push k) s') :
    s'.weight (.even f g) = s.weight (.even f g) := by
  cases he with
  | push hcall hc => exact even_push hcall hc

theorem even_fire_effect (he : Effect topics s (.fire t) s') :
    s'.weight (.even f g) = s.weight (.even f g) := by
  cases he with
  | fire ht hc => exact even_fire ht hc

theorem even_next_effect (he : Effect topics s (.next d h) s')
    (hcall : ∀ (i : Nat) (c : Consumer) (m : Message) (queue : List Message),
      s.drains[d]? = some ⟨i, .loop⟩ → s.consumers[i]? = some c → c.queue = m :: queue →
      g i m h ≤ f i m.event) :
    s'.weight (.even f g) ≤ s.weight (.even f g) := by
  cases he with
  | finish hd hc hqueue => exact Nat.le_of_eq (weight_finish (w := .even f g) hd hc)
  | skip hd hc hqueue hdone => exact Nat.le.intro (weight_skip hc hqueue)
  | @call _ _ i c m queue hd hc hqueue hdone =>
    have hle := hcall _ _ _ _ hd hc hqueue
    have heq : _ + f i m.event = _ + g i m h := weight_call (w := .even f g) hd hc hqueue h
    omega

theorem even_settle_effect {ok : Bool} (he : Effect topics s (.settle d ok) s')
    (hd : s.drains[d]? = some ⟨i, .deliver m h⟩) :
    s'.weight (.even f g) + g i m h ≤ s.weight (.even f g) + if ok then 0 else f i m.event := by
  cases he with
  | succeed hd' hc =>
    rw [hd] at hd'
    cases hd'
    exact Nat.le_of_eq (weight_succeed (w := .even f g) hd hc _ _)
  | bury hd' hc hlast =>
    rw [hd] at hd'
    cases hd'
    exact Nat.le_trans (Nat.le_of_eq (weight_bury (w := .even f g) hd _ _)) (Nat.le_add_right _ _)
  | retry hd' hc hagain =>
    rw [hd] at hd'
    cases hd'
    exact Nat.le_of_eq (weight_retry (w := .even f g) hd _ _)

theorem log_of_effect {a : Label σ} (he : Effect topics s a s') (hpublish : a.isPublish = false) :
    s'.log = s.log := by
  cases he with
  | publish => cases hpublish
  | push | fire => exact drain_log _ _ _
  | finish | skip | call | proceed | succeed | bury | retry => rfl

end

end Bus
end GoServices.FoodEda
