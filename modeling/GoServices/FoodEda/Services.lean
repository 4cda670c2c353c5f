/-
The services of the food delivery application on the event bus.

Each handler is a program: it publishes events, waits for a timer, takes one of two branches by
chance, and ends or throws.
-/
import GoServices.Base.Table
import GoServices.FoodEda.Bus

namespace GoServices.FoodEda

open Option

/-! ## The read model -/

inductive OrderStatus
  | placed
  | paid
  | paymentFailed
  | accepted
  | rejected
  | preparing
  | ready
  | riderAssigned
  | pickedUp
  | delivered
  | cancelled
  deriving DecidableEq

def nextStatus : Topic → Option OrderStatus
  | .orderPlaced => some .placed
  | .paymentRequested => none
  | .paymentAuthorized => some .paid
  | .paymentFailed => some .paymentFailed
  | .restaurantNotified => none
  | .restaurantAccepted => some .accepted
  | .restaurantRejected => some .rejected
  | .foodPreparing => some .preparing
  | .foodReady => some .ready
  | .riderAssigned => some .riderAssigned
  | .riderUnavailable => none
  | .orderPickedUp => some .pickedUp
  | .orderDelivered => some .delivered
  | .orderCancelled => some .cancelled

def isTerminal : OrderStatus → Bool
  | .delivered | .cancelled | .rejected | .paymentFailed => true
  | .placed | .paid | .accepted | .preparing | .ready | .riderAssigned | .pickedUp => false

structure TimelineEntry where
  status : OrderStatus
  event : Topic
  at' : String

structure OrderView where
  orderId : String
  status : OrderStatus
  customerId : Option String
  restaurantId : Option String
  riderId : Option String
  amount : Option Nat
  timeline : List TimelineEntry
  updatedAt : String

structure Patch where
  customerId : Option String := none
  restaurantId : Option String := none
  riderId : Option String := none
  amount : Option Nat := none

def upsert (orders : Table String OrderView) (orderId : String) (patch : Patch)
    (event : DomainEvent) (status : OrderStatus) : Table String OrderView :=
  let existing := orders.get? orderId
  orders.set orderId
    { orderId := orderId
      status := status
      customerId := patch.customerId <|> existing.bind (·.customerId)
      restaurantId := patch.restaurantId <|> existing.bind (·.restaurantId)
      riderId := patch.riderId <|> existing.bind (·.riderId)
      amount := patch.amount <|> existing.bind (·.amount)
      timeline := (existing.elim [] (·.timeline)) ++ [⟨status, event.type, event.timestamp⟩]
      updatedAt := event.timestamp }

def DomainEvent.patch (e : DomainEvent) : Patch :=
  match e.type, e.payload with
  | .orderPlaced, .order customerId restaurantId amount =>
    { customerId := some customerId, restaurantId := some restaurantId, amount := some amount }
  | .riderAssigned, .rider riderId => { riderId := some riderId }
  | _, _ => {}

def project (orders : Table String OrderView) (e : DomainEvent) : Table String OrderView :=
  match nextStatus e.type with
  | none => orders
  | some status => upsert orders e.orderId e.patch e status

/-! ## Subscriptions and handlers -/

inductive Group
  | orders
  | readModel
  | payments
  | restaurant
  | kitchen
  | delivery
  | notifications
  deriving DecidableEq

structure Subscription where
  topic : Topic
  group : Group

def allTopics : List Topic :=
  [.orderPlaced, .paymentRequested, .paymentAuthorized, .paymentFailed, .restaurantNotified,
    .restaurantAccepted, .restaurantRejected, .foodPreparing, .foodReady, .riderAssigned,
    .riderUnavailable, .orderPickedUp, .orderDelivered, .orderCancelled]

def messageTopics : List Topic :=
  [.orderPlaced, .paymentAuthorized, .paymentFailed, .restaurantAccepted, .restaurantRejected,
    .foodReady, .riderAssigned, .orderPickedUp, .orderDelivered]

/-- The calls of `subscribe`, in the order of `bootstrap`. -/
def subscriptions : List Subscription :=
  [⟨.orderPlaced, .orders⟩] ++ allTopics.map (⟨·, .readModel⟩) ++
    [⟨.paymentRequested, .payments⟩, ⟨.paymentAuthorized, .restaurant⟩,
      ⟨.restaurantAccepted, .kitchen⟩, ⟨.restaurantAccepted, .delivery⟩,
      ⟨.foodReady, .delivery⟩] ++
    messageTopics.map (⟨·, .notifications⟩)

def topics : List Topic := subscriptions.map (·.topic)

inductive Program
  | done
  | fail
  | publish (type : Topic) (payload : String → Payload) (rest : Program)
  | wait (rest : Program)
  | either (left right : Program)
  | project (rest : Program)

instance : Inhabited Program := ⟨.done⟩

def Payload.amount? : Payload → Option Nat
  | .order _ _ amount | .charge amount _ => some amount
  | .receipt amount _ => amount
  | .empty | .reason _ | .rider _ => none

def Payload.charge? : Payload → Payload
  | .order customerId _ amount => .charge amount customerId
  | _ => .empty

def ordersHandler (e : DomainEvent) : Program :=
  .publish .paymentRequested (fun _ => e.payload.charge?) .done

def readModelHandler : Program := .project .done

def paymentsHandler (e : DomainEvent) : Program :=
  .wait (.either .fail
    (.either (.publish .paymentFailed (fun _ => .reason "card_declined") .done)
      (.publish .paymentAuthorized (fun txnId => .receipt e.payload.amount? txnId) .done)))

def restaurantHandler : Program :=
  .publish .restaurantNotified (fun _ => .empty)
    (.wait (.either (.publish .restaurantRejected (fun _ => .reason "out_of_stock") .done)
      (.publish .restaurantAccepted (fun _ => .empty) .done)))

def kitchenHandler : Program :=
  .publish .foodPreparing (fun _ => .empty) (.wait (.publish .foodReady (fun _ => .empty) .done))

def riderHandler : Program :=
  .wait (.either (.publish .riderUnavailable (fun _ => .empty) .fail)
    (.publish .riderAssigned (fun riderId => .rider riderId) .done))

def deliveryHandler : Program :=
  .wait (.publish .orderPickedUp (fun _ => .empty)
    (.wait (.publish .orderDelivered (fun _ => .empty) .done)))

def handler (sub : Subscription) (e : DomainEvent) : Program :=
  match sub.group with
  | .orders => ordersHandler e
  | .readModel => readModelHandler
  | .payments => paymentsHandler e
  | .restaurant => restaurantHandler
  | .kitchen => kitchenHandler
  | .delivery => if sub.topic = .foodReady then deliveryHandler else riderHandler
  | .notifications => .done

def Program.branches : Program → List Program
  | .either left right => left.branches ++ right.branches
  | p => [p]

def Program.waits : Program → Bool
  | .wait _ => true
  | _ => false

def Program.heads : Program → List Program
  | .wait rest => rest.branches
  | p => p.branches

/-! ## Steps -/

namespace Services

structure State where
  bus : Bus.State Program
  orders : Table String OrderView

def initial : State := ⟨Bus.initial Program topics, .empty⟩

def awaits (d : Bus.Drain Program) : Bool :=
  match d.pc with
  | .loop => false
  | .deliver _ p => p.waits

def settled (bus : Bus.State Program) : Bool :=
  bus.calls.all (fun call => call.rest.isEmpty) && bus.drains.all awaits

inductive Label
  | place (id timestamp orderId customerId restaurantId : String) (amount : Nat)
  | push (call : Nat)
  | next (drain : Nat)
  | resume (drain branch : Nat) (id timestamp random : String)
  | fire (timer : Nat)

variable (s : State)

def State.onBus (labels : List (Bus.Label Program)) : Option State :=
  (run (Bus.step topics) s.bus labels).map fun bus => { s with bus := bus }

def State.called (d : Nat) : Program :=
  match s.bus.drains[d]? with
  | some ⟨i, .loop⟩ =>
    match subscriptions[i]?, s.bus.consumers[i]? with
    | some sub, some ⟨m :: _, _, _⟩ => handler sub m.event
    | _, _ => .done
  | _ => .done

/-- A running handler takes the first step of `p`, which is not a choice. -/
def State.exec (d : Nat) (m : Message) (p : Program) (id timestamp random : String) :
    Option State :=
  match p with
  | .done => s.onBus [.settle d true]
  | .fail => s.onBus [.settle d false]
  | .publish type payload rest =>
    s.onBus [.publish ⟨id, type, m.event.orderId, timestamp, payload random⟩, .proceed d rest]
  | .wait rest => s.onBus [.proceed d (.wait rest)]
  | .either _ _ => none
  | .project rest => State.onBus { s with orders := project s.orders m.event } [.proceed d rest]

def step : Label → Option State
  | .place id timestamp orderId customerId restaurantId amount =>
    if ∀ e ∈ s.bus.log, e.orderId ≠ orderId then
      s.onBus [.publish
        ⟨id, .orderPlaced, orderId, timestamp, .order customerId restaurantId amount⟩]
    else none
  | .push k => s.onBus [.push k]
  | .next d => s.onBus [.next d (s.called d)]
  | .resume d branch id timestamp random =>
    match s.bus.drains[d]? with
    | some ⟨_, .deliver m p⟩ =>
      if p.waits = true ∧ settled s.bus = false then none
      else
        match p.heads[branch]? with
        | some q => s.exec d m q id timestamp random
        | none => none
    | _ => none
  | .fire t => if settled s.bus then s.onBus [.fire t] else none

def State.status (s : State) (orderId : String) : Option OrderStatus :=
  (s.orders.get? orderId).map (·.status)

def State.publishes : Label → Option (Topic × String)
  | .place _ _ orderId _ _ _ => some (.orderPlaced, orderId)
  | .resume d branch _ _ _ =>
    match s.bus.drains[d]? with
    | some ⟨_, .deliver m p⟩ =>
      match p.heads[branch]? with
      | some (.publish type _ _) => some (type, m.event.orderId)
      | _ => none
    | _ => none
  | .push _ | .next _ | .fire _ => none

/-! ## Schedules -/

def State.readyDrain (d : Nat) : Label :=
  match s.bus.drains[d]? with
  | some ⟨_, .deliver _ _⟩ => .resume d 0 (toString s.bus.log.length) "" ""
  | _ => .next d

def State.ready : Option Label :=
  match s.bus.calls.findIdx? fun call => !call.rest.isEmpty with
  | some k => some (.push k)
  | none => (s.bus.drains.findIdx? fun d => !awaits d).map s.readyDrain

def schedule : Nat → State → List Label → List Label
  | 0, _, _ => []
  | fuel + 1, s, wakes =>
    match s.ready, wakes with
    | some a, wakes | none, a :: wakes => a :: (step s a).elim [] fun s' => schedule fuel s' wakes
    | none, [] => []

def acceptedOrder : List Label :=
  [.place "e0" "" "order-1" "customer-1" "restaurant-1" 500, .resume 0 2 "e2" "" "txn-1",
    .resume 0 1 "e4" "" ""]

/-! ## What a step does -/

inductive Effect (s : State) (a : Label) : State → Prop
  | place {e b} (hpub : s.publishes a = some (e.type, e.orderId)) (htype : e.type = .orderPlaced)
      (horder : ∀ e' ∈ s.bus.log, e'.orderId ≠ e.orderId)
      (hb : Bus.Effect topics s.bus (.publish e) b) : Effect s a { s with bus := b }
  | push {k b} (hb : Bus.Effect topics s.bus (.push k) b) : Effect s a { s with bus := b }
  | fire {t b} (hb : Bus.Effect topics s.bus (.fire t) b) : Effect s a { s with bus := b }
  | next {d b} (hb : Bus.Effect topics s.bus (.next d (s.called d)) b) :
    Effect s a { s with bus := b }
  | publish {d i m p payload rest e} (hpub : s.publishes a = some (e.type, e.orderId))
      (hd : s.bus.drains[d]? = some ⟨i, .deliver m p⟩)
      (hwoken : p.waits = true → settled s.bus = true)
      (hq : .publish e.type payload rest ∈ p.heads) (horder : e.orderId = m.event.orderId)
      (hnew : ∀ e' ∈ s.bus.log, e'.id ≠ e.id) :
    Effect s a
      { s with
        bus := { s.bus with
          log := s.bus.log ++ [e]
          calls := s.bus.calls ++ [⟨e, Bus.subscribers topics e.type⟩]
          drains := s.bus.drains.set d ⟨i, .deliver m rest⟩ } }
  | project {d i m p rest} (hd : s.bus.drains[d]? = some ⟨i, .deliver m p⟩)
      (hq : .project rest ∈ p.heads) :
    Effect s a
      { bus := { s.bus with drains := s.bus.drains.set d ⟨i, .deliver m rest⟩ }
        orders := FoodEda.project s.orders m.event }
  | pause {d i m p rest} (hd : s.bus.drains[d]? = some ⟨i, .deliver m p⟩)
      (hq : .wait rest ∈ p.heads) :
    Effect s a
      { s with bus := { s.bus with drains := s.bus.drains.set d ⟨i, .deliver m (.wait rest)⟩ } }
  | succeed {d i m p b} (hd : s.bus.drains[d]? = some ⟨i, .deliver m p⟩) (hq : .done ∈ p.heads)
      (hb : Bus.Effect topics s.bus (.settle d true) b) : Effect s a { s with bus := b }
  | fail {d i m p b} (hd : s.bus.drains[d]? = some ⟨i, .deliver m p⟩) (hq : .fail ∈ p.heads)
      (hb : Bus.Effect topics s.bus (.settle d false) b) : Effect s a { s with bus := b }

section
variable {s s' : State} {a : Label}

theorem onBus_one {l : Bus.Label Program} (h : s.onBus [l] = some s') :
    ∃ b, Bus.Effect topics s.bus l b ∧ s' = { s with bus := b } := by
  obtain ⟨b, hb, rfl⟩ := map_eq_some_iff.mp h
  obtain ⟨b', hb', hb⟩ := of_run_cons hb
  cases hb
  exact ⟨_, Bus.effect_of_step hb', rfl⟩

variable {d i : Nat} {m : Message} {p : Program}

theorem onBus_proceed {q : Program} (hd : s.bus.drains[d]? = some ⟨i, .deliver m p⟩)
    (h : s.onBus [.proceed d q] = some s') :
    s' = { s with bus := { s.bus with drains := s.bus.drains.set d ⟨i, .deliver m q⟩ } } := by
  obtain ⟨b, hb, rfl⟩ := onBus_one h
  cases hb with
  | proceed hd' =>
    rw [hd] at hd'
    cases hd'
    rfl

theorem onBus_publish {rest : Program} {e : DomainEvent}
    (hd : s.bus.drains[d]? = some ⟨i, .deliver m p⟩)
    (h : s.onBus [.publish e, .proceed d rest] = some s') :
    (∀ e' ∈ s.bus.log, e'.id ≠ e.id) ∧ s' = { s with
      bus := { s.bus with
        log := s.bus.log ++ [e]
        calls := s.bus.calls ++ [⟨e, Bus.subscribers topics e.type⟩]
        drains := s.bus.drains.set d ⟨i, .deliver m rest⟩ } } := by
  obtain ⟨b, hb, rfl⟩ := map_eq_some_iff.mp h
  obtain ⟨b', hb', hb⟩ := of_run_cons hb
  have hpublished := Bus.effect_of_step hb'
  cases hpublished with
  | publish hnew =>
    obtain ⟨b'', hb'', hb⟩ := of_run_cons hb
    cases hb
    have hproceeded := Bus.effect_of_step hb''
    cases hproceeded with
    | proceed hd' =>
      rw [hd] at hd'
      cases hd'
      exact ⟨hnew, rfl⟩

theorem exec_effect {branch : Nat} {q : Program} {id timestamp random : String}
    (hd : s.bus.drains[d]? = some ⟨i, .deliver m p⟩)
    (hwoken : p.waits = true → settled s.bus = true) (hq : p.heads[branch]? = some q)
    (h : s.exec d m q id timestamp random = some s') :
    Effect s (.resume d branch id timestamp random) s' := by
  have hmem := List.mem_of_getElem? hq
  cases q with
  | done =>
    obtain ⟨b, hb, rfl⟩ := onBus_one h
    exact .succeed hd hmem hb
  | fail =>
    obtain ⟨b, hb, rfl⟩ := onBus_one h
    exact .fail hd hmem hb
  | publish type payload rest =>
    obtain ⟨hnew, rfl⟩ := onBus_publish hd h
    refine .publish ?_ hd hwoken hmem rfl hnew
    simp only [State.publishes, hd, hq]
  | wait rest =>
    rw [onBus_proceed hd h]
    exact .pause hd hmem
  | either left right => cases h
  | project rest =>
    rw [onBus_proceed (s := { s with orders := FoodEda.project s.orders m.event }) hd h]
    exact .project hd hmem

theorem effect_of_step (h : step s a = some s') : Effect s a s' := by
  cases a with
  | place id timestamp orderId customerId restaurantId amount =>
    simp only [step, ite_none_right_eq_some] at h
    obtain ⟨horder, h⟩ := h
    obtain ⟨b, hb, rfl⟩ := onBus_one h
    exact .place rfl rfl horder hb
  | push k =>
    obtain ⟨b, hb, rfl⟩ := onBus_one h
    exact .push hb
  | next d =>
    obtain ⟨b, hb, rfl⟩ := onBus_one h
    exact .next hb
  | resume d branch id timestamp random =>
    rw [step] at h
    split at h <;> try cases h
    rename_i i m p hd
    split at h
    · cases h
    rename_i hready
    split at h <;> try cases h
    rename_i q hq
    refine exec_effect hd (fun hwaits => ?_) hq h
    by_contra hsettled
    exact hready ⟨hwaits, Bool.eq_false_iff.mpr hsettled⟩
  | fire t =>
    simp only [step, ite_none_right_eq_some] at h
    obtain ⟨b, hb, rfl⟩ := onBus_one h.2
    exact .fire hb

theorem called_eq {c : Bus.Consumer} {queue : List Message} {sub : Subscription}
    (hd : s.bus.drains[d]? = some ⟨i, .loop⟩) (hc : s.bus.consumers[i]? = some c)
    (hqueue : c.queue = m :: queue) (hsub : subscriptions[i]? = some sub) :
    s.called d = handler sub m.event := by
  obtain ⟨queue', draining, processed⟩ := c
  cases hqueue
  simp only [State.called, hd, hc, hsub]

end

end Services
end GoServices.FoodEda
