/-
The events of the food delivery services and the tables they end in.

An event travels in an envelope, reaches the outbox in a transaction of its producer and is
published from there on the topic of its type.
-/
import GoServices.Base.Table

namespace GoServices.FoodDelivery

open List

inductive Topic
  | orderEvents
  | paymentEvents
  | restaurantEvents
  | deliveryEvents
  | notificationEvents
  | deadLetter
  deriving DecidableEq

/-- The event types; `other` is a type that no service produces, which an envelope may
still carry. -/
inductive EventType
  | orderPlaced
  | orderCancelled
  | paymentRequested
  | paymentAuthorized
  | paymentFailed
  | refundRequested
  | refundCompleted
  | restaurantNotified
  | restaurantAccepted
  | restaurantRejected
  | foodPreparing
  | foodReady
  | riderAssigned
  | riderUnavailable
  | orderPickedUp
  | orderDelivered
  | other (name : String)
  deriving DecidableEq

/-- `topicForEvent`, which throws on a type that `EVENT_TOPIC` does not list. -/
def topicForEvent : EventType → Except String Topic
  | .orderPlaced | .orderCancelled | .orderPickedUp | .orderDelivered => .ok .orderEvents
  | .paymentRequested | .paymentAuthorized | .paymentFailed | .refundRequested
  | .refundCompleted => .ok .paymentEvents
  | .restaurantNotified | .restaurantAccepted | .restaurantRejected | .foodPreparing
  | .foodReady => .ok .restaurantEvents
  | .riderAssigned | .riderUnavailable => .ok .deliveryEvents
  | .other name => .error ("No topic mapped for event type " ++ name)

structure Payload where
  customerId : Option String := none
  restaurantId : Option String := none
  restaurantName : Option String := none
  amount : Option Int := none
  txnId : Option String := none
  reason : Option String := none
  riderId : Option String := none
  riderName : Option String := none
  deriving DecidableEq

structure Envelope where
  id : String
  type : EventType
  orderId : String
  version : Nat
  occurredAt : String
  attempt : Nat
  payload : Payload
  deriving DecidableEq

/-- `makeEvent`, given what `randomUUID` and the clock return. -/
def makeEvent (id occurredAt : String) (type : EventType) (orderId : String) (payload : Payload) :
    Envelope :=
  { id := id, type := type, orderId := orderId, version := 1, occurredAt := occurredAt,
    attempt := 1, payload := payload }

inductive OrderStatus
  | placed
  | paid
  | paymentFailed
  | accepted
  | rejected
  | rejectedRefunded
  | preparing
  | ready
  | riderAssigned
  | pickedUp
  | delivered
  | cancelled

/-- `TRANSITIONS`. -/
def statusForEvent : EventType → Option OrderStatus
  | .orderPlaced => some .placed
  | .paymentAuthorized => some .paid
  | .paymentFailed => some .paymentFailed
  | .restaurantAccepted => some .accepted
  | .restaurantRejected => some .rejected
  | .refundCompleted => some .rejectedRefunded
  | .foodPreparing => some .preparing
  | .foodReady => some .ready
  | .riderAssigned => some .riderAssigned
  | .orderPickedUp => some .pickedUp
  | .orderDelivered => some .delivered
  | .orderCancelled => some .cancelled
  | .paymentRequested | .refundRequested | .restaurantNotified | .riderUnavailable
  | .other _ => none

/-! ## Tables -/

structure OutboxRow where
  id : String
  aggregateId : String
  topic : Topic
  msgKey : String
  payload : Envelope
  deriving DecidableEq

/-- The columns of `orders` that the projection patches. -/
structure Patch where
  customerId : Option String := none
  restaurantId : Option String := none
  restaurantName : Option String := none
  amount : Option Int := none
  riderId : Option String := none
  riderName : Option String := none
  refundStatus : Option String := none

structure OrderRow where
  status : OrderStatus
  columns : Patch

structure Database where
  outbox : List OutboxRow
  /-- `processed_events`, by consumer group and event id. -/
  processed : Table (String × String) Unit
  orders : Table String OrderRow
  timeline : List (String × OrderStatus × EventType)

namespace Database

def empty : Database := { outbox := [], processed := .empty, orders := .empty, timeline := [] }

def withOutbox (db : Database) (event : Envelope) : Except String Database :=
  (topicForEvent event.type).map fun topic =>
    if db.outbox.any (·.id = event.id) then db
    else
      { db with outbox := db.outbox ++ [⟨event.id, event.orderId, topic, event.orderId, event⟩] }

/-- The transaction of `emitEvents`. -/
def emitEvents (db : Database) (events : List Envelope) : Except String Database :=
  events.foldlM withOutbox db

variable {db db' : Database}

theorem withOutbox_spec {event : Envelope} (h : db.withOutbox event = .ok db') :
    db'.processed = db.processed ∧ db'.orders = db.orders ∧
      ∀ row ∈ db'.outbox, row ∈ db.outbox ∨ row.payload = event := by
  unfold withOutbox at h
  cases htopic : topicForEvent event.type with
  | error error =>
    rw [htopic] at h
    cases h
  | ok topic =>
    rw [htopic] at h
    cases h
    split
    · exact ⟨rfl, rfl, fun row hrow => .inl hrow⟩
    refine ⟨rfl, rfl, fun row hrow => ?_⟩
    rcases mem_append.mp hrow with hold | hnew
    · exact .inl hold
    · rw [mem_singleton.mp hnew]
      exact .inr rfl

variable {events : List Envelope}

theorem emitEvents_spec (h : db.emitEvents events = .ok db') :
    db'.processed = db.processed ∧ db'.orders = db.orders ∧
      ∀ row ∈ db'.outbox, row ∈ db.outbox ∨ row.payload ∈ events := by
  induction events generalizing db with
  | nil =>
    cases h
    exact ⟨rfl, rfl, fun row hrow => .inl hrow⟩
  | cons event rest ih =>
    rw [emitEvents, foldlM_cons] at h
    cases hfirst : db.withOutbox event with
    | error error =>
      rw [hfirst] at h
      cases h
    | ok db₁ =>
      rw [hfirst] at h
      obtain ⟨hprocessed, horders, hrows⟩ := withOutbox_spec hfirst
      obtain ⟨hprocessed', horders', hrows'⟩ := ih h
      refine ⟨hprocessed'.trans hprocessed, horders'.trans horders, fun row hrow => ?_⟩
      rcases hrows' row hrow with hold | hnew
      · exact (hrows row hold).imp_right fun he => mem_cons.mpr (.inl he)
      · exact .inr (mem_cons_of_mem _ hnew)

/-- The row of an event, as `withOutbox` inserts it. -/
structure OfEvent (row : OutboxRow) : Prop where
  id : row.id = row.payload.id
  aggregateId : row.aggregateId = row.payload.orderId
  msgKey : row.msgKey = row.payload.orderId

theorem withOutbox_appends {event : Envelope} (h : db.withOutbox event = .ok db') :
    ∃ rows, db'.outbox = db.outbox ++ rows ∧ (∀ row ∈ rows, OfEvent row) ∧
      ((db.outbox.map OutboxRow.id).Nodup → (db'.outbox.map OutboxRow.id).Nodup) := by
  unfold withOutbox at h
  cases htopic : topicForEvent event.type with
  | error error =>
    rw [htopic] at h
    cases h
  | ok topic =>
    rw [htopic] at h
    cases h
    split
    · exact ⟨[], (append_nil _).symm, by simp, id⟩
    rename_i hfresh
    refine ⟨_, rfl, fun row hrow => ?_, fun hnodup => ?_⟩
    · cases mem_singleton.mp hrow
      exact ⟨rfl, rfl, rfl⟩
    rw [map_append, nodup_append]
    refine ⟨hnodup, nodup_singleton _, fun id hid id' hid' heq => hfresh ?_⟩
    obtain ⟨row, hrow, rfl⟩ := mem_map.mp hid
    cases mem_singleton.mp hid'
    exact any_eq_true.mpr ⟨row, hrow, decide_eq_true heq⟩

theorem emitEvents_appends (h : db.emitEvents events = .ok db') :
    ∃ rows, db'.outbox = db.outbox ++ rows ∧ (∀ row ∈ rows, OfEvent row) ∧
      ((db.outbox.map OutboxRow.id).Nodup → (db'.outbox.map OutboxRow.id).Nodup) := by
  induction events generalizing db with
  | nil =>
    cases h
    exact ⟨[], (append_nil _).symm, by simp, id⟩
  | cons event rest ih =>
    rw [emitEvents, foldlM_cons] at h
    cases hfirst : db.withOutbox event with
    | error error =>
      rw [hfirst] at h
      cases h
    | ok db₁ =>
      rw [hfirst] at h
      obtain ⟨rows, hrows, hof, hnodup⟩ := withOutbox_appends hfirst
      obtain ⟨rows', hrows', hof', hnodup'⟩ := ih h
      refine ⟨rows ++ rows', ?_, ?_, hnodup' ∘ hnodup⟩
      · rw [hrows', hrows, append_assoc]
      intro row hrow
      obtain hrow | hrow := mem_append.mp hrow
      · exact hof row hrow
      · exact hof' row hrow

def markProcessed (db : Database) (group eventId : String) : Database :=
  { db with processed := db.processed.set (group, eventId) () }

/-- `COALESCE` of the columns of a patch with those of the row. -/
def coalesce (patch old : Patch) : Patch :=
  { customerId := patch.customerId <|> old.customerId
    restaurantId := patch.restaurantId <|> old.restaurantId
    restaurantName := patch.restaurantName <|> old.restaurantName
    amount := patch.amount <|> old.amount
    riderId := patch.riderId <|> old.riderId
    riderName := patch.riderName <|> old.riderName
    refundStatus := patch.refundStatus <|> old.refundStatus }

/-- The transaction of `projectOrder`. -/
def projectOrder (db : Database) (orderId : String) (status : OrderStatus) (type : EventType)
    (patch : Patch) : Database :=
  let columns := match db.orders.get? orderId with
    | none => patch
    | some row => coalesce patch row.columns
  { db with
    orders := db.orders.set orderId ⟨status, columns⟩
    timeline := db.timeline ++ [(orderId, status, type)] }

end Database

end GoServices.FoodDelivery
