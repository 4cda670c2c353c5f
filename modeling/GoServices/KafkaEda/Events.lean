/-
The events of the ride services and the outbox.

A handler writes the events it emits into `platform.outbox_events` in its own transaction, under
an id of the event's own.
-/
import GoServices.KafkaEda.Consumer

namespace GoServices.KafkaEda

def rideAssignedTopic : String := "ride.assigned.v1"
def rideDispatchDeferredTopic : String := "ride.dispatch.deferred.v1"
def rideStatusChangedTopic : String := "ride.status.changed.v1"

structure RideRequested where
  rideID : String
  riderName : String
  pickupLatitude : ℚ
  pickupLongitude : ℚ
  destination : String

structure DriverLocationUpdated where
  driverID : String
  latitude : ℚ
  longitude : ℚ

structure RideAssigned where
  rideID : String
  assignmentID : String
  driverID : String
  driverName : String
  driverPhone : String
  vehicleLabel : String
  color : String

structure RideDispatchDeferred where
  rideID : String
  reason : String

inductive RideStatus
  | requested
  | searching
  | assigned
  deriving DecidableEq

structure RideStatusChanged where
  rideID : String
  previous : RideStatus
  current : RideStatus
  driverID : String

inductive Payload
  | rideAssigned (data : RideAssigned)
  | rideDispatchDeferred (data : RideDispatchDeferred)
  | rideStatusChanged (data : RideStatusChanged)

/-- An event made by `events.New`. -/
structure NewEvent where
  eventID : String
  eventType : String
  producer : String
  causationID : String
  data : Payload

structure OutboxRow where
  topic : String
  eventKey : String
  event : NewEvent

/-- `outbox.Add`.  The id of the event is the primary key. -/
def outboxAdd (rows : List OutboxRow) (topic key : String) (event : NewEvent) :
    Except String (List OutboxRow) :=
  if rows.any fun row => row.event.eventID = event.eventID then
    .error "insert outbox event: duplicate key value violates unique constraint"
  else .ok (rows ++ [⟨topic, key, event⟩])

theorem outboxAdd_ok {rows rows' : List OutboxRow} {topic key : String} {event : NewEvent}
    (h : outboxAdd rows topic key event = .ok rows') : rows' = rows ++ [⟨topic, key, event⟩] := by
  unfold outboxAdd at h
  split at h <;> cases h
  rfl

end GoServices.KafkaEda
