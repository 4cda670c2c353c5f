/-
The provider-agnostic subscription domain: statuses, the transition table and the
status an event implies.

A status is a string in the source.
-/
import GoServices.Base.Table

namespace GoServices.SubscriptionCore

inductive Status
  | unset
  | trialing
  | active
  | pastDue
  | canceled
  | paused
  | unknown (raw : String)
  deriving DecidableEq

def Status.text : Status → String
  | .unset => ""
  | .trialing => "trialing"
  | .active => "active"
  | .pastDue => "past_due"
  | .canceled => "canceled"
  | .paused => "paused"
  | .unknown raw => raw

/-- The durable record.  Times are nanoseconds; `providerUpdatedAt` is the ordering
watermark. -/
structure Subscription where
  id : String
  customerID : String
  providerSubID : String
  planID : String
  status : Status
  seatCount : Int
  currentPeriodStart : Int
  currentPeriodEnd : Int
  cancelAtPeriodEnd : Bool
  trialEnd : Int
  providerUpdatedAt : Int
  deriving DecidableEq

inductive EventType
  | created
  | updated
  | canceled
  | paymentFailed
  | paymentSucceeded
  | unknown (raw : String)
  deriving DecidableEq

structure Event where
  providerEventID : String
  type : EventType
  subscription : Subscription
  occurredAt : Int
  deriving DecidableEq

/-- `TargetStatus`: a failed payment implies `past_due`, not a hard cancel. -/
def Event.targetStatus (e : Event) : Status :=
  match e.type with
  | .canceled => .canceled
  | .paymentFailed => .pastDue
  | .paymentSucceeded => .active
  | .created | .updated =>
    if e.subscription.status ≠ .unset then e.subscription.status else .active
  | .unknown _ => e.subscription.status

def transitions : Status → Option (List Status)
  | .trialing => some [.active, .pastDue, .canceled, .paused]
  | .active => some [.pastDue, .canceled, .paused]
  | .pastDue | .paused => some [.active, .canceled]
  | .canceled => some []
  | .unset | .unknown _ => none

def canTransition (source target : Status) : Bool :=
  if source = target then true
  else
    match transitions source with
    | none => false
    | some targets => decide (target ∈ targets)

/-- `ErrIllegalTransition`, wrapped with the two statuses. -/
structure IllegalTransition where
  source : Status
  target : Status

def applyTransition (s : Subscription) (target : Status) : Except IllegalTransition Subscription :=
  if canTransition s.status target then .ok { s with status := target }
  else .error { source := s.status, target := target }

theorem canTransition_self (s : Status) : canTransition s s = true := if_pos rfl

structure Entitlement where
  subscriptionID : String
  tier : String
  features : Table String Int
  seats : Int
  active : Bool
  deriving DecidableEq

end GoServices.SubscriptionCore
