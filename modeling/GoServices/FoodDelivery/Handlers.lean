/-
The handlers of the food delivery services.

A handler is asynchronous code that draws random values, reads and writes the database and may
throw between any two of these.
-/
import GoServices.FoodDelivery.Events

namespace GoServices.FoodDelivery

inductive Program
  | done
  | throw (message : String)
  | uuid (next : String → Program)
  | now (next : String → Program)
  | chance (next : Bool → Program)
  | pick (bound : Nat) (next : Nat → Program)
  | getOrder (orderId : String) (next : Option OrderRow → Program)
  | emit (events : List Envelope) (next : Program)
  | project (orderId : String) (status : OrderStatus) (type : EventType) (patch : Patch)
      (next : Program)
  | publish (event : Envelope) (status : OrderStatus) (next : Program)

namespace Program

/-- `emitEvents` of one new event. -/
def emitNew (type : EventType) (orderId : String) (payload : Payload) (next : Program) : Program :=
  .uuid fun id => .now fun at' => .emit [makeEvent id at' type orderId payload] next

end Program

abbrev Handler := Envelope → Program

open Program

/-! ## Payment -/

def payment : Handler := fun e =>
  match e.type with
  | .paymentRequested =>
    .chance fun timeout =>
      if timeout then .throw "payment gateway timeout"
      else .chance fun declined =>
        if declined then emitNew .paymentFailed e.orderId { reason := some "card_declined" } .done
        else .uuid fun txnId =>
          emitNew .paymentAuthorized e.orderId
            { amount := e.payload.amount, txnId := some txnId } .done
  | .refundRequested =>
    .uuid fun txnId =>
      emitNew .refundCompleted e.orderId
        { amount := e.payload.amount, reason := e.payload.reason, txnId := some txnId } .done
  | _ => .done

def saga : Handler := fun e =>
  match e.type with
  | .restaurantRejected =>
    .getOrder e.orderId fun order =>
      let amount := (order.bind fun row => row.columns.amount).getD 0
      emitNew .refundRequested e.orderId
        { amount := some amount, reason := some "restaurant_rejected" } .done
  | _ => .done

/-! ## Restaurant -/

def desk : Handler := fun e =>
  match e.type with
  | .paymentAuthorized =>
    emitNew .restaurantNotified e.orderId {} <|
      .chance fun rejected =>
        if rejected then
          emitNew .restaurantRejected e.orderId { reason := some "out_of_stock" } .done
        else emitNew .restaurantAccepted e.orderId {} .done
  | _ => .done

def kitchen : Handler := fun e =>
  match e.type with
  | .restaurantAccepted =>
    emitNew .foodPreparing e.orderId {} (emitNew .foodReady e.orderId {} .done)
  | _ => .done

/-! ## Delivery -/

def riders : List String := ["Arjun", "Priya", "Ravi", "Sana", "Vikram", "Meera"]

def dispatch : Handler := fun e =>
  match e.type with
  | .restaurantAccepted =>
    .chance fun none' =>
      if none' then
        emitNew .riderUnavailable e.orderId {} (.throw "no rider available, will retry")
      else .pick riders.length fun i => .pick 900 fun n =>
        emitNew .riderAssigned e.orderId
          { riderId := some ("rider_" ++ toString (n + 100)), riderName := riders[i]? } .done
  | _ => .done

def lastMile : Handler := fun e =>
  match e.type with
  | .foodReady =>
    emitNew .orderPickedUp e.orderId {} (emitNew .orderDelivered e.orderId {} .done)
  | _ => .done

/-! ## Orders -/

def orchestration : Handler := fun e =>
  match e.type with
  | .orderPlaced =>
    emitNew .paymentRequested e.orderId
      { amount := e.payload.amount, customerId := e.payload.customerId } .done
  | _ => .done

def patchFor (e : Envelope) : Patch :=
  match e.type with
  | .orderPlaced =>
    { customerId := e.payload.customerId, restaurantId := e.payload.restaurantId,
      restaurantName := e.payload.restaurantName, amount := e.payload.amount }
  | .riderAssigned => { riderId := e.payload.riderId, riderName := e.payload.riderName }
  | .refundCompleted => { refundStatus := some "REFUNDED" }
  | _ => {}

def projection : Handler := fun e =>
  match statusForEvent e.type with
  | none => .done
  | some status =>
    -- the string of a missing amount is not a number, and the statement fails
    if e.type = .orderPlaced ∧ e.payload.amount = none then
      .throw "invalid input syntax for type numeric: \"undefined\""
    else .project e.orderId status e.type (patchFor e) .done

/-! ## Readers that write nothing to the database -/

/-- `notifications` only prints. -/
def notifications : Handler := fun _ => .done

def bridge : Handler := fun e =>
  match statusForEvent e.type with
  | none => .done
  | some status => .publish e status .done

def handlerOf : String → Handler
  | "payment" => payment
  | "payment-saga" => saga
  | "restaurant" => desk
  | "kitchen" => kitchen
  | "delivery" => dispatch
  | "delivery-lastmile" => lastMile
  | "projection" => projection
  | "order-orchestrator" => orchestration
  | "notifications" => notifications
  | "sse-gateway" => bridge
  | _ => fun _ => .done

end GoServices.FoodDelivery
