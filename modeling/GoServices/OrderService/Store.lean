/-
Orders, the outbox and the store that holds both.

The store is `MemoryStore`: each method is one atomic step, and `Transaction`, `Finalize` and
`Abandon` run a closure on a copy of the state that replaces it only when the closure succeeds.
-/
import GoServices.Base.Table

namespace GoServices.OrderService

inductive Side
  | buy
  | sell
  | unknown (raw : String)
  deriving DecidableEq

def Side.text : Side → String
  | .buy => "BUY"
  | .sell => "SELL"
  | .unknown raw => raw

inductive OrderStatus
  | pendingMargin
  | pendingRoute
  | accepted
  | rejected
  | reconciliationRequired

inductive MarginState
  | none
  | reserved
  | releasePending
  | released

inductive EventKind
  | reserveMargin
  | routeExchange
  | releaseMargin
  | unknown (raw : String)
  deriving DecidableEq

inductive EventState
  | pending
  | retry
  | processing
  | delivered
  | dead
  deriving DecidableEq

structure Order where
  id : String
  accountID : String
  idempotencyKey : String
  requestHash : String
  instrument : String
  side : Side
  quantity : Int
  limitPrice : Int
  status : OrderStatus
  margin : MarginState
  reservationID : String
  exchangeOrderID : String
  failureReason : String
  createdAt : Int
  updatedAt : Int

structure OutboxEvent where
  id : String
  orderID : String
  kind : EventKind
  state : EventState
  attempts : Nat
  availableAt : Int
  leaseToken : String
  leaseUntil : Int
  lastError : String
  createdAt : Int
  deliveredAt : Int

inductive OrderError
  | invalidOrder (message : String)
  | idempotencyConflict
  | orderNotFound
  | leaseLost
  | generateID
  deriving DecidableEq

structure Store where
  orders : Table String Order
  byIdempotency : Table String String
  events : Table String OutboxEvent

namespace Store

def new : Store := { orders := .empty, byIdempotency := .empty, events := .empty }

/-! ## Inside a transaction -/

def idempotencyIndex (accountID key : String) : String := accountID ++ "\x00" ++ key

variable (st : Store)

def orderByIdempotency (accountID key : String) : Option Order :=
  (st.byIdempotency.get? (idempotencyIndex accountID key)).bind fun id => st.orders.get? id

def putOrder (order : Order) : Except OrderError Store :=
  match st.orders.get? order.id with
  | some _ => .ok { st with orders := st.orders.set order.id order }
  | none =>
    let key := idempotencyIndex order.accountID order.idempotencyKey
    if (st.byIdempotency.get? key).any fun other => other ≠ order.id then
      .error .idempotencyConflict
    else
      .ok { st with
        orders := st.orders.set order.id order
        byIdempotency := st.byIdempotency.set key order.id }

def newEvent (id orderID : String) (kind : EventKind) (availableAt : Int) : OutboxEvent :=
  { id := id, orderID := orderID, kind := kind, state := .pending, attempts := 0,
    availableAt := availableAt, leaseToken := "", leaseUntil := 0, lastError := "",
    createdAt := availableAt, deliveredAt := 0 }

/-- `Enqueue`; `id` is what `newID` returned. -/
def enqueue (id : Option String) (orderID : String) (kind : EventKind)
    (availableAt : Int) : Except OrderError Store :=
  match id with
  | none => .error .generateID
  | some id => .ok { st with events := st.events.set id (newEvent id orderID kind availableAt) }

/-! ## Store methods -/

/-- An event that `ClaimDue` may take: due, or leased to a dispatcher whose lease
ran out. -/
def claimable (now : Int) (event : OutboxEvent) : Bool :=
  ((event.state = .pending || event.state = .retry) && event.availableAt ≤ now) ||
    (event.state = .processing && event.leaseUntil ≤ now)

def dueBefore (left right : OutboxEvent) : Prop :=
  left.availableAt < right.availableAt ∨ (left.availableAt = right.availableAt ∧ left.id ≤ right.id)
  deriving Decidable

def lease (event : OutboxEvent) (token : String) (leaseUntil : Int) : OutboxEvent :=
  { event with state := .processing, leaseToken := token, leaseUntil := leaseUntil }

/-- The loop of `ClaimDue` over the chosen ids.  It draws one token per event; when
`newID` fails, no event is returned, and those already stamped stay so.  Every
chosen id is in the map. -/
def claimLoop (st : Store) (leaseUntil : Int) :
    List String → List (Option String) → Store × Except OrderError (List OutboxEvent)
  | [], _ => (st, .ok [])
  | _ :: _, [] | _ :: _, none :: _ => (st, .error .generateID)
  | id :: ids, some token :: tokens =>
    match st.events.get? id with
    | none => claimLoop st leaseUntil ids tokens
    | some event =>
      let claimed := lease event token leaseUntil
      match claimLoop { st with events := st.events.set id claimed } leaseUntil ids tokens with
      | (st, .ok more) => (st, .ok (claimed :: more))
      | (st, .error e) => (st, .error e)

def claimDue (now leaseFor : Int) (limit : Int) (tokens : List (Option String)) :
    Store × Except OrderError (List OutboxEvent) :=
  if limit ≤ 0 then (st, .ok [])
  else
    let due := st.events.toList.filter fun e => claimable now e.2
    let chosen := (due.insertionSort fun l r => dueBefore l.2 r.2).take limit.toNat
    st.claimLoop (now + leaseFor) (chosen.map fun e => e.1) tokens

/-- The lease check that `Finalize`, `Retry` and `Abandon` share. -/
def leased (eventID leaseToken : String) : Except OrderError OutboxEvent :=
  match st.events.get? eventID with
  | some event =>
    if event.state ≠ .processing ∨ event.leaseToken ≠ leaseToken then .error .leaseLost
    else .ok event
  | none => .error .leaseLost

def closing (eventID : String) (event : OutboxEvent)
    (apply : Store → Except OrderError Store) (close : OutboxEvent → OutboxEvent) :
    Except OrderError Store := do
  let next ← apply st
  let current := (next.events.get? eventID).getD event
  .ok { next with events := next.events.set eventID (close current) }

def finalize (eventID leaseToken : String) (deliveredAt : Int)
    (apply : Store → Except OrderError Store) : Except OrderError Store := do
  let event ← st.leased eventID leaseToken
  st.closing eventID event apply fun current =>
    { current with
      state := .delivered, leaseToken := "", leaseUntil := 0, deliveredAt := deliveredAt }

def retry (st : Store) (eventID leaseToken : String) (availableAt : Int) (reason : String) :
    Except OrderError Store := do
  let event ← st.leased eventID leaseToken
  let retried : OutboxEvent := { event with
      state := .retry, leaseToken := "", leaseUntil := 0, attempts := event.attempts + 1,
      availableAt := availableAt, lastError := reason }
  .ok { st with events := st.events.set eventID retried }

def abandon (eventID leaseToken reason : String)
    (apply : Store → Except OrderError Store) : Except OrderError Store := do
  let event ← st.leased eventID leaseToken
  st.closing eventID event apply fun current =>
    { current with
      state := .dead, leaseToken := "", leaseUntil := 0, attempts := current.attempts + 1,
      lastError := reason }

end Store

/-! ## Placing an order -/

structure PlaceOrderRequest where
  accountID : String
  idempotencyKey : String
  instrument : String
  side : Side
  quantity : Int
  limitPrice : Int

def validate (r : PlaceOrderRequest) : Except OrderError Unit :=
  if r.accountID = "" then .error (.invalidOrder "account ID is required")
  else if r.idempotencyKey = "" then .error (.invalidOrder "idempotency key is required")
  else if r.instrument = "" then .error (.invalidOrder "instrument is required")
  else if r.side ≠ .buy ∧ r.side ≠ .sell then .error (.invalidOrder "side must be BUY or SELL")
  else if r.quantity ≤ 0 then .error (.invalidOrder "quantity must be positive")
  else if r.limitPrice ≤ 0 then .error (.invalidOrder "limit price must be positive")
  else .ok ()

/-- `requestFingerprint`, with `digest` for the hex form of SHA-256. -/
def requestFingerprint (digest : String → String) (r : PlaceOrderRequest) : String :=
  digest (r.instrument ++ "|" ++ r.side.text ++ "|" ++ toString r.quantity ++ "|" ++
    toString r.limitPrice)

structure PlaceOrderResult where
  order : Order
  replayed : Bool

/-- The transaction of `Place`; `orderID` and `eventID` are what `newID` returns. -/
def placeTx (st : Store) (request : PlaceOrderRequest) (fingerprint : String)
    (orderID eventID : Option String) (now : Int) : Except OrderError (Store × PlaceOrderResult) :=
  match st.orderByIdempotency request.accountID request.idempotencyKey with
  | some existing =>
    if existing.requestHash ≠ fingerprint then .error .idempotencyConflict
    else .ok (st, { order := existing, replayed := true })
  | none =>
    match orderID with
    | none => .error .generateID
    | some id => do
      let order : Order :=
        { id := id, accountID := request.accountID, idempotencyKey := request.idempotencyKey,
          requestHash := fingerprint, instrument := request.instrument, side := request.side,
          quantity := request.quantity, limitPrice := request.limitPrice,
          status := .pendingMargin, margin := .none, reservationID := "", exchangeOrderID := "",
          failureReason := "", createdAt := now, updatedAt := now }
      let st ← st.putOrder order
      let st ← st.enqueue eventID order.id .reserveMargin now
      .ok (st, { order := order, replayed := false })

def place (digest : String → String) (st : Store) (request : PlaceOrderRequest)
    (orderID eventID : Option String) (now : Int) : Store × Except OrderError PlaceOrderResult :=
  match validate request with
  | .error e => (st, .error e)
  | .ok () =>
    match placeTx st request (requestFingerprint digest request) orderID eventID now with
    | .error e => (st, .error e)
    | .ok (st, result) => (st, .ok result)

end GoServices.OrderService
