/-
Dispatchers over the outbox, and runs of the order service.

A dispatcher claims a batch and delivers its events one by one.
-/
import GoServices.Base.Run
import GoServices.OrderService.Store

namespace GoServices.OrderService

structure RetryPolicy where
  maxAttempts : Int
  baseBackoff : Int
  maxBackoff : Int

namespace RetryPolicy

def delayLoop (maxBackoff : Int) : Nat → Int → Int
  | 0, delay => if delay > maxBackoff then maxBackoff else delay
  | n + 1, delay =>
    if delay ≥ maxBackoff.tdiv 2 then maxBackoff else delayLoop maxBackoff n (delay * 2)

def delay (p : RetryPolicy) (attempt : Nat) : Int :=
  if p.baseBackoff ≤ 0 then 0 else delayLoop p.maxBackoff (attempt - 1) p.baseBackoff

/-- The defaults that `NewDispatcher` fills in: eight attempts, at most two minutes,
one second at first. -/
def withDefaults (p : RetryPolicy) : RetryPolicy where
  maxAttempts := if p.maxAttempts ≤ 0 then 8 else p.maxAttempts
  maxBackoff := if p.maxBackoff ≤ 0 then 120000000000 else p.maxBackoff
  baseBackoff := if p.baseBackoff ≤ 0 then 1000000000 else p.baseBackoff

end RetryPolicy

def leaseFor : Int := 30000000000

/-- What a gateway returns; `failed` is its error, transient or not. -/
inductive Remote
  | reserve (reservationID : String) (approved : Bool) (reason : String)
  | route (exchangeOrderID : String) (accepted : Bool) (reason : String)
  | release
  | failed (transient : Bool) (text : String)

inductive Action
  | reserved (reservationID : String)
  | refused (reason : String)
  | accepted (exchangeOrderID : String)
  | rejected (reason : String)
  | released
  | retry (reason : String)
  | abandon (reason : String)

variable (policy : RetryPolicy)

def handleRemoteError (event : OutboxEvent) (transient : Bool)
    (text : String) : Action :=
  if !transient then .abandon text
  else if (event.attempts : Int) + 1 ≥ policy.maxAttempts then .abandon text
  else .retry text

/-- What `reserve`, `route` and `release` do with the gateway's answer. -/
def actionFor (event : OutboxEvent) : Remote → Option Action
  | .failed transient text => some (handleRemoteError policy event transient text)
  | .reserve reservationID approved reason =>
    if event.kind = .reserveMargin then
      some (if approved then .reserved reservationID else .refused reason)
    else none
  | .route exchangeOrderID accepted reason =>
    if event.kind = .routeExchange then
      some (if accepted then .accepted exchangeOrderID else .rejected reason)
    else none
  | .release => if event.kind = .releaseMargin then some .released else none

def withOrder (orderID : String) (change : Order → Order)
    (andThen : Store → Except OrderError Store) (st : Store) : Except OrderError Store :=
  match st.orders.get? orderID with
  | none => .error .orderNotFound
  | some current => do
    let st ← st.putOrder (change current)
    andThen st

/-- The write itself; `newEvent` is the id for an event it enqueues. -/
def perform (st : Store) (event : OutboxEvent) (orderID : String)
    (now : Int) (newEvent : Option String) : Action → Except OrderError Store
  | .reserved reservationID =>
    st.finalize event.id event.leaseToken now <|
      withOrder orderID
        (fun o => { o with
          status := .pendingRoute, margin := .reserved, reservationID := reservationID,
          updatedAt := now })
        fun st => st.enqueue newEvent orderID .routeExchange now
  | .refused reason =>
    st.finalize event.id event.leaseToken now <|
      withOrder orderID
        (fun o => { o with status := .rejected, failureReason := reason, updatedAt := now }) .ok
  | .accepted exchangeOrderID =>
    st.finalize event.id event.leaseToken now <|
      withOrder orderID
        (fun o => { o with
          status := .accepted, exchangeOrderID := exchangeOrderID, updatedAt := now }) .ok
  | .rejected reason =>
    st.finalize event.id event.leaseToken now <|
      withOrder orderID
        (fun o => { o with
          status := .rejected, margin := .releasePending, failureReason := reason,
          updatedAt := now })
        fun st => st.enqueue newEvent orderID .releaseMargin now
  | .released =>
    st.finalize event.id event.leaseToken now <|
      withOrder orderID (fun o => { o with margin := .released, updatedAt := now }) .ok
  | .retry reason =>
    st.retry event.id event.leaseToken (now + policy.delay (event.attempts + 1)) reason
  | .abandon reason =>
    st.abandon event.id event.leaseToken reason <|
      withOrder event.orderID
        (fun o => { o with
          status := .reconciliationRequired, failureReason := reason, updatedAt := now }) .ok

inductive Pc
  | next (queue : List OutboxEvent)
  | calling (event : OutboxEvent) (order : Order) (queue : List OutboxEvent)
  | finishing (event : OutboxEvent) (orderID : String) (action : Action)
      (queue : List OutboxEvent)

/-- A dispatcher that is not in `workers` is between batches. -/
structure State where
  store : Store
  workers : Table Nat Pc

def initial : State := { store := .new, workers := .empty }

inductive Label
  | place (request : PlaceOrderRequest) (orderID eventID : Option String) (now : Int)
  | claim (worker : Nat) (now limit : Int) (tokens : List (Option String))
  | load (worker : Nat)
  | answer (worker : Nat) (remote : Remote)
  | finish (worker : Nat) (now : Int) (newEvent : Option String)
  | crash (worker : Nat)

/-- `newID` does not repeat an id: it returns none that the table has. -/
def Fresh {ν : Type} (table : Table String ν) (id : Option String) : Prop :=
  ∀ i, id = some i → table.get? i = none

instance {ν : Type} (table : Table String ν) (id : Option String) : Decidable (Fresh table id) :=
  match id with
  | none => isTrue nofun
  | some i =>
    match h : table.get? i with
    | none => isTrue fun _ hj => Option.some.inj hj ▸ h
    | some _ => isFalse fun hfresh => by
        rw [hfresh i rfl] at h
        cases h

section
variable (digest : String → String) (policy : Nat → RetryPolicy)

/-- `deliver` up to the remote call: read the order.  A kind that no handler knows is
abandoned at once. -/
def load (s : State) (worker : Nat) (event : OutboxEvent) (queue : List OutboxEvent) : State :=
  match event.kind with
  | .unknown raw =>
    let action : Action := .abandon ("unknown event kind \"" ++ raw ++ "\"")
    { s with workers := s.workers.set worker (.finishing event event.orderID action queue) }
  | _ =>
    match s.store.orders.get? event.orderID with
    | some order => { s with workers := s.workers.set worker (.calling event order queue) }
    | none => { s with workers := s.workers.erase worker }

def step (s : State) : Label → Option State
  | .place request orderID eventID now =>
    if Fresh s.store.orders orderID ∧ Fresh s.store.events eventID then
      some { s with store := (place digest s.store request orderID eventID now).1 }
    else none
  | .claim worker now limit tokens =>
    match s.workers.get? worker with
    | some _ => none
    | none =>
      match s.store.claimDue now leaseFor limit tokens with
      | (st, .ok events) => some { store := st, workers := s.workers.set worker (.next events) }
      | (st, .error _) => some { s with store := st }
  | .load worker =>
    match s.workers.get? worker with
    | some (.next []) => some { s with workers := s.workers.erase worker }
    | some (.next (event :: queue)) => some (load s worker event queue)
    | _ => none
  | .answer worker remote =>
    match s.workers.get? worker with
    | some (.calling event order queue) =>
      match actionFor (policy worker) event remote with
      | some action =>
        some { s with workers := s.workers.set worker (.finishing event order.id action queue) }
      | none => none
    | _ => none
  | .finish worker now newEvent =>
    match s.workers.get? worker with
    | some (.finishing event orderID action queue) =>
      if Fresh s.store.events newEvent then
        match perform (policy worker) s.store event orderID now newEvent action with
        | .ok st => some { store := st, workers := s.workers.set worker (.next queue) }
        | .error .leaseLost => some { s with workers := s.workers.set worker (.next queue) }
        | .error _ => some { s with workers := s.workers.erase worker }
      else none
    | _ => none
  | .crash worker => some { s with workers := s.workers.erase worker }

end

def emit (s : State) : Label → List String
  | .answer worker (.route _ false _) =>
    match s.workers.get? worker with
    | some (.calling _ order _) => [order.id]
    | _ => []
  | _ => []

/-! ## What a step does -/

section
variable {digest : String → String} {policy : Nat → RetryPolicy}

/-- The ways in which a step can go, one for each branch of `step`. -/
inductive Stepped (digest : String → String) (policy : Nat → RetryPolicy) (s : State) :
    Label → State → Prop
  | placed {request orderID eventID now : _}
      (hfresh : Fresh s.store.orders orderID ∧ Fresh s.store.events eventID) :
      Stepped digest policy s (.place request orderID eventID now)
        { s with store := (place digest s.store request orderID eventID now).1 }
  | claimed {worker now limit tokens st events : _}
      (hclaim : s.store.claimDue now leaseFor limit tokens = (st, .ok events)) :
      Stepped digest policy s (.claim worker now limit tokens)
        { store := st, workers := s.workers.set worker (.next events) }
  | claimFailed {worker now limit tokens st e : _}
      (hclaim : s.store.claimDue now leaseFor limit tokens = (st, .error e)) :
      Stepped digest policy s (.claim worker now limit tokens) { s with store := st }
  | drained {worker : _} (hpc : s.workers.get? worker = some (.next [])) :
      Stepped digest policy s (.load worker) { s with workers := s.workers.erase worker }
  | loaded {worker event queue : _} (hpc : s.workers.get? worker = some (.next (event :: queue))) :
      Stepped digest policy s (.load worker) (load s worker event queue)
  | answered {worker remote event order queue action : _}
      (hpc : s.workers.get? worker = some (.calling event order queue))
      (haction : actionFor (policy worker) event remote = some action) :
      Stepped digest policy s (.answer worker remote)
        { s with workers := s.workers.set worker (.finishing event order.id action queue) }
  | finished {worker now newEvent event orderID action queue st : _}
      (hpc : s.workers.get? worker = some (.finishing event orderID action queue))
      (hfresh : Fresh s.store.events newEvent)
      (hperform : perform (policy worker) s.store event orderID now newEvent action = .ok st) :
      Stepped digest policy s (.finish worker now newEvent)
        { store := st, workers := s.workers.set worker (.next queue) }
  | leaseLost {worker now newEvent event orderID action queue : _}
      (hpc : s.workers.get? worker = some (.finishing event orderID action queue)) :
      Stepped digest policy s (.finish worker now newEvent)
        { s with workers := s.workers.set worker (.next queue) }
  | stopped {worker now newEvent : _} :
      Stepped digest policy s (.finish worker now newEvent)
        { s with workers := s.workers.erase worker }
  | crashed {worker : _} :
      Stepped digest policy s (.crash worker) { s with workers := s.workers.erase worker }

theorem stepped_of_step {s s' : State} {a : Label} (h : step digest policy s a = some s') :
    Stepped digest policy s a s' := by
  revert h
  fun_cases step digest policy s a <;> rintro ⟨⟩
  · exact .placed ‹_›
  · exact .claimed ‹_›
  · exact .claimFailed ‹_›
  · exact .drained ‹_›
  · exact .loaded ‹_›
  · exact .answered ‹_› ‹_›
  · exact .finished ‹_› ‹_› ‹_›
  · exact .leaseLost ‹_›
  · exact .stopped
  · exact .crashed

theorem load_store (s : State) (worker : Nat) (event : OutboxEvent) (queue : List OutboxEvent) :
    (load s worker event queue).store = s.store := by
  unfold load
  split
  · rfl
  · split <;> rfl

end

end GoServices.OrderService
