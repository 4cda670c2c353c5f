/-
The consumer runtime: `runConsumer` with the dedup of the inbox.

A delivery of a message to a consumer group asks Redis and then Postgres whether the group has
processed the event, runs the handler and marks the event as processed.
-/
import GoServices.Base.Run
import GoServices.FoodDelivery.Handlers

namespace GoServices.FoodDelivery

inductive Value
  | empty
  | invalid (error : String)
  | event (e : Envelope)

/-- What `eachMessage` waits for. -/
inductive Pc
  | redisCheck (e : Envelope)
  | pgCheck (e : Envelope)
  | handling (e : Envelope) (attempt : Nat) (program : Program)
  | marking (e : Envelope) (attempt : Nat)
  | caching (e : Envelope)
  | backoff (e : Envelope) (attempt : Nat)
  | deadLettering (event : Option Envelope) (error : String)
  | returned
  | threw
  | crashed

structure Delivery where
  process : Nat
  group : String
  topic : Topic
  pc : Pc

structure DeadLetter where
  originalTopic : Topic
  consumerGroup : String
  event : Option Envelope
  error : String

structure State where
  db : Database
  redis : Table (String × String) Unit
  deadLetters : List DeadLetter
  deliveries : Table Nat Delivery

def initial : State :=
  { db := .empty, redis := .empty, deadLetters := [], deliveries := .empty }

/-- How a transaction ends; `unanswered` has committed but the client gets an error. -/
inductive Outcome
  | committed
  | failed (error : String)
  | unanswered (error : String)

inductive Answer
  | text (s : String)
  | bool (b : Bool)
  | nat (n : Nat)

def Program.resume : Program → Answer → Option Program
  | .uuid next, .text s | .now next, .text s => some (next s)
  | .chance next, .bool b => some (next b)
  | .pick bound next, .nat n => if n < bound then some (next n) else none
  | _, _ => none

inductive Label
  | deliver (d process : Nat) (group : String) (topic : Topic) (value : Value)
  | redisExists (d : Nat) (up : Bool)
  | select (d : Nat) (ok : Bool)
  | answer (d : Nat) (a : Answer)
  | readOrder (d : Nat) (error : Option String)
  | commit (d : Nat) (outcome : Outcome)
  | publish (d : Nat) (error : Option String)
  | finish (d : Nat)
  | mark (d : Nat) (outcome : Outcome)
  | redisSet (d : Nat) (up : Bool)
  | wake (d : Nat)
  | sendDead (d : Nat) (ok : Bool)
  | evict (group eventId : String)
  | crash (process : Nat)

section
variable (handler : String → Handler) (maxAttempts : Nat)

/-- The loop of `eachMessage` at the head of an attempt. -/
def beginAttempt (group : String) (e : Envelope) (attempt : Nat) : Pc :=
  if attempt ≤ maxAttempts then .handling e attempt (handler group { e with attempt := attempt })
  else .returned

/-- The `catch` of an attempt. -/
def failAttempt (e : Envelope) (attempt : Nat) (error : String) : Pc :=
  if attempt ≥ maxAttempts then .deadLettering (some { e with attempt := attempt }) error
  else .backoff e attempt

def State.setPc (s : State) (d : Nat) (dl : Delivery) (pc : Pc) : State :=
  { s with deliveries := s.deliveries.set d { dl with pc := pc } }

def State.transact (s : State) (d : Nat) (dl : Delivery) (db : Database) (outcome : Outcome)
    (ok : Pc) (fail : String → Pc) : State :=
  match outcome with
  | .committed => { s with db := db }.setPc d dl ok
  | .failed error => s.setPc d dl (fail error)
  | .unanswered error => { s with db := db }.setPc d dl (fail error)

def State.next (s : State) (d : Nat) (dl : Delivery) (a : Label) : Option State :=
  match dl.pc, a with
  | .redisCheck e, .redisExists _ up =>
    some (s.setPc d dl
      (if up ∧ (s.redis.get? (dl.group, e.id)).isSome then .returned else .pgCheck e))
  | .pgCheck e, .select _ ok =>
    some (s.setPc d dl
      (if ¬ ok then .threw
      else if (s.db.processed.get? (dl.group, e.id)).isSome then .returned
      else beginAttempt handler maxAttempts dl.group e 1))
  | .handling e k program, .answer _ a =>
    (program.resume a).map fun program => s.setPc d dl (.handling e k program)
  | .handling e k (.getOrder orderId next), .readOrder _ error =>
    some (s.setPc d dl
      (match error with
      | none => .handling e k (next (s.db.orders.get? orderId))
      | some error => failAttempt maxAttempts e k error))
  | .handling e k (.emit events next), .commit _ outcome =>
    match s.db.emitEvents events with
    | .ok db =>
      some (s.transact d dl db outcome (.handling e k next) (failAttempt maxAttempts e k))
    | .error error => some (s.setPc d dl (failAttempt maxAttempts e k error))
  | .handling e k (.project orderId status type patch next), .commit _ outcome =>
    some (s.transact d dl (s.db.projectOrder orderId status type patch) outcome
      (.handling e k next) (failAttempt maxAttempts e k))
  | .handling e k (.publish _ _ next), .publish _ error =>
    some (s.setPc d dl
      (match error with
      | none => .handling e k next
      | some error => failAttempt maxAttempts e k error))
  | .handling e k .done, .finish _ => some (s.setPc d dl (.marking e k))
  | .handling e k (.throw message), .finish _ =>
    some (s.setPc d dl (failAttempt maxAttempts e k message))
  | .marking e k, .mark _ outcome =>
    some (s.transact d dl (s.db.markProcessed dl.group e.id) outcome (.caching e)
      (failAttempt maxAttempts e k))
  | .caching e, .redisSet _ up =>
    some ({ s with redis := if up then s.redis.set (dl.group, e.id) () else s.redis }.setPc d dl
      .returned)
  | .backoff e k, .wake _ =>
    some (s.setPc d dl (beginAttempt handler maxAttempts dl.group e (k + 1)))
  | .deadLettering event error, .sendDead _ ok =>
    if ok then
      let letter : DeadLetter := ⟨dl.topic, dl.group, event, error⟩
      some ({ s with deadLetters := s.deadLetters ++ [letter] }.setPc d dl .returned)
    else some (s.setPc d dl .threw)
  | _, _ => none

def Delivery.crash (process : Nat) (dl : Delivery) : Delivery :=
  if dl.process = process then { dl with pc := .crashed } else dl

def step (s : State) (a : Label) : Option State :=
  match a with
  | .deliver d process group topic value =>
    match s.deliveries.get? d with
    | some _ => none
    | none =>
      let pc : Pc := match value with
        | .empty => .returned
        | .invalid error => .deadLettering none ("parse: " ++ error)
        | .event e => .redisCheck e
      some { s with deliveries := s.deliveries.set d ⟨process, group, topic, pc⟩ }
  | .redisExists d .. | .select d .. | .answer d .. | .readOrder d .. | .commit d ..
  | .publish d .. | .finish d | .mark d .. | .redisSet d .. | .wake d | .sendDead d .. =>
    (s.deliveries.get? d).bind fun dl => s.next handler maxAttempts d dl a
  | .evict group eventId => some { s with redis := s.redis.erase (group, eventId) }
  | .crash process =>
    some { s with deliveries := s.deliveries.mapValues (Delivery.crash process) }

end

/-! ## The transactions of the handlers -/

/-- A committed transaction of `emitEvents` and the attempt that ran it. -/
structure Commit where
  delivery : Nat
  attempt : Nat
  group : String
  eventId : String
  events : List Envelope

def commits (s : State) : Label → List Commit
  | .commit d outcome =>
    match s.deliveries.get? d with
    | some ⟨_, group, _, .handling e k (.emit events _)⟩ =>
      match s.db.emitEvents events, outcome with
      | .ok _, .committed | .ok _, .unanswered _ => [⟨d, k, group, e.id, events⟩]
      | _, _ => []
    | _ => []
  | _ => []

end GoServices.FoodDelivery
