/-
The hold service: visitors hold a place in a slot and confirm it into a booking.

Redis keeps a capacity and a counter per slot, a hash per hold, the sorted set of the deadlines
of held holds and the sorted set of the confirmations under way.
-/
import GoServices.Base.Run
import GoServices.Base.Table
import Mathlib.Data.String.Basic

namespace GoServices.HoldQueue

inductive Status
  | held
  | confirming
  | confirmed
  | expired
  | cancelled
  deriving DecidableEq

structure Hold where
  id : String
  slot : String
  visitorID : String
  status : Status
  expiresAt : Int
  confirmedAt : Option Int
  deriving DecidableEq

structure Booking where
  id : String
  holdID : String
  slot : String
  visitorID : String
  confirmed : Int
  deriving DecidableEq

/-! ## Redis -/

structure Redis where
  capacity : Table String Int
  used : Table String Int
  holds : Table String Hold
  deadlines : Table String Int
  pending : Table String Int

def unixMilli (t : Int) : Int := t.fdiv 1000000

namespace Redis

def empty : Redis :=
  { capacity := .empty, used := .empty, holds := .empty, deadlines := .empty, pending := .empty }

variable (r : Redis)

/-- `GET` of a slot's counter, zero when it is not set. -/
def usedOf (slot : String) : Int := (r.used.get? slot).getD 0

def setCapacity (slot : String) (capacity : Int) : Redis :=
  { r with capacity := r.capacity.set slot capacity }

/-- The script of `CreateHold`. -/
def createHold (id slot visitorID : String) (expires : Int) : Redis × Int :=
  let capacity := (r.capacity.get? slot).getD (-1)
  let used := r.usedOf slot
  if capacity < 0 then (r, -2)
  else if used ≥ capacity then (r, 0)
  else
    let hold : Hold :=
      { id := id, slot := slot, visitorID := visitorID, status := .held, expiresAt := expires,
        confirmedAt := none }
    ({ r with
      holds := r.holds.set id hold
      used := r.used.set slot (used + 1)
      deadlines := r.deadlines.set id (unixMilli expires) }, 1)

variable (id : String)

/-- The script of `ConfirmHold`. -/
def confirmHold (now confirmedAt : Int) : Redis × Int :=
  match r.holds.get? id with
  | none => (r, 0)
  | some hold =>
    if hold.status ≠ .held then (r, 0)
    else if (r.deadlines.get? id).getD 0 ≤ unixMilli now then (r, 0)
    else
      ({ r with
        holds := r.holds.set id { hold with status := .confirming, confirmedAt := some confirmedAt }
        deadlines := r.deadlines.erase id
        pending := r.pending.set id (unixMilli now) }, 1)

/-- The script of `persistAndFinalize`. -/
def finalize : Redis × Int :=
  match r.holds.get? id with
  | none => (r, 0)
  | some hold =>
    if hold.status ≠ .confirming then (r, 0)
    else
      ({ r with
        holds := r.holds.set id { hold with status := .confirmed }
        pending := r.pending.erase id }, 1)

/-- The script of `ReleaseExpiredHolds`.  It also gives the hash a day to live, see
`expireKey`. -/
def expireHold : Redis × Int :=
  match r.holds.get? id with
  | none => ({ r with deadlines := r.deadlines.erase id }, 0)
  | some hold =>
    if hold.status ≠ .held then ({ r with deadlines := r.deadlines.erase id }, 0)
    else
      ({ r with
        holds := r.holds.set id { hold with status := .expired }
        used := r.used.set hold.slot (r.usedOf hold.slot - 1)
        deadlines := r.deadlines.erase id }, 1)

def expireKey : Redis := { r with holds := r.holds.erase id }

def scoreLE (x y : String × Int) : Prop := x.2 < y.2 ∨ x.2 = y.2 ∧ x.1 ≤ y.1
  deriving Decidable

def byScore (z : Table String Int) : List (String × Int) := z.toList.insertionSort scoreLE

/-- `ZRANGEBYSCORE` of the deadlines up to now. -/
def dueHolds (now : Int) : List String :=
  ((byScore r.deadlines).filter fun e => e.2 ≤ unixMilli now).map Prod.fst

/-- `ZRANGE` of the pending confirmations, from 0 to 99. -/
def pendingHolds : List String := ((byScore r.pending).take 100).map Prod.fst

end Redis

/-! ## The booking store -/

/-- `FileBookingStore`: the lines of the file and the ids the process has seen. -/
structure BookingStore where
  file : List Booking
  seen : List String

namespace BookingStore

/-- `NewFileBookingStore` on the file. -/
def load (file : List Booking) : BookingStore := { file := file, seen := file.map Booking.holdID }

inductive RecordError
  | alreadyRecorded
  | io

/-- `Record`, which appends the line and remembers the id, or fails. -/
def record (b : BookingStore) (booking : Booking) (ioError : Bool) :
    BookingStore × Except RecordError Unit :=
  if booking.holdID ∈ b.seen then (b, .error .alreadyRecorded)
  else if ioError then (b, .error .io)
  else ({ file := b.file ++ [booking], seen := booking.holdID :: b.seen }, .ok ())

end BookingStore

/-! ## Calls and workers -/

inductive ServiceError
  | invalidHold
  | slotFull
  | noCapacity
  | holdMissing
  | holdInactive
  | noConfirmationTime
  | redis
  | record
  deriving DecidableEq

/-- `CreateHold` on its arguments and the script's answer. -/
def createResult (id slot visitorID : String) (expires : Int) : Int → Except ServiceError Hold
  | 1 => .ok ⟨id, slot, visitorID, .held, expires, none⟩
  | 0 => .error .slotFull
  | _ => .error .noCapacity

/-- What runs after `persistAndFinalize`: `ConfirmHold` returns its result, a recovery
worker goes on with the ids it has left. -/
inductive Caller
  | confirm
  | recover (rest : List String)
  deriving DecidableEq

inductive Pc
  | get (id : String)
  | script (hold : Hold)
  | reget (id : String)
  | persist (hold : Hold) (caller : Caller)
  | finalize (hold : Hold) (booking : Booking) (caller : Caller)
  | recover (ids : List String)
  | expire (ids : List String)
  | done (result : Except ServiceError Booking)
  | created (result : Except ServiceError Hold)
  | stopped
  deriving DecidableEq

/-- Where `persistAndFinalize` leaves its caller. -/
def Caller.return (result : Except ServiceError Booking) : Caller → Pc
  | .confirm => .done result
  | .recover rest => .recover rest

/-- `persistAndFinalize` up to its first step. -/
def startPersist (hold : Hold) (caller : Caller) : Pc :=
  match hold.confirmedAt with
  | none => caller.return (.error .noConfirmationTime)
  | some _ => .persist hold caller

def bookingOf (hold : Hold) : Booking :=
  { id := "booking-" ++ hold.id, holdID := hold.id, slot := hold.slot,
    visitorID := hold.visitorID, confirmed := hold.confirmedAt.getD 0 }

/-- `ConfirmHold` after its first `GetHold`. -/
def afterGet (now : Int) : Option Hold → Pc
  | none => .done (.error .holdMissing)
  | some hold =>
    if hold.status = .confirmed ∨ hold.status = .confirming then startPersist hold .confirm
    else if hold.status ≠ .held ∨ ¬ now < hold.expiresAt then .done (.error .holdInactive)
    else .script hold

def afterScript (hold : Hold) (confirmedAt : Int) (result : Int) : Pc :=
  if result ≠ 1 then .reget hold.id
  else startPersist { hold with status := .confirming, confirmedAt := some confirmedAt } .confirm

def afterReget : Option Hold → Pc
  | none => .done (.error .holdMissing)
  | some hold =>
    if hold.status = .confirming ∨ hold.status = .confirmed then startPersist hold .confirm
    else .done (.error .holdInactive)

def afterRecord (hold : Hold) (caller : Caller) : Except BookingStore.RecordError Unit → Pc
  | .error .io => caller.return (.error .record)
  | .error .alreadyRecorded | .ok () =>
    if hold.status = .confirmed then caller.return (.ok (bookingOf hold))
    else .finalize hold (bookingOf hold) caller

def afterFinalize (booking : Booking) (caller : Caller) (result : Int) : Pc :=
  if result ≠ 1 then caller.return (.error .holdInactive) else caller.return (.ok booking)

/-- The recovery worker after `GetHold` of its next id. -/
def afterRecover (rest : List String) : Option Hold → Pc
  | none => .recover rest
  | some hold =>
    if hold.status = .confirming then startPersist hold (.recover rest) else .recover rest

/-! ## Steps -/

structure State where
  redis : Redis
  store : BookingStore
  calls : Table Nat Pc
  /-- The hold ids that `randomID` has returned. -/
  drawn : List String

def initial : State :=
  { redis := .empty, store := .load [], calls := .empty, drawn := [] }

inductive Reply
  | received
  | lost (applied : Bool)
  deriving DecidableEq

def Reply.apply (reply : Reply) (r r' : Redis) : Redis :=
  match reply with
  | .received => r'
  | .lost applied => if applied then r' else r

def Reply.pc (reply : Reply) (onAnswer onError : Pc) : Pc :=
  match reply with
  | .received => onAnswer
  | .lost _ => onError

inductive Label
  | setCapacity (slot : String) (capacity : Int) (reply : Reply)
  | create (call : Nat) (id slot visitorID : String) (ttl now : Int) (reply : Reply)
  | confirm (call : Nat) (id : String)
  | recover (call : Nat)
  | releaseExpired (call : Nat) (now : Int)
  | get (call : Nat) (now : Int) (answered : Bool)
  | script (call : Nat) (confirmedAt now : Int) (reply : Reply)
  | reget (call : Nat) (answered : Bool)
  | persist (call : Nat) (ioError : Bool)
  | finalize (call : Nat) (reply : Reply)
  | recoverGet (call : Nat) (answered : Bool)
  | expire (call : Nat) (reply : Reply)
  | expireKey (id : String)
  | crash

variable (s : State)

def State.setPc (call : Nat) (pc : Pc) : State :=
  { s with calls := s.calls.set call pc }

def State.start (call : Nat) (pc : Pc) : Option State :=
  match s.calls.get? call with
  | some _ => none
  | none => some (s.setPc call pc)

/-- `CreateHold` with a new id. -/
def State.create (call : Nat) (id slot visitorID : String) (ttl now : Int)
    (reply : Reply) : Option State :=
  if slot = "" ∨ visitorID = "" ∨ ttl ≤ 0 then s.start call (.created (.error .invalidHold))
  else if id ∈ s.drawn then none
  else
    let (r, result) := s.redis.createHold id slot visitorID (now + ttl)
    { s with redis := reply.apply s.redis r, drawn := id :: s.drawn }.start call
      (reply.pc (.created (createResult id slot visitorID (now + ttl) result))
        (.created (.error .redis)))

def State.next (call : Nat) : Pc → Label → Option State
  | .get id, .get _ now answered =>
    some (s.setPc call
      (if answered then afterGet now (s.redis.holds.get? id) else .done (.error .redis)))
  | .script hold, .script _ confirmedAt now reply =>
    let (r, result) := s.redis.confirmHold hold.id now confirmedAt
    some ({ s with redis := reply.apply s.redis r }.setPc call
      (reply.pc (afterScript hold confirmedAt result) (.done (.error .redis))))
  | .reget id, .reget _ answered =>
    some (s.setPc call
      (if answered then afterReget (s.redis.holds.get? id) else .done (.error .redis)))
  | .persist hold caller, .persist _ ioError =>
    let (store, result) := s.store.record (bookingOf hold) ioError
    some ({ s with store := store }.setPc call (afterRecord hold caller result))
  | .finalize hold booking caller, .finalize _ reply =>
    let (r, result) := s.redis.finalize hold.id
    some ({ s with redis := reply.apply s.redis r }.setPc call
      (reply.pc (afterFinalize booking caller result) (caller.return (.error .redis))))
  | .recover (id :: rest), .recoverGet _ answered =>
    some (s.setPc call
      (if answered then afterRecover rest (s.redis.holds.get? id) else .recover rest))
  | .expire (id :: rest), .expire _ reply =>
    let (r, _) := s.redis.expireHold id
    some ({ s with redis := reply.apply s.redis r }.setPc call (reply.pc (.expire rest) .stopped))
  | _, _ => none

def step (a : Label) : Option State :=
  match a with
  | .setCapacity slot capacity reply =>
    if slot = "" ∨ capacity < 0 then some s
    else some { s with redis := reply.apply s.redis (s.redis.setCapacity slot capacity) }
  | .create call id slot visitorID ttl now reply => s.create call id slot visitorID ttl now reply
  | .confirm call id => s.start call (.get id)
  | .recover call => s.start call (.recover s.redis.pendingHolds)
  | .releaseExpired call now => s.start call (.expire (s.redis.dueHolds now))
  | .get call .. | .script call .. | .reget call .. | .persist call .. | .finalize call ..
  | .recoverGet call .. | .expire call .. =>
    (s.calls.get? call).bind fun pc => s.next call pc a
  | .expireKey id =>
    match s.redis.holds.get? id with
    | some hold =>
      if hold.status = .expired then some { s with redis := s.redis.expireKey id } else none
    | none => none
  | .crash => some { s with calls := .empty, store := .load s.store.file }

end GoServices.HoldQueue
