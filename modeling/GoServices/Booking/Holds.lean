/-
The hold path of the booking store: `placeHold`, `ConfirmHold` and `ReleaseHold`.

The database is the rows of `bookings` and `idempotency_keys` and the two partial unique indexes
of the migrations.
-/
import GoServices.Base.Run
import GoServices.Base.Table
import GoServices.Base.UniqueIndex

namespace GoServices.Booking

inductive Status
  | held
  | confirmed
  | expired
  | cancelled
  deriving DecidableEq

/-- A row of `bookings`.  Times are microseconds. -/
structure Row where
  id : Nat
  matchID : String
  seatID : String
  buyerID : String
  status : Status
  holdExpiresAt : Option Int
  confirmedAt : Option Int
  cancelledAt : Option Int
  createdAt : Int
  deriving DecidableEq

/-- `ux_bookings_active_seat`. -/
def activeSeat : UniqueIndex Row (String × String) where
  covers b := b.status = .held || b.status = .confirmed
  key b := (b.matchID, b.seatID)

/-- `ux_bookings_one_held_seat_per_buyer`. -/
def oneHeldPerBuyer : UniqueIndex Row (String × String) where
  covers b := b.status = .held
  key b := (b.matchID, b.buyerID)

/-- The tables the hold path reads and writes; `keys` is `idempotency_keys`. -/
structure Database where
  seats : List (String × String)
  matchIDs : List String
  bookings : List Row
  keys : Table String Nat
  nextID : Nat

/-- The arguments of `placeHold`; `ttl` is in nanoseconds and `idemKey` is empty
for `PlaceHold`. -/
structure HoldRequest where
  matchID : String
  seatID : String
  buyerID : String
  ttl : Int
  idemKey : String
  deriving DecidableEq

/-- The statements of `placeHold` that can fail. -/
inductive Stage
  | lookup
  | beginTx
  | lockBuyerMatch
  | clearStaleKey
  | releasePrevious
  | expireStale
  | insert
  | recordKey
  | commit
  deriving DecidableEq

inductive Answer
  | received
  | lost (applied : Bool)

structure Faults where
  statement : Option Stage
  commit : Answer

inductive InsertError
  | uniqueViolation
  | foreignKey

/-- The row that the `INSERT` of `placeHold` adds. -/
def heldRow (req : HoldRequest) (now : Int) (id : Nat) : Row :=
  { id := id, matchID := req.matchID, seatID := req.seatID, buyerID := req.buyerID,
    status := .held, holdExpiresAt := some (now + req.ttl.tdiv 1000), confirmedAt := none,
    cancelledAt := none, createdAt := now }

namespace Database

variable (db : Database)

/-- `UPDATE bookings SET … WHERE …`. -/
def update (where_ : Row → Bool) (set : Row → Row) : Database :=
  { db with bookings := db.bookings.map fun b => if where_ b then set b else b }

/-- `hold_expires_at < now()`, which a null does not satisfy. -/
def expiredBefore (holdExpiresAt : Option Int) (now : Int) : Bool :=
  match holdExpiresAt with
  | some t => t < now
  | none => false

/-- `hold_expires_at > now()`. -/
def expiresAfter (holdExpiresAt : Option Int) (now : Int) : Bool :=
  match holdExpiresAt with
  | some t => now < t
  | none => false

/-- `DELETE FROM idempotency_keys WHERE key = $1 AND booking_id = $2`. -/
def clearStaleKey (idemKey : String) (staleBookingID : Nat) : Database :=
  if db.keys.get? idemKey = some staleBookingID then { db with keys := db.keys.erase idemKey }
  else db

def releasePrevious (req : HoldRequest) (now : Int) : Database :=
  db.update
    (fun b => b.matchID = req.matchID && b.buyerID = req.buyerID && b.status = .held &&
      b.seatID ≠ req.seatID)
    fun b => { b with status := .cancelled, cancelledAt := some now }

def expireStale (req : HoldRequest) (now : Int) : Database :=
  db.update
    (fun b => b.matchID = req.matchID && b.seatID = req.seatID && b.status = .held &&
      expiredBefore b.holdExpiresAt now)
    fun b => { b with status := .expired }

/-- The `INSERT` of the new hold. -/
def insertHeld (req : HoldRequest) (now : Int) :
    Database × Except InsertError Row :=
  let b := heldRow req now db.nextID
  let drawn := { db with nextID := db.nextID + 1 }
  if activeSeat.conflicts db.bookings b || oneHeldPerBuyer.conflicts db.bookings b then
    (drawn, .error .uniqueViolation)
  else if (req.matchID, req.seatID) ∈ db.seats ∧ req.matchID ∈ db.matchIDs then
    ({ drawn with bookings := db.bookings ++ [b] }, .ok b)
  else (drawn, .error .foreignKey)

end Database

/-! ## `placeHold` -/

variable (req : HoldRequest)

/-- The table that the `INSERT` of the transaction sees. -/
def beforeInsert (staleBookingID : Nat) (now : Int) (db : Database) :
    Database :=
  let db := if staleBookingID ≠ 0 then db.clearStaleKey req.idemKey staleBookingID else db
  (db.releasePrevious req now).expireStale req now

inductive TxResult
  | ok (row : Row)
  | insertConflict
  | keyConflict
  | failed (stage : Stage)
  deriving DecidableEq

def rollback (db drawn : Database) : Database := { db with nextID := drawn.nextID }

def commitTx (f : Faults) (db d : Database) (row : Row) : Database × TxResult :=
  match f.commit with
  | .received => (d, .ok row)
  | .lost applied => (if applied then d else rollback db d, .failed .commit)

/-- The transaction of `placeHold`. -/
def holdTx (staleBookingID : Nat) (now : Int) (f : Faults) (db : Database) :
    Database × TxResult :=
  let stages := [.beginTx, .lockBuyerMatch] ++
    (if staleBookingID ≠ 0 then [.clearStaleKey] else []) ++
    [.releasePrevious, .expireStale, .insert]
  match stages.find? fun stage => f.statement = some stage with
  | some stage => (db, .failed stage)
  | none =>
    match (beforeInsert req staleBookingID now db).insertHeld req now with
    | (d, .error .uniqueViolation) => (rollback db d, .insertConflict)
    | (d, .error .foreignKey) => (rollback db d, .failed .insert)
    | (d, .ok row) =>
      if req.idemKey = "" then commitTx f db d row
      else if f.statement = some .recordKey then (rollback db d, .failed .recordKey)
      else
        match d.keys.get? req.idemKey with
        | some _ => (rollback db d, .keyConflict)
        | none => commitTx f db { d with keys := d.keys.set req.idemKey row.id } row

/-- `idemState`, with the row it comes with. -/
inductive IdemState
  | miss
  | live (row : Row)
  | dead (row : Row)
  | mismatch

def Row.live (b : Row) (now : Int) : Bool :=
  b.status = .confirmed || (b.status = .held && Database.expiresAfter b.holdExpiresAt now)

def lookupIdempotentHold (db : Database) (req : HoldRequest) (now : Int) : IdemState :=
  match (db.keys.get? req.idemKey).bind fun id => db.bookings.find? fun b => b.id = id with
  | none => .miss
  | some row =>
    if row.matchID ≠ req.matchID ∨ row.seatID ≠ req.seatID ∨ row.buyerID ≠ req.buyerID then
      .mismatch
    else if row.live now then .live row
    else .dead row

inductive HoldError
  | keyReuse
  | seatUnavailable
  | failed (stage : Stage)
  deriving DecidableEq

/-- Where a call of `placeHold` is. -/
inductive Pc
  | lookup
  | tx (staleBookingID : Nat)
  | recheck
  | done (result : Except HoldError Row)
  deriving DecidableEq

structure Call where
  req : HoldRequest
  pc : Pc
  deriving DecidableEq

def Pc.start : Pc := if req.idemKey = "" then .tx 0 else .lookup

def afterLookup : IdemState → Pc
  | .miss => .tx 0
  | .live row => .done (.ok row)
  | .dead row => .tx row.id
  | .mismatch => .done (.error .keyReuse)

def afterTx : TxResult → Pc
  | .ok row => .done (.ok row)
  | .insertConflict => if req.idemKey = "" then .done (.error .seatUnavailable) else .recheck
  | .keyConflict => .recheck
  | .failed stage => .done (.error (.failed stage))

def afterRecheck : IdemState → Pc
  | .live row => .done (.ok row)
  | .mismatch => .done (.error .keyReuse)
  | .miss | .dead _ => .done (.error .seatUnavailable)

/-! ## `ConfirmHold` and `ReleaseHold` -/

inductive HoldUpdateError
  | holdExpired
  | notFound

def confirmHold (db : Database) (holdID : Nat) (buyerID : String) (now : Int) :
    Database × Except HoldUpdateError Row :=
  let selects : Row → Bool := fun b => b.id = holdID && b.buyerID = buyerID &&
    b.status = .held && Database.expiresAfter b.holdExpiresAt now
  let confirm : Row → Row := fun b =>
    { b with status := .confirmed, confirmedAt := some now, holdExpiresAt := none }
  match db.bookings.find? selects with
  | none => (db, .error .holdExpired)
  | some b => (db.update selects confirm, .ok (confirm b))

def releaseHold (db : Database) (holdID : Nat) (buyerID : String) (now : Int) :
    Database × Except HoldUpdateError String :=
  let selects : Row → Bool := fun b => b.id = holdID && b.buyerID = buyerID && b.status = .held
  match db.bookings.find? selects with
  | none => (db, .error .notFound)
  | some b =>
    (db.update selects fun b => { b with status := .cancelled, cancelledAt := some now },
      .ok b.matchID)

/-! ## Runs -/

structure State where
  db : Database
  calls : Table Nat Call

inductive Label
  | place (call : Nat) (req : HoldRequest)
  | lookup (call : Nat) (now : Int) (answered : Bool)
  | hold (call : Nat) (now : Int) (f : Faults)
  | recheck (call : Nat) (now : Int) (answered : Bool)
  | confirm (holdID : Nat) (buyerID : String) (now : Int) (answer : Answer)
  | release (holdID : Nat) (buyerID : String) (now : Int) (answer : Answer)

def Answer.apply (a : Answer) (db db' : Database) : Database :=
  match a with
  | .received => db'
  | .lost applied => if applied then db' else db

def step (s : State) : Label → Option State
  | .place call req =>
    match s.calls.get? call with
    | some _ => none
    | none => some { s with calls := s.calls.set call { req := req, pc := .start req } }
  | .lookup call now answered =>
    match s.calls.get? call with
    | some ⟨req, .lookup⟩ =>
      let pc := if answered then afterLookup (lookupIdempotentHold s.db req now)
        else .done (.error (.failed .lookup))
      some { s with calls := s.calls.set call { req := req, pc := pc } }
    | _ => none
  | .hold call now f =>
    match s.calls.get? call with
    | some ⟨req, .tx stale⟩ =>
      let (db, result) := holdTx req stale now f s.db
      some { db := db, calls := s.calls.set call { req := req, pc := afterTx req result } }
    | _ => none
  | .recheck call now answered =>
    match s.calls.get? call with
    | some ⟨req, .recheck⟩ =>
      let pc := if answered then afterRecheck (lookupIdempotentHold s.db req now)
        else .done (.error (.failed .lookup))
      some { s with calls := s.calls.set call { req := req, pc := pc } }
    | _ => none
  | .confirm holdID buyerID now answer =>
    some { s with db := answer.apply s.db (confirmHold s.db holdID buyerID now).1 }
  | .release holdID buyerID now answer =>
    some { s with db := answer.apply s.db (releaseHold s.db holdID buyerID now).1 }

def initial (seats : List (String × String)) (matchIDs : List String) : State where
  db := { seats := seats, matchIDs := matchIDs, bookings := [], keys := .empty, nextID := 1 }
  calls := .empty

/-! ## What a step does -/

/-- The ways in which a step can go, one for each branch of `step`. -/
inductive Stepped (s : State) : Label → State → Prop
  | placed {i req : _} (hcall : s.calls.get? i = none) :
      Stepped s (.place i req) { s with calls := s.calls.set i ⟨req, .start req⟩ }
  | lookedUp {i now answered req : _} (hcall : s.calls.get? i = some ⟨req, .lookup⟩) :
      Stepped s (.lookup i now answered)
        { s with
          calls := s.calls.set i ⟨req,
            if answered then afterLookup (lookupIdempotentHold s.db req now)
            else .done (.error (.failed .lookup))⟩ }
  | held {i now f req stale : _} (hcall : s.calls.get? i = some ⟨req, .tx stale⟩) :
      Stepped s (.hold i now f)
        { db := (holdTx req stale now f s.db).1,
          calls := s.calls.set i ⟨req, afterTx req (holdTx req stale now f s.db).2⟩ }
  | rechecked {i now answered req : _} (hcall : s.calls.get? i = some ⟨req, .recheck⟩) :
      Stepped s (.recheck i now answered)
        { s with
          calls := s.calls.set i ⟨req,
            if answered then afterRecheck (lookupIdempotentHold s.db req now)
            else .done (.error (.failed .lookup))⟩ }
  | confirmed {holdID : Nat} {buyerID now answer : _} :
      Stepped s (.confirm holdID buyerID now answer)
        { s with db := answer.apply s.db (confirmHold s.db holdID buyerID now).1 }
  | released {holdID : Nat} {buyerID now answer : _} :
      Stepped s (.release holdID buyerID now answer)
        { s with db := answer.apply s.db (releaseHold s.db holdID buyerID now).1 }

theorem stepped_of_step {s s' : State} {a : Label} (h : step s a = some s') :
    Stepped s a s' := by
  revert h
  fun_cases step s a <;> rintro ⟨⟩
  · exact .placed ‹_›
  · exact .lookedUp ‹_›
  · rename_i now f req stale hcall db result htx
    have hheld := @Stepped.held s _ now f _ _ hcall
    rw [htx] at hheld
    exact hheld
  · exact .rechecked ‹_›
  · exact .confirmed
  · exact .released

end GoServices.Booking
