/-
What a call of `placeHold` leaves behind when it fails.

The transaction is written out here statement by statement, on a copy of the tables: by the time
the `INSERT` meets a taken seat, the copy has lost the stale key, the buyer's old hold is
cancelled and the target's expired hold is marked.
-/
import GoServices.Base.Transaction
import GoServices.Booking.Constraints

namespace GoServices.Booking

open List Transaction

/-! ## The statements -/

def statement (f : Faults) (stage : Stage) (act : Database → Database) :
    Transaction Database TxResult Unit :=
  if f.statement = some stage then .fail (.failed stage) else .exec act

/-- The `INSERT` and its `Scan`. -/
def insertHold (req : HoldRequest) (now : Int) : Transaction Database TxResult Row := fun copy =>
  match copy.insertHeld req now with
  | (copy, .ok row) => (copy, .ok row)
  | (copy, .error .uniqueViolation) => (copy, .error .insertConflict)
  | (copy, .error .foreignKey) => (copy, .error (.failed .insert))

/-- `INSERT INTO idempotency_keys`. -/
def recordKey (req : HoldRequest) (row : Row) : Transaction Database TxResult Unit := fun copy =>
  match copy.keys.get? req.idemKey with
  | some _ => (copy, .error .keyConflict)
  | none => ({ copy with keys := copy.keys.set req.idemKey row.id }, .ok ())

/-- The statements up to the `INSERT`. -/
def prepareHold (req : HoldRequest) (staleBookingID : Nat) (now : Int) (f : Faults) :
    Transaction Database TxResult Unit := do
  statement f .beginTx id
  statement f .lockBuyerMatch id
  if staleBookingID ≠ 0 then
    statement f .clearStaleKey fun copy => copy.clearStaleKey req.idemKey staleBookingID
  else pure ()
  statement f .releasePrevious fun copy => copy.releasePrevious req now
  statement f .expireStale fun copy => copy.expireStale req now
  statement f .insert id

def recordHold (req : HoldRequest) (f : Faults) (row : Row) :
    Transaction Database TxResult Row := do
  if req.idemKey ≠ "" then
    statement f .recordKey id
    recordKey req row
  else pure ()
  return row

def holdStatements (req : HoldRequest) (staleBookingID : Nat) (now : Int) (f : Faults) :
    Transaction Database TxResult Row := do
  prepareHold req staleBookingID now f
  let row ← insertHold req now
  recordHold req f row

/-- `Commit`; an answer that is lost is an error of the call. -/
def commitHold (f : Faults) (db copy : Database) (row : Row) : Database × Except TxResult Row :=
  match f.commit with
  | .received => (copy, .ok row)
  | .lost applied => (if applied then copy else rollback db copy, .error (.failed .commit))

def txResult : Except TxResult Row → TxResult
  | .ok row => .ok row
  | .error result => result

/-- The program under the deferred `Rollback`. -/
def holdProgram (req : HoldRequest) (staleBookingID : Nat) (now : Int) (f : Faults)
    (db : Database) : Database × Except TxResult Row :=
  atomically rollback (holdStatements req staleBookingID now f) (commitHold f) db

theorem statement_run (f : Faults) (stage : Stage) (act : Database → Database) (copy : Database) :
    statement f stage act copy =
      if f.statement = some stage then (copy, .error (.failed stage)) else (act copy, .ok ()) := by
  unfold statement
  split <;> rfl

/-- The stages up to the `INSERT`, in their order. -/
def stagesBeforeInsert (staleBookingID : Nat) : List Stage :=
  [.beginTx, .lockBuyerMatch] ++ (if staleBookingID ≠ 0 then [.clearStaleKey] else []) ++
    [.releasePrevious, .expireStale, .insert]

theorem nextID_clearStaleKey (db : Database) (key : String) (stale : Nat) :
    (db.clearStaleKey key stale).nextID = db.nextID := by
  unfold Database.clearStaleKey
  split <;> rfl

variable {req : HoldRequest} {stale : Nat} {now : Int} {f : Faults} {db : Database}

theorem prepareHold_fails {stage : Stage}
    (h : (stagesBeforeInsert stale).find? (fun stage => f.statement = some stage) = some stage) :
    ∃ copy, prepareHold req stale now f db = (copy, .error (.failed stage)) ∧
      copy.nextID = db.nextID := by
  have hfails : f.statement = some stage := by simpa using find?_some h
  have hmem := mem_of_find?_eq_some h
  cases stage <;> by_cases hstale : stale = 0 <;>
    simp [stagesBeforeInsert, hstale, hfails, prepareHold, bind_run, statement_run,
      nextID_clearStaleKey, Database.releasePrevious, Database.expireStale,
      Database.update] at hmem ⊢

theorem prepareHold_succeeds
    (h : (stagesBeforeInsert stale).find? (fun stage => f.statement = some stage) = none) :
    prepareHold req stale now f db = (beforeInsert req stale now db, .ok ()) := by
  have hruns : ∀ stage ∈ stagesBeforeInsert stale, f.statement ≠ some stage := by
    intro stage hmem
    have hok := find?_eq_none.mp h stage hmem
    simpa using hok
  by_cases hstale : stale = 0 <;>
    simp [stagesBeforeInsert, hstale] at hruns <;>
    simp [hstale, prepareHold, bind_run, statement_run, beforeInsert, hruns]

theorem recordHold_run (req : HoldRequest) (f : Faults) (row : Row) (copy : Database) :
    recordHold req f row copy = if req.idemKey = "" then (copy, .ok row)
      else if f.statement = some .recordKey then (copy, .error (.failed .recordKey))
      else
        match copy.keys.get? req.idemKey with
        | some _ => (copy, .error .keyConflict)
        | none => ({ copy with keys := copy.keys.set req.idemKey row.id }, .ok row) := by
  unfold recordHold
  by_cases hkey : req.idemKey = ""
  · simp [hkey, pure_run]
  by_cases hrecord : f.statement = some .recordKey
  · simp [hkey, hrecord, bind_run, statement_run]
  simp only [hkey, hrecord, ne_eq, not_false_eq_true, if_true, if_false,
    bind_run, statement_run, recordKey, id]
  cases copy.keys.get? req.idemKey <;> rfl

theorem commitTx_eq (f : Faults) (db copy : Database) (row : Row) :
    commitTx f db copy row =
      ((commitHold f db copy row).1, txResult (commitHold f db copy row).2) := by
  unfold commitTx commitHold
  cases f.commit <;> rfl

theorem holdTx_eq_program (req : HoldRequest) (stale : Nat) (now : Int) (f : Faults)
    (db : Database) :
    holdTx req stale now f db =
      ((holdProgram req stale now f db).1, txResult (holdProgram req stale now f db).2) := by
  unfold holdTx
  dsimp only
  split
  · rename_i stage hfind
    obtain ⟨copy, hrun, hnext⟩ := @prepareHold_fails req stale now f db stage hfind
    simp [holdProgram, atomically, holdStatements, bind_run, hrun,
      txResult, rollback, hnext]
  rename_i hfind
  have hprepare := @prepareHold_succeeds req stale now f db hfind
  simp only [holdProgram, atomically, holdStatements, bind_run,
    hprepare, insertHold]
  cases (beforeInsert req stale now db).insertHeld req now with
  | mk copy inserted =>
  cases inserted with
  | error e => cases e <;> rfl
  | ok row =>
    simp only [recordHold_run]
    split
    · exact commitTx_eq f db copy row
    split
    · rfl
    cases copy.keys.get? req.idemKey with
    | some id => rfl
    | none => exact commitTx_eq f db _ row

variable {copy : Database}

/-- Alice holds `NORTH-1`, Bob has bought `NORTH-2`, and `key-1` still points to Alice's
expired hold on `NORTH-2`. -/
def demoTaken : Database where
  seats := [("m1", "NORTH-1"), ("m1", "NORTH-2")]
  matchIDs := ["m1"]
  bookings :=
    [⟨1, "m1", "NORTH-2", "alice", .expired, some 10, none, none, 0⟩,
      ⟨2, "m1", "NORTH-2", "bob", .confirmed, none, some 30, none, 20⟩,
      ⟨3, "m1", "NORTH-1", "alice", .held, some 100, none, none, 40⟩]
  keys := Table.empty.set "key-1" 1
  nextID := 4

def demoTakenRequest : HoldRequest := ⟨"m1", "NORTH-2", "alice", 1000, "key-1"⟩

/-- The copy at the conflict has lost the key and the hold on `NORTH-1`. -/
example :
    (holdStatements demoTakenRequest 1 51 ⟨none, .received⟩ demoTaken).1.keys.get? "key-1" = none ∧
      ∀ b ∈ (holdStatements demoTakenRequest 1 51 ⟨none, .received⟩ demoTaken).1.bookings,
        b.status ≠ .held := by
  decide +kernel

/-! ## One call -/

theorem commitHold_error {row : Row} {e : TxResult} (h : (commitHold f db copy row).2 = .error e) :
    e = .failed .commit := by
  unfold commitHold at h
  split at h <;> cases h
  rfl

theorem holdTx_early (hok : ∀ row, (holdTx req stale now f db).2 ≠ .ok row)
    (hcommit : (holdTx req stale now f db).2 ≠ .failed .commit) :
    (holdTx req stale now f db).1.bookings = db.bookings ∧
      (holdTx req stale now f db).1.keys = db.keys := by
  rw [holdTx_eq_program] at hok hcommit ⊢
  cases hresult : (holdProgram req stale now f db).2 with
  | ok row => exact absurd (by rw [hresult]; rfl) (hok row)
  | error e =>
    rw [hresult] at hcommit
    obtain ⟨copy, hcopy⟩ := atomically_of_error hresult fun copy row hfinish =>
      hcommit (commitHold_error hfinish)
    rw [holdProgram, hcopy]
    exact ⟨rfl, rfl⟩

structure Attempt where
  lookupAt : Int
  lookupAnswered : Bool
  holdAt : Int
  faults : Faults
  recheckAt : Int
  recheckAnswered : Bool

def replayHold (req : HoldRequest) (a : Attempt) (db : Database) : Except HoldError Row :=
  if a.recheckAnswered then
    match lookupIdempotentHold db req a.recheckAt with
    | .mismatch => .error .keyReuse
    | .live row => .ok row
    | .miss | .dead _ => .error .seatUnavailable
  else .error (.failed .lookup)

/-- `placeHold` from `Begin` on. -/
def placeFresh (req : HoldRequest) (staleBookingID : Nat) (a : Attempt) (db : Database) :
    Database × Except HoldError Row :=
  match holdTx req staleBookingID a.holdAt a.faults db with
  | (db, .ok row) => (db, .ok row)
  | (db, .insertConflict) =>
    if req.idemKey ≠ "" then (db, replayHold req a db) else (db, .error .seatUnavailable)
  | (db, .keyConflict) => (db, replayHold req a db)
  | (db, .failed stage) => (db, .error (.failed stage))

/-- `placeHold` of a request with a key. -/
def placeKeyed (req : HoldRequest) (a : Attempt) (db : Database) :
    Database × Except HoldError Row :=
  if a.lookupAnswered then
    match lookupIdempotentHold db req a.lookupAt with
    | .mismatch => (db, .error .keyReuse)
    | .live row => (db, .ok row)
    | .dead row => placeFresh req row.id a db
    | .miss => placeFresh req 0 a db
  else (db, .error (.failed .lookup))

def placeHold (req : HoldRequest) (a : Attempt) (db : Database) :
    Database × Except HoldError Row :=
  if req.idemKey ≠ "" then placeKeyed req a db else placeFresh req 0 a db

variable {a : Attempt} {e : HoldError}

theorem placeFresh_error (h : (placeFresh req stale a db).2 = .error e) (he : e ≠ .failed .commit) :
    (placeFresh req stale a db).1.bookings = db.bookings ∧
      (placeFresh req stale a db).1.keys = db.keys := by
  have hearly := @holdTx_early req stale a.holdAt a.faults db
  unfold placeFresh at h ⊢
  generalize holdTx req stale a.holdAt a.faults db = tx at h hearly ⊢
  obtain ⟨d, result⟩ := tx
  cases result with
  | ok row => cases h
  | insertConflict =>
    have hsame := hearly nofun nofun
    by_cases hkey : req.idemKey ≠ ""
    · simpa only [if_pos hkey] using hsame
    · simpa only [if_neg hkey] using hsame
  | keyConflict => exact hearly nofun nofun
  | failed stage =>
    refine hearly nofun fun heq => he ?_
    cases heq
    cases h
    rfl

theorem placeKeyed_error (h : (placeKeyed req a db).2 = .error e) (he : e ≠ .failed .commit) :
    (placeKeyed req a db).1.bookings = db.bookings ∧ (placeKeyed req a db).1.keys = db.keys := by
  unfold placeKeyed at h ⊢
  split
  · rename_i hanswered
    rw [if_pos hanswered] at h
    cases hstate : lookupIdempotentHold db req a.lookupAt with
    | mismatch | live row => exact ⟨rfl, rfl⟩
    | dead row | miss =>
      rw [hstate] at h
      exact placeFresh_error h he
  · exact ⟨rfl, rfl⟩

theorem placeHold_error (h : (placeHold req a db).2 = .error e) (he : e ≠ .failed .commit) :
    (placeHold req a db).1.bookings = db.bookings ∧ (placeHold req a db).1.keys = db.keys := by
  unfold placeHold at h ⊢
  split
  · rename_i hkey
    rw [if_pos hkey] at h
    exact placeKeyed_error h he
  rename_i hkey
  rw [if_neg hkey] at h
  exact placeFresh_error h he

/-! ## Many calls -/

def Label.call : Label → Option Nat
  | .place call _ | .lookup call _ _ | .hold call _ _ | .recheck call _ _ => some call
  | .confirm .. | .release .. => none

def writes (s : State) (l : Label) : List Nat :=
  match l.call, step s l with
  | some i, some s' =>
    if s'.db.bookings = s.db.bookings ∧ s'.db.keys = s.db.keys then [] else [i]
  | _, _ => []

def Pc.committed : Pc → Prop
  | .done (.ok _) | .done (.error (.failed .commit)) => True
  | _ => False

variable {s s' : State} {l : Label} {i : Nat}

theorem of_mem_writes (h : step s l = some s') (hi : i ∈ writes s l) :
    l.call = some i ∧ ¬ (s'.db.bookings = s.db.bookings ∧ s'.db.keys = s.db.keys) := by
  unfold writes at hi
  rw [h] at hi
  split at hi <;> try cases hi
  rename_i j t hcall heq
  cases heq
  split at hi
  · cases hi
  rename_i hchanged
  cases mem_singleton.mp hi
  exact ⟨hcall, hchanged⟩

theorem committed_of_mem_writes (h : step s l = some s') (hi : i ∈ writes s l) :
    ∃ c, s'.calls.get? i = some c ∧ c.pc.committed := by
  obtain ⟨hi, hchanged⟩ := of_mem_writes h hi
  cases stepped_of_step h with
  | held hcall =>
    cases hi
    refine ⟨_, Table.get?_set_self _ _ _, ?_⟩
    by_contra hpc
    refine hchanged (holdTx_early (fun row heq => ?_) fun heq => ?_)
    all_goals exact hpc (by rw [heq]; trivial)
  | placed hcall | lookedUp hcall | rechecked hcall => exact absurd ⟨rfl, rfl⟩ hchanged
  | confirmed | released => cases hi

theorem done_stays {req : HoldRequest} {result : Except HoldError Row} (h : step s l = some s')
    (hc : s.calls.get? i = some ⟨req, .done result⟩) :
    s'.calls.get? i = some ⟨req, .done result⟩ := by
  -- The call that steps is at another point, so it is another call.
  have hother : ∀ {j : Nat} {c : Option Call} (c' : Call), s.calls.get? j = c →
      c ≠ some ⟨req, .done result⟩ → (s.calls.set j c').get? i = some ⟨req, .done result⟩ := by
    intro j c c' hj hpc
    have hne : i ≠ j := by
      rintro rfl
      exact hpc (hj.symm.trans hc)
    rw [Table.get?_set, if_neg hne]
    exact hc
  cases stepped_of_step h with
  | placed hcall | lookedUp hcall | held hcall | rechecked hcall => exact hother _ hcall (by simp)
  | confirmed | released => exact hc

theorem Pc.committed.done {pc : Pc} (h : pc.committed) : ∃ result, pc = .done result := by
  cases pc with
  | done result => exact ⟨result, rfl⟩
  | lookup | tx stale | recheck => cases h

def WritersCommitted (p : State × List Nat) : Prop :=
  ∀ i ∈ p.2, ∃ c, p.1.calls.get? i = some c ∧ c.pc.committed

theorem writersCommitted_step {p q : State × List Nat} (hp : WritersCommitted p)
    (h : logged step writes p l = some q) : WritersCommitted q := by
  obtain ⟨hstep, hlog⟩ := logged_eq_some.mp h
  intro i hi
  rw [hlog] at hi
  rcases mem_append.mp hi with hold | hnew
  · obtain ⟨⟨req, pc⟩, hc, hcommitted⟩ := hp i hold
    obtain ⟨result, rfl⟩ := hcommitted.done
    exact ⟨_, done_stays hstep hc, hcommitted⟩
  · exact committed_of_mem_writes hstep hnew

theorem writersCommitted_run {as : List Label} {p : State × List Nat}
    (h : run (logged step writes) (s, []) as = some p) : WritersCommitted p := by
  refine run_invariant (fun _ _ _ => writersCommitted_step) (fun i hi => ?_) h
  cases hi

/-- A call of `placeHold` that ends in an error other than a failed commit has changed
neither `bookings` nor `idempotency_keys`: alone it leaves both as they were, and among
other calls none of its steps writes to them. -/
theorem failed_hold_keeps_tables :
    (∀ (db : Database) (req : HoldRequest) (a : Attempt) (e : HoldError),
      (placeHold req a db).2 = .error e → e ≠ .failed .commit →
      (placeHold req a db).1.bookings = db.bookings ∧ (placeHold req a db).1.keys = db.keys) ∧
    ∀ (s : State) (as : List Label) (p : State × List Nat),
      run (logged step writes) (s, []) as = some p →
      ∀ (i : Nat) (req : HoldRequest) (e : HoldError),
        p.1.calls.get? i = some ⟨req, .done (.error e)⟩ → e ≠ .failed .commit → i ∉ p.2 := by
  refine ⟨fun db req a e h he => placeHold_error h he, fun s as p h i req e hi he hwrote => ?_⟩
  obtain ⟨c, hc, hcommitted⟩ := writersCommitted_run h i hwrote
  rw [hi] at hc
  cases hc
  cases e with
  | keyReuse | seatUnavailable => exact hcommitted
  | failed stage =>
    cases stage with
    | commit => exact he rfl
    | _ => exact hcommitted

def demoAttempt : Attempt := ⟨50, true, 51, ⟨none, .received⟩, 52, true⟩

theorem failed_hold_keeps_tables_taken :
    (placeHold demoTakenRequest demoAttempt demoTaken).2 = .error .seatUnavailable ∧
      ⟨3, "m1", "NORTH-1", "alice", .held, some 100, none, none, 40⟩ ∈
        (placeHold demoTakenRequest demoAttempt demoTaken).1.bookings ∧
      (placeHold demoTakenRequest demoAttempt demoTaken).1.keys.get? "key-1" = some 1 := by
  have hresult : (placeHold demoTakenRequest demoAttempt demoTaken).2 =
      .error .seatUnavailable := by
    decide +kernel
  obtain ⟨hbookings, hkeys⟩ := failed_hold_keeps_tables.1 demoTaken demoTakenRequest demoAttempt
    .seatUnavailable hresult (by decide)
  refine ⟨hresult, ?_, ?_⟩
  · rw [hbookings]
    decide
  · rw [hkeys]
    decide

end GoServices.Booking
