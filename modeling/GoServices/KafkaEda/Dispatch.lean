/-
The dispatch service: `handleRideRequested`, `handleDriverLocation` and `reserveDriver`.

A request is recorded as pending and gets the nearest available driver at once, or a deferred
event when there is none.
-/
import GoServices.KafkaEda.Events

namespace GoServices.KafkaEda.Dispatch

open List Table

inductive Availability
  | available
  | busy
  deriving DecidableEq

/-- A row of `dispatch.driver_availability`, under the driver's id. -/
structure Driver where
  displayName : String
  phone : String
  vehicleLabel : String
  color : String
  latitude : ℚ
  longitude : ℚ
  availability : Availability
  updatedAt : Int

/-- A row of `dispatch.pending_rides`, under the ride's id. -/
structure PendingRide where
  riderName : String
  pickupLatitude : ℚ
  pickupLongitude : ℚ
  destination : String
  requestedAt : Int

/-- A row of `dispatch.assignments`, under its own id. -/
structure Assignment where
  rideID : String
  driverID : String
  driverName : String
  driverPhone : String
  vehicleLabel : String
  color : String
  pickupLatitude : ℚ
  pickupLongitude : ℚ

structure DispatchDb where
  drivers : Table String Driver
  pending : Table String PendingRide
  assignments : Table String Assignment
  outbox : List OutboxRow

structure TxEnv where
  now : Int
  lockedDrivers : List String
  lockedRides : List String
  /-- How rows that are equal for `ORDER BY` come. -/
  rank : String → Nat
  assignmentID : String
  eventID : String

/-! ## The handlers -/

def distance (latitude longitude : ℚ) (d : Driver) : ℚ :=
  (d.latitude - latitude) * (d.latitude - latitude) +
    (d.longitude - longitude) * (d.longitude - longitude)

def selectDriver (env : TxEnv) (db : DispatchDb) (latitude longitude : ℚ) :
    Option (String × Driver) :=
  (db.drivers.toList.filter fun row =>
      row.2.availability = .available && row.1 ∉ env.lockedDrivers).argmin fun row =>
    toLex (distance latitude longitude row.2, toLex ((row.2.updatedAt : ℚ), (env.rank row.1 : ℚ)))

def selectPending (env : TxEnv) (db : DispatchDb) : Option (String × PendingRide) :=
  (db.pending.toList.filter fun row => row.1 ∉ env.lockedRides).argmin fun row =>
    toLex ((row.2.requestedAt : ℚ), (env.rank row.1 : ℚ))

/-- The insert into `dispatch.assignments`, with its primary key and the unique ride. -/
def createAssignment (assignments : Table String Assignment) (id : String) (a : Assignment) :
    Except String (Table String Assignment) :=
  if (assignments.get? id).isSome || assignments.toList.any fun row => row.2.rideID = a.rideID then
    .error "create assignment: duplicate key value violates unique constraint"
  else .ok (assignments.set id a)

def Assignment.event (id : String) (a : Assignment) : RideAssigned :=
  ⟨a.rideID, id, a.driverID, a.driverName, a.driverPhone, a.vehicleLabel, a.color⟩

/-- `UPDATE … SET availability = 'BUSY' … AND availability = 'AVAILABLE'`, with the number of
rows. -/
def markBusy (env : TxEnv) (drivers : Table String Driver) (driverID : String) :
    Table String Driver × Nat :=
  match drivers.get? driverID with
  | some driver =>
    if driver.availability = .available then
      (drivers.set driverID { driver with availability := .busy, updatedAt := env.now }, 1)
    else (drivers, 0)
  | none => (drivers, 0)

def reserveDriver (env : TxEnv) (envelope : Envelope) (rideID : String) (latitude longitude : ℚ)
    (db : DispatchDb) : Except String (Bool × DispatchDb) :=
  match selectDriver env db latitude longitude with
  | none => .ok (false, db)
  | some (driverID, driver) =>
    let (drivers, affected) := markBusy env db.drivers driverID
    if affected ≠ 1 then .ok (false, db)
    else do
      let assignment : Assignment := {
        rideID := rideID
        driverID := driverID
        driverName := driver.displayName
        driverPhone := driver.phone
        vehicleLabel := driver.vehicleLabel
        color := driver.color
        pickupLatitude := latitude
        pickupLongitude := longitude }
      let assignments ← createAssignment db.assignments env.assignmentID assignment
      let assigned : NewEvent := {
        eventID := env.eventID
        eventType := "ride.assigned"
        producer := "dispatch-service"
        causationID := envelope.eventID
        data := .rideAssigned (assignment.event env.assignmentID) }
      let outbox ← outboxAdd db.outbox rideAssignedTopic rideID assigned
      .ok (true, ⟨drivers, db.pending.erase rideID, assignments, outbox⟩)

def handleRideRequested (decode : String → Except String RideRequested) (env : TxEnv) :
    Handler DispatchDb := fun db envelope =>
  match decode envelope.data with
  | .error e => .error ("decode ride requested: " ++ e)
  | .ok data =>
    match db.pending.get? data.rideID with
    | some _ => .ok db
    | none => do
      let pending := db.pending.set data.rideID
        ⟨data.riderName, data.pickupLatitude, data.pickupLongitude, data.destination, env.now⟩
      let (matched, db) ← reserveDriver env envelope data.rideID data.pickupLatitude
        data.pickupLongitude { db with pending := pending }
      if matched then .ok db
      else
        let deferred : NewEvent := {
          eventID := env.eventID
          eventType := "ride.dispatch.deferred"
          producer := "dispatch-service"
          causationID := envelope.eventID
          data := .rideDispatchDeferred ⟨data.rideID, "no driver currently available"⟩ }
        let outbox ← outboxAdd db.outbox rideDispatchDeferredTopic data.rideID deferred
        .ok { db with outbox := outbox }

def matchOldestPending (env : TxEnv) (envelope : Envelope) (db : DispatchDb) :
    Except String DispatchDb :=
  match selectPending env db with
  | none => .ok db
  | some (rideID, ride) =>
    (reserveDriver env envelope rideID ride.pickupLatitude ride.pickupLongitude db).map Prod.snd

def updateLocation (env : TxEnv) (data : DriverLocationUpdated) (drivers : Table String Driver) :
    Table String Driver :=
  match drivers.get? data.driverID with
  | none => drivers
  | some driver =>
    drivers.set data.driverID
      { driver with latitude := data.latitude, longitude := data.longitude, updatedAt := env.now }

def handleDriverLocation (decode : String → Except String DriverLocationUpdated) (env : TxEnv) :
    Handler DispatchDb := fun db envelope =>
  match decode envelope.data with
  | .error e => .error ("decode driver location: " ++ e)
  | .ok data =>
    matchOldestPending env envelope { db with drivers := updateLocation env data db.drivers }

/-! ## Deliveries -/

inductive Kind
  | requested
  | location

def Kind.consumerName : Kind → String
  | .requested => "dispatch-service.requested-v1"
  | .location => "dispatch-service.location-v1"

structure Codec where
  requested : String → Except String RideRequested
  location : String → Except String DriverLocationUpdated

structure Delivery where
  kind : Kind
  event : Envelope
  env : TxEnv
  fault : TxFault

variable (codec : Codec)

def Delivery.handler (d : Delivery) : Handler DispatchDb :=
  match d.kind with
  | .requested => handleRideRequested codec.requested d.env
  | .location => handleDriverLocation codec.location d.env

/-- The row of `platform.processed_events` that a delivery reads. -/
def Delivery.row (d : Delivery) : String × String := (d.kind.consumerName, d.event.eventID)

def step (db : Database DispatchDb) (d : Delivery) : Option (Database DispatchDb) :=
  some (process (d.handler codec) d.kind.consumerName db d.event d.fault).1

def Delivery.Requests (ride : String) (d : Delivery) : Prop :=
  d.kind = .requested ∧ ∃ data, codec.requested d.event.data = .ok data ∧ data.rideID = ride

/-! ## The tables -/

def assignedEvents (rows : List OutboxRow) : List RideAssigned :=
  rows.filterMap fun row =>
    match row.event.data with
    | .rideAssigned data => some data
    | _ => none

def Assigned (db : DispatchDb) (ride : String) : Prop :=
  ∃ id a, db.assignments.get? id = some a ∧ a.rideID = ride

def Placed (db : DispatchDb) (ride : String) : Prop :=
  (∃ p, db.pending.get? ride = some p) ∨ Assigned db ride

structure Consistent (db : DispatchDb) : Prop where
  one_per_ride : ∀ i j a b, db.assignments.get? i = some a → db.assignments.get? j = some b →
    a.rideID = b.rideID → i = j
  busy : ∀ id d, db.drivers.get? id = some d → d.availability = .busy →
    ∃! i, ∃ a, db.assignments.get? i = some a ∧ a.driverID = id
  available : ∀ id d, db.drivers.get? id = some d → d.availability = .available →
    ∀ i a, db.assignments.get? i = some a → a.driverID ≠ id
  not_pending : ∀ i a, db.assignments.get? i = some a → db.pending.get? a.rideID = none
  events_nodup : ((assignedEvents db.outbox).map RideAssigned.assignmentID).Nodup
  events : ∀ data, data ∈ assignedEvents db.outbox ↔
    ∃ a, db.assignments.get? data.assignmentID = some a ∧ data = a.event data.assignmentID

/-- `db'` is `db` with an available driver reserved for the ride. -/
inductive Reserved (ride : String) (db db' : DispatchDb) : Prop
  | intro {driverID id : String} {driver driver' : Driver} {a : Assignment} {row : OutboxRow}
    (hdriver : db.drivers.get? driverID = some driver)
    (havailable : driver.availability = .available) (hbusy : driver'.availability = .busy)
    (hdrivers : db'.drivers = db.drivers.set driverID driver')
    (hid : db.assignments.get? id = none) (hride : ¬Assigned db ride)
    (hassignmentRide : a.rideID = ride) (hassignmentDriver : a.driverID = driverID)
    (hassignments : db'.assignments = db.assignments.set id a)
    (hpending : db'.pending = db.pending.erase ride)
    (hrow : row.event.data = .rideAssigned (a.event id))
    (houtbox : db'.outbox = db.outbox ++ [row]) : Reserved ride db db'

theorem createAssignment_ok {assignments assignments' : Table String Assignment} {id : String}
    {a : Assignment} (h : createAssignment assignments id a = .ok assignments') :
    assignments.get? id = none ∧ (∀ i b, assignments.get? i = some b → b.rideID ≠ a.rideID) ∧
      assignments' = assignments.set id a := by
  unfold createAssignment at h
  split at h <;> cases h
  rename_i hnone
  rw [Bool.or_eq_true, not_or, any_eq_true] at hnone
  refine ⟨by simpa using hnone.1, fun i b hb hride => ?_, rfl⟩
  exact hnone.2 ⟨(i, b), mem_toList.mpr hb, by simpa using hride⟩

theorem markBusy_one {env : TxEnv} {drivers drivers' : Table String Driver} {driverID : String}
    (h : markBusy env drivers driverID = (drivers', 1)) :
    ∃ driver, drivers.get? driverID = some driver ∧ driver.availability = .available ∧
      drivers' = drivers.set driverID
        { driver with availability := .busy, updatedAt := env.now } := by
  unfold markBusy at h
  split at h <;> try cases h
  rename_i driver hdriver
  split at h <;> cases h
  rename_i havailable
  exact ⟨driver, hdriver, havailable, rfl⟩

variable {ride : String} {row : OutboxRow}

theorem reserveDriver_ok {env : TxEnv} {envelope : Envelope}
    {latitude longitude : ℚ} {db db' : DispatchDb} {matched : Bool}
    (h : reserveDriver env envelope ride latitude longitude db = .ok (matched, db')) :
    (matched = false ∧ db' = db) ∨ (matched = true ∧ Reserved ride db db') := by
  unfold reserveDriver at h
  split at h
  · cases h
    exact .inl ⟨rfl, rfl⟩
  split at h
  rename_i drivers affected hbusy
  split at h
  · cases h
    exact .inl ⟨rfl, rfl⟩
  rename_i haffected
  rw [not_not.mp haffected] at hbusy
  simp only [bind, Except.bind] at h
  split at h
  · cases h
  rename_i assignments hassignments
  split at h <;> cases h
  rename_i outbox houtbox
  obtain ⟨row, hrow, havailable, hdrivers⟩ := markBusy_one hbusy
  obtain ⟨hid, hride, rfl⟩ := createAssignment_ok hassignments
  have hunassigned : ¬Assigned db ride := by
    rintro ⟨i, b, hb, hbride⟩
    exact hride i b hb hbride
  exact .inr ⟨rfl, .intro hrow havailable rfl hdrivers hid hunassigned rfl rfl rfl rfl rfl
    (outboxAdd_ok houtbox)⟩

theorem assignedEvents_append (rows rows' : List OutboxRow) :
    assignedEvents (rows ++ rows') = assignedEvents rows ++ assignedEvents rows' :=
  filterMap_append

theorem assignedEvents_singleton {data : RideAssigned}
    (h : row.event.data = .rideAssigned data) : assignedEvents [row] = [data] := by
  simp [assignedEvents, h]

section Reserve

variable {ride : String} {db db' : DispatchDb}

section
variable (h : Consistent db) (hr : Reserved ride db db')
include h hr

theorem Reserved.drivers_spec {id : String} {d : Driver} (hd : db'.drivers.get? id = some d) :
    (d.availability = .busy → ∃! i, ∃ a, db'.assignments.get? i = some a ∧ a.driverID = id) ∧
      (d.availability = .available → ∀ i a, db'.assignments.get? i = some a → a.driverID ≠ id) := by
  obtain @⟨driverID, new, driver, driver', a, row, hdriver, havailable, hbusy, hdrivers, hid, -, -,
    hassigned, hassignments, -, -, -⟩ := hr
  rw [hdrivers] at hd
  rw [hassignments]
  obtain ⟨rfl, rfl⟩ | ⟨hne, hd⟩ := set_cases hd
  · -- The reserved driver had no assignment, so the new one is the only one.
    rw [hbusy]
    refine ⟨fun _ => ⟨new, ⟨a, get?_set_self _ _ _, hassigned⟩, ?_⟩, nofun⟩
    rintro j ⟨b, hb, hbdriver⟩
    obtain ⟨hj, -⟩ | ⟨-, hb⟩ := set_cases hb
    · exact hj
    · exact absurd hbdriver (h.available id driver hdriver havailable j b hb)
  constructor
  · intro hdbusy
    obtain ⟨i, ⟨b, hb, hbdriver⟩, hunique⟩ := h.busy id d hd hdbusy
    have hi : i ≠ new := by
      rintro rfl
      rw [hid] at hb
      cases hb
    refine ⟨i, ⟨b, by rw [get?_set, if_neg hi, hb], hbdriver⟩, ?_⟩
    rintro j ⟨c, hc, hcdriver⟩
    obtain ⟨-, rfl⟩ | ⟨-, hc⟩ := set_cases hc
    · exact absurd (hcdriver.symm.trans hassigned) hne
    · exact hunique j ⟨c, hc, hcdriver⟩
  · intro hdavailable i b hb
    obtain ⟨-, rfl⟩ | ⟨-, hb⟩ := set_cases hb
    · rw [hassigned]
      exact Ne.symm hne
    · exact h.available id d hd hdavailable i b hb

theorem Reserved.events_spec :
    ((assignedEvents db'.outbox).map RideAssigned.assignmentID).Nodup ∧
      ∀ data, data ∈ assignedEvents db'.outbox ↔
        ∃ a, db'.assignments.get? data.assignmentID = some a ∧
          data = a.event data.assignmentID := by
  obtain @⟨_, id, _, _, a, row, -, -, -, -, hid, -, -, -, hassignments, -, hrow, houtbox⟩ := hr
  have hevents : assignedEvents db'.outbox = assignedEvents db.outbox ++ [a.event id] := by
    rw [houtbox, assignedEvents_append, assignedEvents_singleton hrow]
  -- No event so far names the new assignment.
  have hnew : ∀ data ∈ assignedEvents db.outbox, data.assignmentID ≠ id := by
    rintro data hdata rfl
    obtain ⟨b, hb, -⟩ := (h.events data).mp hdata
    rw [hid] at hb
    cases hb
  rw [hevents, hassignments]
  constructor
  · rw [map_append, nodup_append]
    refine ⟨h.events_nodup, nodup_singleton _, ?_⟩
    intro i hi j hj
    obtain ⟨data, hdata, rfl⟩ := mem_map.mp hi
    rw [mem_singleton.mp hj]
    exact hnew data hdata
  intro data
  rw [mem_append, mem_singleton]
  constructor
  · rintro (hdata | rfl)
    · obtain ⟨b, hb, hevent⟩ := (h.events data).mp hdata
      exact ⟨b, by rw [get?_set, if_neg (hnew data hdata), hb], hevent⟩
    · exact ⟨a, get?_set_self _ _ _, rfl⟩
  rintro ⟨b, hb, hevent⟩
  obtain ⟨hid', rfl⟩ | ⟨-, hb⟩ := set_cases hb
  · right
    rw [hevent, hid']
  · exact .inl ((h.events data).mpr ⟨b, hb, hevent⟩)

theorem Consistent.reserve : Consistent db' := by
  refine ⟨?_, fun id d hd => (hr.drivers_spec h hd).1, fun id d hd => (hr.drivers_spec h hd).2, ?_,
    (hr.events_spec h).1, (hr.events_spec h).2⟩
  · obtain @⟨_, id, _, _, a, _, -, -, -, -, hid, hride, harideID, -, hassignments, -, -, -⟩ := hr
    rw [hassignments]
    intro i j b c hb hc hsame
    obtain ⟨hi, hab⟩ | ⟨-, hb⟩ := set_cases hb <;>
      obtain ⟨hj, hac⟩ | ⟨-, hc⟩ := set_cases hc
    · rw [hi, hj]
    · exact absurd ⟨j, c, hc, hsame.symm.trans (hab ▸ harideID)⟩ hride
    · exact absurd ⟨i, b, hb, hsame.trans (hac ▸ harideID)⟩ hride
    · exact h.one_per_ride i j b c hb hc hsame
  · obtain @⟨_, id, _, _, a, _, -, -, -, -, -, -, harideID, -, hassignments, hpending, -, -⟩ := hr
    rw [hassignments, hpending]
    intro i b hb
    rw [get?_erase]
    obtain ⟨-, rfl⟩ | ⟨-, hb⟩ := set_cases hb
    · rw [if_pos harideID]
    · rw [h.not_pending i b hb, ite_self]

end

theorem Reserved.placed_iff (hr : Reserved ride db db') (x : String) :
    Placed db' x ↔ Placed db x ∨ x = ride := by
  obtain @⟨_, id, _, _, a, _, -, -, -, -, hid, -, harideID, -, hassignments, hpending, -, -⟩ := hr
  unfold Placed Assigned
  rw [hassignments, hpending]
  constructor
  · rintro (⟨p, hp⟩ | ⟨i, b, hb, hbride⟩)
    · rw [get?_erase] at hp
      split at hp <;> try cases hp
      exact .inl (.inl ⟨p, hp⟩)
    · obtain ⟨-, rfl⟩ | ⟨-, hb⟩ := set_cases hb
      · exact .inr (hbride.symm.trans harideID)
      · exact .inl (.inr ⟨i, b, hb, hbride⟩)
  intro hx
  by_cases hride : x = ride
  · exact .inr ⟨id, a, get?_set_self _ _ _, harideID.trans hride.symm⟩
  obtain (⟨p, hp⟩ | ⟨i, b, hb, hbride⟩) := hx.resolve_right hride
  · exact .inl ⟨p, by rw [get?_erase, if_neg hride, hp]⟩
  have hi : i ≠ id := by
    rintro rfl
    rw [hid] at hb
    cases hb
  exact .inr ⟨i, b, by rw [get?_set, if_neg hi, hb], hbride⟩

end Reserve

/-! ## The handlers keep the tables consistent -/

variable {db : DispatchDb}

theorem Consistent.addPending (h : Consistent db) (hride : ¬Assigned db ride) (p : PendingRide) :
    Consistent { db with pending := db.pending.set ride p } := by
  refine ⟨h.one_per_ride, h.busy, h.available, fun i a ha => ?_, h.events_nodup, h.events⟩
  have hne : a.rideID ≠ ride := fun heq => hride ⟨i, a, ha, heq⟩
  exact (get?_set _ _ _ _).trans ((if_neg hne).trans (h.not_pending i a ha))

theorem placed_addPending (db : DispatchDb) (ride : String) (p : PendingRide) (x : String) :
    Placed { db with pending := db.pending.set ride p } x ↔ Placed db x ∨ x = ride := by
  unfold Placed Assigned
  by_cases hx : x = ride
  · simp [hx]
  · simp [get?_set, hx]

theorem Consistent.addOther (h : Consistent db) {data : RideDispatchDeferred}
    (hrow : row.event.data = .rideDispatchDeferred data) :
    Consistent { db with outbox := db.outbox ++ [row] } := by
  have hevents : assignedEvents (db.outbox ++ [row]) = assignedEvents db.outbox := by
    simp [assignedEvents, hrow]
  refine ⟨h.one_per_ride, h.busy, h.available, h.not_pending, ?_, fun data => ?_⟩
  · rw [hevents]
    exact h.events_nodup
  rw [hevents]
  exact h.events data

theorem Consistent.move (h : Consistent db) (env : TxEnv) (data : DriverLocationUpdated) :
    Consistent { db with drivers := updateLocation env data db.drivers } := by
  have hdrivers : ∀ id d, (updateLocation env data db.drivers).get? id = some d →
      ∃ old, db.drivers.get? id = some old ∧ old.availability = d.availability := by
    intro id d hd
    unfold updateLocation at hd
    split at hd
    · exact ⟨d, hd, rfl⟩
    rename_i driver hdriver
    obtain ⟨rfl, rfl⟩ | ⟨-, hd⟩ := set_cases hd
    · exact ⟨driver, hdriver, rfl⟩
    · exact ⟨d, hd, rfl⟩
  refine ⟨h.one_per_ride, fun id d hd hbusy => ?_, fun id d hd havailable => ?_, h.not_pending,
    h.events_nodup, h.events⟩
  · obtain ⟨old, hold, hsame⟩ := hdrivers id d hd
    exact h.busy id old hold (hsame.trans hbusy)
  · obtain ⟨old, hold, hsame⟩ := hdrivers id d hd
    exact h.available id old hold (hsame.trans havailable)

variable {env : TxEnv}

theorem selectPending_some {p : PendingRide}
    (h : selectPending env db = some (ride, p)) : db.pending.get? ride = some p := by
  have hmem := argmin_mem h
  exact mem_toList.mp (mem_of_mem_filter hmem)

variable {db' : DispatchDb} {envelope : Envelope}

theorem handleRideRequested_spec {decode : String → Except String RideRequested}
    {data : RideRequested} (hdata : decode envelope.data = .ok data) (hnew : ¬Placed db data.rideID)
    (hdb : Consistent db) (h : handleRideRequested decode env db envelope = .ok db') :
    Consistent db' ∧ ∀ x, Placed db' x ↔ Placed db x ∨ x = data.rideID := by
  unfold handleRideRequested at h
  rw [hdata] at h
  have hpending : db.pending.get? data.rideID = none := by
    rw [Option.eq_none_iff_forall_ne_some]
    exact fun p hp => hnew (.inl ⟨p, hp⟩)
  simp only [hpending, bind, Except.bind] at h
  split at h
  · cases h
  rename_i result hreserve
  obtain ⟨matched, after⟩ := result
  have hadded := hdb.addPending (fun hassigned => hnew (.inr hassigned))
    ⟨data.riderName, data.pickupLatitude, data.pickupLongitude, data.destination, env.now⟩
  obtain ⟨rfl, rfl⟩ | ⟨rfl, hreserved⟩ := reserveDriver_ok hreserve
  · simp only [Bool.false_eq_true, if_false] at h
    split at h <;> cases h
    rename_i outbox houtbox
    rw [outboxAdd_ok houtbox]
    exact ⟨hadded.addOther rfl, placed_addPending db data.rideID _⟩
  · cases h
    refine ⟨hadded.reserve hreserved, fun x => ?_⟩
    rw [hreserved.placed_iff, placed_addPending, or_assoc, or_self]

theorem matchOldestPending_spec (hdb : Consistent db)
    (h : matchOldestPending env envelope db = .ok db') :
    Consistent db' ∧ ∀ x, Placed db' x ↔ Placed db x := by
  unfold matchOldestPending at h
  split at h
  · cases h
    exact ⟨hdb, fun _ => Iff.rfl⟩
  rename_i ride p hselect
  cases hreserve : reserveDriver env envelope ride p.pickupLatitude p.pickupLongitude db with
  | error e =>
    rw [hreserve] at h
    cases h
  | ok result =>
    rw [hreserve] at h
    cases h
    obtain ⟨-, hsame⟩ | ⟨-, hreserved⟩ := reserveDriver_ok hreserve
    · rw [hsame]
      exact ⟨hdb, fun _ => Iff.rfl⟩
    refine ⟨hdb.reserve hreserved, fun x => ?_⟩
    rw [hreserved.placed_iff]
    refine or_iff_left_of_imp ?_
    rintro rfl
    exact .inl ⟨p, selectPending_some hselect⟩

theorem handleDriverLocation_spec {decode : String → Except String DriverLocationUpdated}
    (hdb : Consistent db) (h : handleDriverLocation decode env db envelope = .ok db') :
    Consistent db' ∧ ∀ x, Placed db' x ↔ Placed db x := by
  unfold handleDriverLocation at h
  split at h <;> try cases h
  obtain ⟨hconsistent, hplaced⟩ := matchOldestPending_spec (hdb.move env _) h
  exact ⟨hconsistent, hplaced⟩

/-! ## Runs -/

def OneRequest (ds : List Delivery) : Prop :=
  ∀ c ∈ ds, ∀ d ∈ ds, ∀ r r', c.Requests codec r → d.Requests codec r' →
    (c.event.eventID = d.event.eventID ↔ r = r')

/-- All drivers are available, nothing is assigned, and the rides of `ds` are not requested
yet. -/
structure Start (ds : List Delivery) (db : Database DispatchDb) : Prop where
  available : ∀ id d, db.state.drivers.get? id = some d → d.availability = .available
  assignments : ∀ id, db.state.assignments.get? id = none
  events : assignedEvents db.state.outbox = []
  requests : ∀ d ∈ ds, ∀ ride, d.Requests codec ride →
    db.processed.get? d.row = none ∧ db.state.pending.get? ride = none

structure Inv (ds : List Delivery) (db : Database DispatchDb) : Prop where
  consistent : Consistent db.state
  requests : ∀ d ∈ ds, ∀ ride, d.Requests codec ride →
    (db.processed.get? d.row = some () ↔ Placed db.state ride)

theorem Start.inv {ds : List Delivery} {db : Database DispatchDb} (h : Start codec ds db) :
    Inv codec ds db := by
  have hnone : ∀ {id a}, db.state.assignments.get? id ≠ some a := by
    intro id a ha
    rw [h.assignments id] at ha
    cases ha
  refine ⟨⟨?_, ?_, ?_, ?_, ?_, ?_⟩, fun d hd ride hride => ?_⟩
  · exact fun i j a b ha => absurd ha hnone
  · intro id d hd hbusy
    rw [h.available id d hd] at hbusy
    cases hbusy
  · exact fun id d hd havailable i a ha => absurd ha hnone
  · exact fun i a ha => absurd ha hnone
  · rw [h.events]
    exact nodup_nil
  · intro data
    rw [h.events]
    refine iff_of_false not_mem_nil ?_
    rintro ⟨a, ha, -⟩
    exact hnone ha
  obtain ⟨hrow, hpending⟩ := h.requests d hd ride hride
  rw [hrow]
  refine iff_of_false nofun ?_
  rintro (⟨p, hp⟩ | ⟨id, a, ha, -⟩)
  · rw [hpending] at hp
    cases hp
  · exact hnone ha

variable {codec} {ds : List Delivery} {db db' : Database DispatchDb} {d : Delivery}

theorem Inv.request (hone : OneRequest codec ds) (hd : d ∈ ds) (h : Inv codec ds db)
    (hride : d.Requests codec ride) (hrow : db.processed.get? d.row = none)
    (hprocessed : db'.processed = db.processed.set d.row ())
    (hhandler : d.handler codec db.state d.event = .ok db'.state) : Inv codec ds db' := by
  have hnew : ¬Placed db.state ride := by
    rw [← h.requests d hd ride hride, hrow]
    exact nofun
  obtain ⟨hkind, data, hdata, rfl⟩ := id hride
  have hhandled : handleRideRequested codec.requested d.env db.state d.event = .ok db'.state := by
    rw [← hhandler, Delivery.handler, hkind]
  obtain ⟨hconsistent, hplaced⟩ := handleRideRequested_spec hdata hnew h.consistent hhandled
  refine ⟨hconsistent, fun c hc r hr => ?_⟩
  have hsame := hone c hc d hd r data.rideID hr hride
  have hrows : c.row = d.row ↔ r = data.rideID := by
    rw [← hsame, Delivery.row, Delivery.row, hr.1, hkind, Prod.mk.injEq]
    exact ⟨fun h => h.2, fun h => ⟨rfl, h⟩⟩
  rw [hplaced, hprocessed, get?_set, ← h.requests c hc r hr]
  by_cases heq : c.row = d.row
  · rw [if_pos heq]
    exact iff_of_true rfl (.inr (hrows.mp heq))
  · rw [if_neg heq]
    exact (or_iff_left fun hr => heq (hrows.mpr hr)).symm

theorem Inv.location (h : Inv codec ds db) (hkind : d.kind = .location)
    (hprocessed : db'.processed = db.processed.set d.row ())
    (hhandler : d.handler codec db.state d.event = .ok db'.state) : Inv codec ds db' := by
  have hhandled : handleDriverLocation codec.location d.env db.state d.event = .ok db'.state := by
    rw [← hhandler, Delivery.handler, hkind]
  obtain ⟨hconsistent, hplaced⟩ := handleDriverLocation_spec h.consistent hhandled
  refine ⟨hconsistent, fun c hc r hr => ?_⟩
  have hrows : c.row ≠ d.row := by
    rw [Delivery.row, Delivery.row, hr.1, hkind]
    exact fun heq => absurd (Prod.mk.inj heq).1 (by decide)
  rw [hplaced, hprocessed, get?_set, if_neg hrows]
  exact h.requests c hc r hr

theorem step_inv (hone : OneRequest codec ds) (h : Inv codec ds db) (hd : d ∈ ds)
    (hstep : step codec db d = some db') : Inv codec ds db' := by
  cases hstep
  obtain ⟨hsame, -⟩ | ⟨-, hrow, state, hstate, hdb⟩ :=
    process_cases (d.handler codec) d.kind.consumerName db d.event d.fault
  · rw [hsame]
    exact h
  rw [hdb]
  cases hkind : d.kind with
  | requested =>
    cases hdata : codec.requested d.event.data with
    | error e =>
      rw [Delivery.handler, hkind] at hstate
      simp [handleRideRequested, hdata] at hstate
    | ok data =>
      rw [← hkind]
      exact h.request hone hd ⟨hkind, data, hdata, rfl⟩ hrow rfl hstate
  | location =>
    rw [← hkind]
    exact h.location hkind rfl hstate

/-- Whatever order the events come in and however often, the tables stay consistent and
every ride whose request was handled is in one of them. -/
theorem tables_consistent {db₀ : Database DispatchDb} (hstart : Start codec ds db₀)
    (hone : OneRequest codec ds) (hrun : run (step codec) db₀ ds = some db) :
    (∀ i j a b, db.state.assignments.get? i = some a → db.state.assignments.get? j = some b →
      a.rideID = b.rideID → i = j) ∧
    (∀ id d, db.state.drivers.get? id = some d →
      (d.availability = .busy → ∃! i, ∃ a, db.state.assignments.get? i = some a ∧ a.driverID = id) ∧
      (d.availability = .available →
        ∀ i a, db.state.assignments.get? i = some a → a.driverID ≠ id)) ∧
    (∀ i a, db.state.assignments.get? i = some a → db.state.pending.get? a.rideID = none) ∧
    (∀ c ∈ ds, ∀ ride, c.Requests codec ride → db.processed.get? c.row = some () →
      Placed db.state ride) ∧
    ((assignedEvents db.state.outbox).map RideAssigned.assignmentID).Nodup ∧
    ∀ data, data ∈ assignedEvents db.state.outbox ↔
      ∃ a, db.state.assignments.get? data.assignmentID = some a ∧
        data = a.event data.assignmentID := by
  have hinv : Inv codec ds db :=
    run_invariant_of_meets (fun _ _ _ h hd hstep => step_inv hone h hd hstep) hstart.inv
      (runMeets_of_forall (fun _ hd _ => hd) db₀) hrun
  have h := hinv.consistent
  exact ⟨h.one_per_ride, fun id d hd => ⟨h.busy id d hd, h.available id d hd⟩, h.not_pending,
    fun c hc ride hride hrow => (hinv.requests c hc ride hride).mp hrow, h.events_nodup, h.events⟩

def sampleCodec : Codec where
  requested data := .ok ⟨data, "Ravi", 13, 77, "airport"⟩
  location data := .ok ⟨data, 13, 77⟩

def sampleDb : Database DispatchDb where
  processed := .empty
  state := {
    drivers := Table.empty.set "driver" ⟨"Asha", "98450", "Swift", "white", 12, 77, .available, 0⟩
    pending := .empty
    assignments := .empty
    outbox := [] }

def sampleDelivery (kind : Kind) (id newID : String) : Delivery where
  kind := kind
  event := ⟨id, "event", 1, id⟩
  env := ⟨1, [], [], fun _ => 0, newID, newID⟩
  fault := .none

def sampleDeliveries : List Delivery :=
  [sampleDelivery .requested "ride-1" "n1", sampleDelivery .requested "ride-2" "n2",
    sampleDelivery .requested "ride-1" "n3", sampleDelivery .location "driver" "n4"]

theorem tables_consistent_two_requests :
    ∃ db, run (step sampleCodec) sampleDb sampleDeliveries = some db ∧
      (db.state.pending.get? "ride-2").isSome = true ∧ Placed db.state "ride-1" := by
  refine exists_some_imp (A := fun db => (db.state.pending.get? "ride-2").isSome = true ∧
    db.processed.get? (Kind.requested.consumerName, "ride-1") = some ())
    (by decide +kernel) fun db hrun ⟨hpending, hrow⟩ => ?_
  have hids : ∀ c ∈ sampleDeliveries, c.event.eventID = c.event.data := by decide +kernel
  have hstart : Start sampleCodec sampleDeliveries sampleDb := by
    refine ⟨fun id d hd => ?_, fun _ => rfl, rfl, fun _ _ _ _ => ⟨rfl, rfl⟩⟩
    obtain ⟨-, rfl⟩ | ⟨-, hd⟩ := set_cases hd
    · rfl
    · cases hd
  have hone : OneRequest sampleCodec sampleDeliveries := by
    rintro c hc d hd r r' ⟨-, data, ⟨⟩, rfl⟩ ⟨-, data', ⟨⟩, rfl⟩
    rw [hids c hc, hids d hd]
  obtain ⟨-, -, -, hplaced, -⟩ := tables_consistent hstart hone hrun
  refine ⟨hpending, ?_⟩
  exact hplaced _ mem_cons_self "ride-1" ⟨rfl, _, rfl, rfl⟩ hrow

end GoServices.KafkaEda.Dispatch
