/-
The projector of the ride service: `applyAssigned` and `applyDeferred`.

Two consumers bring the events of the dispatch service into the table of rides, in any order and
more than once.
-/
import GoServices.KafkaEda.Events

namespace GoServices.KafkaEda.Projector

open List RideStatusChanged

structure RideDriver where
  driverID : String
  driverName : String
  driverPhone : String
  vehicleLabel : String
  color : String

/-- `ride.rides` with the status of each ride, `ride.ride_drivers` and the outbox. -/
structure RideDb where
  rides : Table String RideStatus
  rideDrivers : Table String RideDriver
  outbox : List OutboxRow

/-- `UPDATE ride.rides SET status … WHERE id = … AND …`, with the number of rows. -/
def RideDb.updateStatus (db : RideDb) (rideID : String) (guard : RideStatus → Bool)
    (status : RideStatus) : RideDb × Nat :=
  match db.rides.get? rideID with
  | none => (db, 0)
  | some old =>
    if guard old then ({ db with rides := db.rides.set rideID status }, 1) else (db, 0)

def RideDb.addStatusChanged (db : RideDb) (newID : String) (envelope : Envelope)
    (data : RideStatusChanged) : Except String RideDb :=
  let event : NewEvent := {
    eventID := newID
    eventType := "ride.status.changed"
    producer := "ride-projection"
    causationID := envelope.eventID
    data := .rideStatusChanged data }
  (outboxAdd db.outbox rideStatusChangedTopic data.rideID event).map fun rows =>
    { db with outbox := rows }

/-- `applyAssigned`; `newID` is the id of the event that it may emit. -/
def applyAssigned (decode : String → Except String RideAssigned) (newID : String) :
    Handler RideDb := fun db envelope =>
  match decode envelope.data with
  | .error e => .error ("decode ride assigned: " ++ e)
  | .ok data =>
    match db.updateStatus data.rideID (fun old => old ≠ .assigned) .assigned with
    | (db, 0) => .ok db
    | (db, _) =>
      let driver : RideDriver :=
        ⟨data.driverID, data.driverName, data.driverPhone, data.vehicleLabel, data.color⟩
      { db with rideDrivers := db.rideDrivers.set data.rideID driver }.addStatusChanged newID
        envelope ⟨data.rideID, .requested, .assigned, data.driverID⟩

def applyDeferred (decode : String → Except String RideDispatchDeferred) (newID : String) :
    Handler RideDb := fun db envelope =>
  match decode envelope.data with
  | .error e => .error ("decode dispatch deferred: " ++ e)
  | .ok data =>
    match db.updateStatus data.rideID (fun old => old = .requested) .searching with
    | (db, 0) => .ok db
    | (db, _) =>
      db.addStatusChanged newID envelope ⟨data.rideID, .requested, .searching, ""⟩

/-! ## Deliveries -/

inductive Kind
  | assigned
  | deferred
  deriving DecidableEq

def Kind.consumerName : Kind → String
  | .assigned => "ride-projection.assigned-v1"
  | .deferred => "ride-projection.deferred-v1"

def Kind.guard : Kind → RideStatus → Bool
  | .assigned, old => old ≠ .assigned
  | .deferred, old => old = .requested

def Kind.status : Kind → RideStatus
  | .assigned => .assigned
  | .deferred => .searching

/-- What `json.Unmarshal` makes of the data of an event. -/
structure Codec where
  assigned : String → Except String RideAssigned
  deferred : String → Except String RideDispatchDeferred

structure Delivery where
  kind : Kind
  event : Envelope
  newID : String
  fault : TxFault

variable (codec : Codec)

def Delivery.handler (d : Delivery) : Handler RideDb :=
  match d.kind with
  | .assigned => applyAssigned codec.assigned d.newID
  | .deferred => applyDeferred codec.deferred d.newID

def Delivery.rideID (d : Delivery) : Except String String :=
  match d.kind with
  | .assigned => (codec.assigned d.event.data).map RideAssigned.rideID
  | .deferred => (codec.deferred d.event.data).map RideDispatchDeferred.rideID

def deliver (db : Database RideDb) (d : Delivery) :
    Database RideDb × Bool × Except ProcessError Unit :=
  process (d.handler codec) d.kind.consumerName db d.event d.fault

def step (db : Database RideDb) (d : Delivery) : Option (Database RideDb) :=
  if db.state.outbox.any fun row => row.event.eventID = d.newID then none
  else some (deliver codec db d).1

def statusEvents (ride : String) (rows : List OutboxRow) : List RideStatusChanged :=
  rows.filterMap fun row =>
    match row.event.data with
    | .rideStatusChanged data => if data.rideID = ride then some data else none
    | _ => none

def seen (ride : String) (ds : List Delivery) : List Kind :=
  (ds.filter fun d => d.fault.commits && decide (d.rideID codec = .ok ride)).map Delivery.kind

def change (ride : String) (db : Database RideDb) (d : Delivery) : List RideStatus :=
  let status := (deliver codec db d).1.state.rides.get? ride
  if status = db.state.rides.get? ride then [] else status.toList

/-! ## One delivery -/

inductive Applied (kind : Kind) (ride : String) (db : RideDb) : RideDb → Prop
  | unchanged (hguard : ∀ old, db.rides.get? ride = some old → kind.guard old = false) :
    Applied kind ride db db
  | changed {db' : RideDb} {old : RideStatus} {row : OutboxRow} {driver : String}
    (hold : db.rides.get? ride = some old) (hguard : kind.guard old = true)
    (hrides : db'.rides = db.rides.set ride kind.status)
    (hrow : row.event.data = .rideStatusChanged ⟨ride, .requested, kind.status, driver⟩)
    (houtbox : db'.outbox = db.outbox ++ [row]) : Applied kind ride db db'

theorem updateStatus_cases (db : RideDb) (ride : String) (guard : RideStatus → Bool)
    (status : RideStatus) :
    (db.updateStatus ride guard status = (db, 0) ∧
        ∀ old, db.rides.get? ride = some old → guard old = false) ∨
      ∃ old, db.rides.get? ride = some old ∧ guard old = true ∧ db.updateStatus ride guard status =
          ({ db with rides := db.rides.set ride status }, 1) := by
  unfold RideDb.updateStatus
  cases hold : db.rides.get? ride with
  | none => exact .inl ⟨rfl, nofun⟩
  | some old =>
    cases hguard : guard old with
    | false =>
      refine .inl ⟨by simp [hguard], ?_⟩
      rintro _ ⟨⟩
      exact hguard
    | true => exact .inr ⟨old, rfl, hguard, by simp [hguard]⟩

variable {newID : String}

theorem addStatusChanged_ok {rows : List OutboxRow}
    (hnew : (rows.any fun row => row.event.eventID = newID) = false)
    (rides : Table String RideStatus) (rideDrivers : Table String RideDriver) (envelope : Envelope)
    (data : RideStatusChanged) :
    ∃ row, row.event.data = .rideStatusChanged data ∧
      RideDb.addStatusChanged ⟨rides, rideDrivers, rows⟩ newID envelope data =
        .ok ⟨rides, rideDrivers, rows ++ [row]⟩ := by
  refine ⟨⟨rideStatusChangedTopic, data.rideID, ⟨newID, "ride.status.changed",
    "ride-projection", envelope.eventID, .rideStatusChanged data⟩⟩, rfl, ?_⟩
  simp [RideDb.addStatusChanged, outboxAdd, hnew, Except.map]

variable {db : RideDb}

theorem update_ok (kind : Kind) (ride driver : String)
    (drivers : RideDb → Table String RideDriver) (envelope : Envelope)
    (hnew : (db.outbox.any fun row => row.event.eventID = newID) = false) :
    ∃ db', (match db.updateStatus ride kind.guard kind.status with
      | (db, 0) => Except.ok db
      | (db, _) => RideDb.addStatusChanged { db with rideDrivers := drivers db } newID envelope
          ⟨ride, .requested, kind.status, driver⟩) = .ok db' ∧ Applied kind ride db db' := by
  obtain ⟨hupdate, hguard⟩ | ⟨old, hold, hguard, hupdate⟩ :=
    updateStatus_cases db ride kind.guard kind.status
  · simp only [hupdate]
    exact ⟨db, rfl, .unchanged hguard⟩
  simp only [hupdate]
  obtain ⟨row, hrow, hadd⟩ := addStatusChanged_ok hnew _ _ envelope _
  exact ⟨_, hadd, .changed hold hguard rfl hrow rfl⟩

theorem handler_spec (d : Delivery)
    (hnew : (db.outbox.any fun row => row.event.eventID = d.newID) = false) :
    ((∃ e, d.rideID codec = .error e) ∧ ∃ cause, d.handler codec db d.event = .error cause) ∨
      ∃ ride db', d.rideID codec = .ok ride ∧ d.handler codec db d.event = .ok db' ∧
        Applied d.kind ride db db' := by
  unfold Delivery.rideID Delivery.handler
  cases d.kind with
  | assigned =>
    cases hdata : codec.assigned d.event.data with
    | error e =>
      exact .inl ⟨⟨e, rfl⟩, "decode ride assigned: " ++ e, by simp [applyAssigned, hdata]⟩
    | ok data =>
      obtain ⟨db', hok, happlied⟩ := update_ok .assigned data.rideID data.driverID
        (fun db => db.rideDrivers.set data.rideID
          ⟨data.driverID, data.driverName, data.driverPhone, data.vehicleLabel, data.color⟩)
        d.event hnew
      exact .inr ⟨data.rideID, db', rfl, by simp only [applyAssigned, hdata]; exact hok, happlied⟩
  | deferred =>
    cases hdata : codec.deferred d.event.data with
    | error e =>
      exact .inl ⟨⟨e, rfl⟩, "decode dispatch deferred: " ++ e, by simp [applyDeferred, hdata]⟩
    | ok data =>
      obtain ⟨db', hok, happlied⟩ :=
        update_ok .deferred data.rideID "" RideDb.rideDrivers d.event hnew
      exact .inr ⟨data.rideID, db', rfl, by simp only [applyDeferred, hdata]; exact hok, happlied⟩

variable {d : Delivery}

theorem step_cases {db db' : Database RideDb} (h : step codec db d = some db') :
    (db' = db ∧ ∀ ride, d.fault.commits = true → d.rideID codec = .ok ride →
        db.processed.get? (d.kind.consumerName, d.event.eventID) = some ()) ∨
      ∃ ride, d.fault.commits = true ∧ d.rideID codec = .ok ride ∧
        db.processed.get? (d.kind.consumerName, d.event.eventID) = none ∧
        db'.processed = db.processed.set (d.kind.consumerName, d.event.eventID) () ∧
        Applied d.kind ride db.state db'.state := by
  unfold step at h
  split at h <;> cases h
  rename_i hnew
  obtain ⟨hsame, hwhy⟩ | ⟨hfault, hrow, state, hstate, hdb⟩ :=
    process_cases (d.handler codec) d.kind.consumerName db d.event d.fault
  · refine .inl ⟨hsame, fun ride hfault hride => ?_⟩
    obtain hrow | ⟨cause, hcause⟩ := hwhy hfault
    · exact hrow
    obtain ⟨⟨e, he⟩, -⟩ | ⟨_, _, _, hok, _⟩ := handler_spec codec d (by simpa using hnew)
    · rw [hride] at he
      cases he
    · rw [hcause] at hok
      cases hok
  obtain ⟨-, cause, hcause⟩ | ⟨ride, state', hride, hok, happlied⟩ :=
    handler_spec codec d (by simpa using hnew)
  · rw [hstate] at hcause
    cases hcause
  rw [hstate] at hok
  cases hok
  refine .inr ⟨ride, hfault, hride, hrow, ?_, ?_⟩
  · exact congrArg Database.processed hdb
  · exact (congrArg Database.state hdb).symm ▸ happlied

/-! ## What the deliveries of a run make of one ride -/

inductive Projected (ride : String) : List Kind → Option RideStatus → List RideStatusChanged → Prop
  | requested : Projected ride [] (some .requested) []
  | searching {ks driver : _} (hfirst : ks.head? = some .deferred) (hnone : .assigned ∉ ks) :
    Projected ride ks (some .searching) [⟨ride, .requested, .searching, driver⟩]
  | assigned {ks driver : _} (hfirst : ks.head? = some .assigned) :
    Projected ride ks (some .assigned) [⟨ride, .requested, .assigned, driver⟩]
  | searched {ks driver driver' : _} (hfirst : ks.head? = some .deferred) (hmem : .assigned ∈ ks) :
    Projected ride ks (some .assigned)
      [⟨ride, .requested, .searching, driver⟩, ⟨ride, .requested, .assigned, driver'⟩]

section Projected

variable {ride : String} {ks : List Kind} {k : Kind} {status : Option RideStatus}
  {es : List RideStatusChanged}

section
variable (h : Projected ride ks status es)
include h

theorem Projected.status_spec :
    (status = some .assigned ↔ .assigned ∈ ks) ∧
      (status = some .searching ↔ .assigned ∉ ks ∧ .deferred ∈ ks) ∧
      (status = some .requested ↔ ks = []) := by
  cases h with
  | requested => simp
  | searching hfirst hnone =>
    have hmem := mem_of_mem_head? hfirst
    simp [hnone, hmem, ne_nil_of_mem hmem]
  | assigned hfirst =>
    have hmem := mem_of_mem_head? hfirst
    simp [hmem, ne_nil_of_mem hmem]
  | searched hfirst hmem => simp [hmem, ne_nil_of_mem hmem]

theorem Projected.guard_of_mem (hk : k ∈ ks) {old : RideStatus} (hold : status = some old) :
    k.guard old = false := by
  obtain ⟨hassigned, -, hrequested⟩ := h.status_spec
  cases k with
  | assigned =>
    have hstatus := hassigned.mpr hk
    rw [hold] at hstatus
    cases hstatus
    rfl
  | deferred =>
    cases old with
    | requested => exact absurd (hrequested.mp hold) (ne_nil_of_mem hk)
    | searching | assigned => rfl

theorem Projected.unchanged (hguard : ∀ old, status = some old → k.guard old = false) :
    Projected ride (ks ++ [k]) status es := by
  cases h with
  | requested => cases k <;> cases hguard _ rfl
  | searching hfirst hnone =>
    cases k with
    | assigned => cases hguard _ rfl
    | deferred => exact .searching (by simp [head?_append, hfirst]) (by simp [hnone])
  | assigned hfirst => exact .assigned (by simp [head?_append, hfirst])
  | searched hfirst hmem =>
    exact .searched (by simp [head?_append, hfirst]) (mem_append_left _ hmem)

theorem Projected.changed {old : RideStatus} (hold : status = some old)
    (hguard : k.guard old = true) (driver : String) :
    Projected ride (ks ++ [k]) (some k.status)
      (es ++ [⟨ride, .requested, k.status, driver⟩]) := by
  cases h with
  | requested =>
    cases k with
    | assigned => exact .assigned rfl
    | deferred => exact .searching rfl (by simp)
  | searching hfirst hnone =>
    cases hold
    cases k with
    | assigned => exact .searched (by simp [head?_append, hfirst]) (by simp)
    | deferred => cases hguard
  | assigned | searched =>
    cases hold
    cases k <;> cases hguard

end

end Projected

section
variable (ride : String) (ds : List Delivery) (db₀ : Database RideDb)
  (s : Database RideDb × List RideStatus) (past : List Delivery)

def Recorded : Prop :=
  ∃ rows, s.1.state.outbox = db₀.state.outbox ++ rows ∧
    Projected ride (seen codec ride past) (s.1.state.rides.get? ride) (statusEvents ride rows) ∧
    (statusEvents ride rows).map current = s.2

/-- The invariant of a run from `db₀`: `past` are the deliveries so far and `s.2` the new
statuses at the steps that changed the ride. -/
structure Follows : Prop where
  rows : ∀ d ∈ ds, d.rideID codec = .ok ride →
    s.1.processed.get? (d.kind.consumerName, d.event.eventID) = some () →
    d.kind ∈ seen codec ride past
  events : Recorded codec ride db₀ s past

end

theorem seen_append (ride : String) (past : List Delivery) (d : Delivery) :
    seen codec ride (past ++ [d]) = seen codec ride past ++
      if d.fault.commits = true ∧ d.rideID codec = .ok ride then [d.kind] else [] := by
  unfold seen
  by_cases hfault : d.fault.commits = true <;> by_cases hride : d.rideID codec = .ok ride <;>
    simp [hfault, hride]

theorem statusEvents_append (ride : String) (rows rows' : List OutboxRow) :
    statusEvents ride (rows ++ rows') = statusEvents ride rows ++ statusEvents ride rows' :=
  filterMap_append

theorem statusEvents_singleton {row : OutboxRow} {data : RideStatusChanged}
    (h : row.event.data = .rideStatusChanged data) (ride : String) :
    statusEvents ride [row] = if data.rideID = ride then [data] else [] := by
  unfold statusEvents
  by_cases hride : data.rideID = ride <;> simp [h, hride]

theorem consumerName_injective {k k' : Kind} (h : k.consumerName = k'.consumerName) : k = k' := by
  revert h
  cases k <;> cases k' <;> simp [Kind.consumerName]

theorem Applied.frame {kind : Kind} {r ride : String} {db db' : RideDb} (h : Applied kind r db db')
    (hne : r ≠ ride) :
    db'.rides.get? ride = db.rides.get? ride ∧
      ∃ rows, db'.outbox = db.outbox ++ rows ∧ statusEvents ride rows = [] := by
  cases h with
  | unchanged => exact ⟨rfl, [], (append_nil _).symm, rfl⟩
  | @changed _ _ row _ _ _ hrides hrow houtbox =>
    rw [hrides, Table.get?_set, if_neg (Ne.symm hne)]
    exact ⟨rfl, [row], houtbox, by rw [statusEvents_singleton hrow, if_neg hne]⟩

theorem change_eq {db db' : Database RideDb} (h : step codec db d = some db') (ride : String) :
    change codec ride db d = if db'.state.rides.get? ride = db.state.rides.get? ride then []
      else (db'.state.rides.get? ride).toList := by
  unfold step at h
  split at h <;> cases h
  rfl

def IdsAgree (ds : List Delivery) : Prop :=
  ∀ d ∈ ds, ∀ d' ∈ ds, d.kind = d'.kind → d.event.eventID = d'.event.eventID →
    d.rideID codec = d'.rideID codec

section Step

variable {codec} {ride : String} {ds : List Delivery} {db₀ : Database RideDb}
  {s s' : Database RideDb × List RideStatus} {past : List Delivery} {d : Delivery}

theorem mem_seen_append {k : Kind} (h : k ∈ seen codec ride past) (d : Delivery) :
    k ∈ seen codec ride (past ++ [d]) := by
  rw [seen_append]
  exact mem_append_left _ h

theorem Follows.rows_step (hids : IdsAgree codec ds) (hd : d ∈ ds)
    (h : Follows codec ride ds db₀ s past) {db' : Database RideDb}
    (hstep : step codec s.1 d = some db') :
    ∀ c ∈ ds, c.rideID codec = .ok ride →
      db'.processed.get? (c.kind.consumerName, c.event.eventID) = some () →
      c.kind ∈ seen codec ride (past ++ [d]) := by
  intro c hc hride hrow
  obtain ⟨rfl, -⟩ | ⟨r, hfault, hr, -, hprocessed, -⟩ := step_cases codec hstep
  · exact mem_seen_append (h.rows c hc hride hrow) d
  rw [hprocessed] at hrow
  obtain ⟨hkey, -⟩ | ⟨-, hrow⟩ := Table.set_cases hrow
  · -- The row is the new one, so the delivery is of this ride.
    obtain ⟨hname, hid⟩ := Prod.mk.inj hkey
    have hkind := consumerName_injective hname
    have hdride : d.rideID codec = .ok ride := by
      rw [← hids c hc d hd hkind hid, hride]
    rw [seen_append, if_pos ⟨hfault, hdride⟩, hkind]
    exact mem_concat_self
  · exact mem_seen_append (h.rows c hc hride hrow) d

section
variable (h : Follows codec ride ds db₀ s past)
    (hstep : logged (step codec) (change codec ride) s d = some s')
include h hstep

theorem Follows.events_quiet (hstatus : s'.1.state.rides.get? ride = s.1.state.rides.get? ride)
    (houtbox : ∃ rows, s'.1.state.outbox = s.1.state.outbox ++ rows ∧ statusEvents ride rows = [])
    (hproj : ∀ es, Projected ride (seen codec ride past) (s.1.state.rides.get? ride) es →
      Projected ride (seen codec ride (past ++ [d])) (s.1.state.rides.get? ride) es) :
    Recorded codec ride db₀ s' (past ++ [d]) := by
  obtain ⟨hnext, hchanges⟩ := logged_eq_some.mp hstep
  obtain ⟨rows, hout, hprojected, hmap⟩ := h.events
  obtain ⟨new, hnew, hnone⟩ := houtbox
  have hes : statusEvents ride (rows ++ new) = statusEvents ride rows := by
    rw [statusEvents_append, hnone, append_nil]
  refine ⟨rows ++ new, ?_, ?_, ?_⟩
  · rw [hnew, hout, append_assoc]
  · rw [hes, hstatus]
    exact hproj _ hprojected
  · rw [hes, hmap, hchanges, change_eq codec hnext, if_pos hstatus, append_nil]

theorem Follows.events_changed {old : RideStatus} {row : OutboxRow} {driver : String}
    (hold : s.1.state.rides.get? ride = some old) (hguard : d.kind.guard old = true)
    (hrides : s'.1.state.rides = s.1.state.rides.set ride d.kind.status)
    (hrow : row.event.data = .rideStatusChanged ⟨ride, .requested, d.kind.status, driver⟩)
    (houtbox : s'.1.state.outbox = s.1.state.outbox ++ [row])
    (hseen : seen codec ride (past ++ [d]) = seen codec ride past ++ [d.kind]) :
    Recorded codec ride db₀ s' (past ++ [d]) := by
  obtain ⟨hnext, hchanges⟩ := logged_eq_some.mp hstep
  obtain ⟨rows, hout, hprojected, hmap⟩ := h.events
  have hstatus : s'.1.state.rides.get? ride = some d.kind.status := by
    rw [hrides, Table.get?_set_self]
  have hne : some d.kind.status ≠ some old := by
    rintro ⟨⟩
    cases hkind : d.kind <;> rw [hkind] at hguard <;> cases hguard
  refine ⟨rows ++ [row], ?_, ?_, ?_⟩
  · rw [houtbox, hout, append_assoc]
  · rw [statusEvents_append, statusEvents_singleton hrow, if_pos rfl, hstatus, hseen]
    exact hprojected.changed hold hguard driver
  rw [statusEvents_append, statusEvents_singleton hrow, if_pos rfl, map_append, hmap,
    hchanges, change_eq codec hnext, hstatus, hold, if_neg hne]
  rfl

end

theorem follows_step (hids : IdsAgree codec ds) (h : Follows codec ride ds db₀ s past) (hd : d ∈ ds)
    (hstep : logged (step codec) (change codec ride) s d = some s') :
    Follows codec ride ds db₀ s' (past ++ [d]) := by
  have hnext := (logged_eq_some.mp hstep).1
  refine ⟨h.rows_step hids hd hnext, ?_⟩
  obtain ⟨hsame, hwhy⟩ | ⟨r, hfault, hr, -, -, happlied⟩ := step_cases codec hnext
  · refine h.events_quiet hstep (by rw [hsame]) ⟨[], by rw [hsame, append_nil], rfl⟩ ?_
    intro es hes
    rw [seen_append]
    split
    · rename_i hseen
      have hmem := h.rows d hd hseen.2 (hwhy ride hseen.1 hseen.2)
      exact hes.unchanged fun old hold => hes.guard_of_mem hmem hold
    · rw [append_nil]
      exact hes
  by_cases hride : r = ride
  · subst hride
    have hseen : seen codec r (past ++ [d]) = seen codec r past ++ [d.kind] := by
      rw [seen_append, if_pos ⟨hfault, hr⟩]
    generalize hstate : s'.1.state = state at happlied
    cases happlied with
    | unchanged hguard =>
      refine h.events_quiet hstep (by rw [hstate]) ⟨[], by rw [hstate, append_nil], rfl⟩ ?_
      intro es hes
      rw [hseen]
      exact hes.unchanged hguard
    | changed hold hguard hrides hrow houtbox =>
      subst hstate
      exact h.events_changed hstep hold hguard hrides hrow houtbox hseen
  · obtain ⟨hstatus, hrows⟩ := happlied.frame hride
    refine h.events_quiet hstep hstatus hrows fun es hes => ?_
    have hother : ¬(d.fault.commits = true ∧ d.rideID codec = .ok ride) := by
      rintro ⟨-, h⟩
      rw [hr] at h
      cases h
      exact hride rfl
    rw [seen_append, if_neg hother, append_nil]
    exact hes

end Step

variable {ride : String}

theorem follows_run {db₀ db : Database RideDb} {ds : List Delivery}
    {changes : List RideStatus} (hride : db₀.state.rides.get? ride = some .requested)
    (hfresh : ∀ d ∈ ds, d.rideID codec = .ok ride →
      db₀.processed.get? (d.kind.consumerName, d.event.eventID) = none)
    (hids : IdsAgree codec ds)
    (hrun : run (logged (step codec) (change codec ride)) (db₀, []) ds = some (db, changes)) :
    Follows codec ride ds db₀ (db, changes) ds := by
  have hok : RunMeets (logged (step codec) (change codec ride)) (fun _ d => d ∈ ds) (db₀, []) ds :=
    runMeets_of_forall (fun _ hd _ => hd) _
  have hinit : Follows codec ride ds db₀ (db₀, []) [] := by
    refine ⟨fun d hd hr hrow => ?_, [], (append_nil _).symm, ?_, rfl⟩
    · rw [hfresh d hd hr] at hrow
      cases hrow
    · rw [hride]
      exact .requested
  exact run_history (fun _ _ _ _ h hd hstep => follows_step hids h hd hstep) hinit hok hrun

theorem step_assigned {db db' : Database RideDb} (h : step codec db d = some db')
    (hstatus : db.state.rides.get? ride = some .assigned) :
    db'.state.rides.get? ride = some .assigned := by
  obtain ⟨rfl, -⟩ | ⟨r, -, -, -, -, happlied⟩ := step_cases codec h
  · exact hstatus
  by_cases hride : r = ride
  · subst hride
    generalize db'.state = state at happlied
    cases happlied with
    | unchanged => exact hstatus
    | changed hold hguard =>
      rw [hstatus] at hold
      cases hold
      cases hkind : d.kind <;> rw [hkind] at hguard <;> cases hguard
  · rw [(happlied.frame hride).1, hstatus]

/-- In whatever order the events of a requested ride are delivered, the status is the one
that the events seen so far determine, an assigned ride stays assigned, and the ride's
status events are one for each change, with the new status. -/
theorem status_of_seen {ride : String} {db₀ db : Database RideDb} {ds : List Delivery}
    {changes : List RideStatus} (hride : db₀.state.rides.get? ride = some .requested)
    (hfresh : ∀ d ∈ ds, d.rideID codec = .ok ride →
      db₀.processed.get? (d.kind.consumerName, d.event.eventID) = none)
    (hids : IdsAgree codec ds)
    (hrun : run (logged (step codec) (change codec ride)) (db₀, []) ds = some (db, changes)) :
    ((db.state.rides.get? ride = some .assigned ↔ .assigned ∈ seen codec ride ds) ∧
      (db.state.rides.get? ride = some .searching ↔
        .assigned ∉ seen codec ride ds ∧ .deferred ∈ seen codec ride ds) ∧
      (db.state.rides.get? ride = some .requested ↔ seen codec ride ds = [])) ∧
    (∀ d db', step codec db d = some db' → db.state.rides.get? ride = some .assigned →
      db'.state.rides.get? ride = some .assigned) ∧
    ∃ rows, db.state.outbox = db₀.state.outbox ++ rows ∧
      (statusEvents ride rows).map current = changes := by
  have hfollows := follows_run codec hride hfresh hids hrun
  obtain ⟨rows, hout, hprojected, hmap⟩ := hfollows.events
  refine ⟨hprojected.status_spec, ?_, rows, hout, hmap⟩
  intro d db' hstep hstatus
  exact step_assigned codec hstep hstatus

def sampleCodec : Codec where
  assigned data := .ok ⟨data, "assignment", "driver", "Asha", "98450", "Swift", "white"⟩
  deferred data := .ok ⟨data, "no driver available"⟩

def sampleDb : Database RideDb where
  processed := .empty
  state := ⟨Table.empty.set "ride" .requested, .empty, []⟩

def sampleDeferred (newID : String) : Delivery :=
  ⟨.deferred, ⟨"event-1", "ride.dispatch.deferred", 1, "ride"⟩, newID, .none⟩

def sampleAssigned (newID : String) : Delivery :=
  ⟨.assigned, ⟨"event-2", "ride.assigned", 1, "ride"⟩, newID, .none⟩

theorem status_of_seen_redelivered :
    ∃ (db : Database RideDb) (changes : List RideStatus), changes = [.searching, .assigned] ∧
      db.state.rides.get? "ride" = some .assigned ∧
      (∃ rows, db.state.outbox = sampleDb.state.outbox ++ rows ∧
        (statusEvents "ride" rows).map current = changes) := by
  have hids : IdsAgree sampleCodec
      [sampleDeferred "n1", sampleDeferred "n2", sampleAssigned "n3", sampleDeferred "n4"] := by
    unfold IdsAgree
    decide +kernel
  obtain ⟨⟨db, changes⟩, hrun, hchanges⟩ :
      ∃ s ∈ run (logged (step sampleCodec) (change sampleCodec "ride")) (sampleDb, [])
        [sampleDeferred "n1", sampleDeferred "n2", sampleAssigned "n3", sampleDeferred "n4"],
        s.2 = [.searching, .assigned] := by
    decide +kernel
  obtain ⟨⟨hassigned, -⟩, -, hrows⟩ :=
    status_of_seen sampleCodec (by decide +kernel) (by decide +kernel) hids hrun
  exact ⟨db, changes, hchanges, hassigned.mpr (by decide +kernel), hrows⟩

/-! ## The chain of the emitted events -/

def Chained : RideStatus → List RideStatusChanged → Prop
  | _, [] => True
  | status, e :: es => e.previous = status ∧ Chained e.current es

instance Chained.decidable : ∀ status es, Decidable (Chained status es)
  | _, [] => isTrue trivial
  | status, e :: es =>
    have := Chained.decidable e.current es
    inferInstanceAs (Decidable (e.previous = status ∧ Chained e.current es))

theorem Projected.chained_iff {ks : List Kind} {status : Option RideStatus}
    {es : List RideStatusChanged} (h : Projected ride ks status es) :
    Chained .requested es ↔ ¬(ks.head? = some .deferred ∧ .assigned ∈ ks) := by
  cases h with
  | requested => simp [Chained]
  | searching hfirst hnone => simp [Chained, hnone]
  | assigned hfirst => simp [Chained, hfirst]
  | searched hfirst hmem => simp [Chained, hfirst, hmem]

/-- The status events of a ride form a chain exactly when the first of its events is not a
deferred one or none of them is an assigned one. -/
theorem chained_iff_seen {ride : String} {db₀ db : Database RideDb} {ds : List Delivery}
    (hride : db₀.state.rides.get? ride = some .requested)
    (hfresh : ∀ d ∈ ds, d.rideID codec = .ok ride →
      db₀.processed.get? (d.kind.consumerName, d.event.eventID) = none)
    (hids : IdsAgree codec ds) (hrun : run (step codec) db₀ ds = some db) :
    ∃ rows, db.state.outbox = db₀.state.outbox ++ rows ∧
      (Chained .requested (statusEvents ride rows) ↔
        ¬((seen codec ride ds).head? = some .deferred ∧ .assigned ∈ seen codec ride ds)) := by
  obtain ⟨changes, hlogged⟩ := exists_run_logged (change codec ride) hrun
  obtain ⟨rows, hout, hprojected, -⟩ := (follows_run codec hride hfresh hids hlogged).events
  exact ⟨rows, hout, hprojected.chained_iff⟩

theorem chained_iff_seen_assigned_first :
    ∃ db, run (step sampleCodec) sampleDb [sampleAssigned "n1", sampleDeferred "n2"] = some db ∧
      ∃ rows, db.state.outbox = sampleDb.state.outbox ++ rows ∧
        Chained .requested (statusEvents "ride" rows) := by
  refine exists_some_imp (A := fun db => True)
    (by decide +kernel) fun db hrun _ => ?_
  have hride : sampleDb.state.rides.get? "ride" = some .requested := by decide +kernel
  obtain ⟨rows, hout, hiff⟩ := chained_iff_seen sampleCodec hride (by decide +kernel)
    (by unfold IdsAgree; decide +kernel) hrun
  exact ⟨rows, hout, hiff.mpr (by decide +kernel)⟩

/-- A deferred event and then an assigned one: both status events start from `REQUESTED`. -/
theorem deferred_then_assigned_not_chained :
    ∃ db ∈ run (step sampleCodec) sampleDb [sampleDeferred "n1", sampleAssigned "n2"],
      (statusEvents "ride" db.state.outbox).map (fun e => (e.previous, e.current)) =
          [(.requested, .searching), (.requested, .assigned)] ∧
        ¬Chained .requested (statusEvents "ride" db.state.outbox) := by
  decide +kernel

end GoServices.KafkaEda.Projector
