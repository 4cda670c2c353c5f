/-
The seat map, and whether it agrees with the hold path and the confirm path.

`ListSeats` and `ConfirmHold` take a hold to be alive while `hold_expires_at > now()`.
-/
import GoServices.Booking.Constraints
import Mathlib

namespace GoServices.Booking

open List Database

/-! ## `ListSeats` -/

/-- `COALESCE(b.status, 'available')`. -/
inductive ShownStatus
  | available
  | booking (status : Status)
  deriving DecidableEq

structure SeatStatus where
  seatID : String
  seatSection : String
  status : ShownStatus
  holdExpiresAt : Option Int
  deriving DecidableEq

/-- The join condition of `ListSeats`, apart from the seat. -/
def Row.shown (b : Row) (now : Int) : Bool :=
  (b.status = .held || b.status = .confirmed) &&
    (b.status = .confirmed || expiresAfter b.holdExpiresAt now)

def joinSeat (sectionOf : String × String → String) (db : Database) (now : Int)
    (seat : String × String) : List SeatStatus :=
  match db.bookings.filter fun b => (b.matchID, b.seatID) = seat && b.shown now with
  | [] =>
    [{ seatID := seat.2, seatSection := sectionOf seat, status := .available,
       holdExpiresAt := none }]
  | rows => rows.map fun b =>
    { seatID := seat.2, seatSection := sectionOf seat, status := .booking b.status,
      holdExpiresAt := b.holdExpiresAt }

/-- `ORDER BY s.section, s.seat_id`. -/
def SeatStatus.before (x y : SeatStatus) : Prop :=
  x.seatSection < y.seatSection ∨ x.seatSection = y.seatSection ∧ x.seatID ≤ y.seatID
  deriving Decidable

def listSeats (sectionOf : String × String → String) (db : Database) (matchID : String)
    (now : Int) : List SeatStatus :=
  ((db.seats.filter fun seat => seat.1 = matchID).flatMap (joinSeat sectionOf db now)).insertionSort
    SeatStatus.before

variable {db : Database} {now : Int} {sectionOf : String × String → String} {seat : String × String}

theorem mem_listSeats {matchID : String} {e : SeatStatus} :
    e ∈ listSeats sectionOf db matchID now ↔
      ∃ seatID, (matchID, seatID) ∈ db.seats ∧ e ∈ joinSeat sectionOf db now (matchID, seatID) := by
  rw [listSeats, (perm_insertionSort SeatStatus.before _).mem_iff, mem_flatMap]
  constructor
  · rintro ⟨⟨m, seatID⟩, hmem, he⟩
    obtain ⟨hseat, hm⟩ := mem_filter.mp hmem
    cases of_decide_eq_true hm
    exact ⟨seatID, hseat, he⟩
  · rintro ⟨seatID, hseat, he⟩
    exact ⟨(matchID, seatID), mem_filter.mpr ⟨hseat, decide_eq_true rfl⟩, he⟩

theorem mem_joinSeat {e : SeatStatus} (h : e ∈ joinSeat sectionOf db now seat) :
    e.seatID = seat.2 ∧ ((e.status = .available ∧
          ∀ b ∈ db.bookings, (b.matchID, b.seatID) = seat → b.shown now = false) ∨
        ∃ b ∈ db.bookings, (b.matchID, b.seatID) = seat ∧ b.shown now = true ∧
          e.status = .booking b.status ∧ e.holdExpiresAt = b.holdExpiresAt) := by
  unfold joinSeat at h
  split at h
  · rename_i hnone
    cases mem_singleton.mp h
    refine ⟨rfl, .inl ⟨rfl, fun b hb hseat => ?_⟩⟩
    have hsel := filter_eq_nil_iff.mp hnone b hb
    simpa [hseat] using hsel
  · obtain ⟨b, hb, rfl⟩ := mem_map.mp h
    obtain ⟨hmem, hsel⟩ := mem_filter.mp hb
    simp only [Bool.and_eq_true, decide_eq_true_eq] at hsel
    exact ⟨rfl, .inr ⟨b, hmem, hsel.1, hsel.2, rfl, rfl⟩⟩

theorem available_of_not_shown (sectionOf : String × String → String)
    (h : ∀ b ∈ db.bookings, (b.matchID, b.seatID) = seat → b.shown now = false) :
    ∃ e ∈ joinSeat sectionOf db now seat, e.seatID = seat.2 ∧ e.status = .available := by
  have hnone : (db.bookings.filter fun b => (b.matchID, b.seatID) = seat && b.shown now) = [] := by
    refine filter_eq_nil_iff.mpr fun b hb hsel => ?_
    simp only [Bool.and_eq_true, decide_eq_true_eq] at hsel
    rw [h b hb hsel.1] at hsel
    cases hsel.2
  refine ⟨_, by rw [joinSeat, hnone]; exact mem_singleton_self _, rfl, rfl⟩

/-! ## The rows a hold runs into -/

section
variable {req : HoldRequest} {stale : Nat} {now : Int} {db : Database} {b : Row}

theorem beforeInsert_bookings :
    (beforeInsert req stale now db).bookings =
      ((db.releasePrevious req now).expireStale req now).bookings := by
  simp only [beforeInsert, clearStaleKey]
  split
  · split <;> rfl
  · rfl

theorem mem_update_of_not_selected {selects : Row → Bool} {set : Row → Row} (hb : b ∈ db.bookings)
    (hsel : selects b = false) : b ∈ (db.update selects set).bookings :=
  mem_map.mpr ⟨b, hb, by rw [hsel]; rfl⟩

theorem mem_beforeInsert (hb : b ∈ db.bookings) (hseat : b.seatID = req.seatID)
    (hlive : b.status = .held → expiredBefore b.holdExpiresAt now = false) :
    b ∈ (beforeInsert req stale now db).bookings := by
  rw [beforeInsert_bookings]
  refine mem_update_of_not_selected (mem_update_of_not_selected hb ?_) ?_
  · simp [hseat]
  by_cases hheld : b.status = .held
  · simp [hlive hheld]
  · simp [hheld]

theorem active_of_mem_beforeInsert (hb : b ∈ (beforeInsert req stale now db).bookings)
    (hactive : activeSeat.covers b = true) (hmatch : b.matchID = req.matchID)
    (hseat : b.seatID = req.seatID) :
    b ∈ db.bookings ∧ (b.status = .held → expiredBefore b.holdExpiresAt now = false) := by
  refine ⟨(active_beforeInsert hb hactive).1, fun hheld => ?_⟩
  have hsel := (mem_of_mem_update (P := fun b => activeSeat.covers b = true)
    (fun b => by simp [activeSeat]) hb hactive).2
  simpa [hheld, hmatch, hseat] using hsel

theorem holdTx_of_accepted (h : Accepted req now (beforeInsert req stale now db)) :
    (holdTx req stale now ⟨none, .received⟩ db).2 = .ok (heldRow req now db.nextID) := by
  have hnext := (beforeInsert_frame req stale now db).2.2
  have hstages : ∀ l : List Stage,
      (l.find? fun stage => (none : Option Stage) = some stage) = none :=
    fun l => find?_eq_none.mpr fun _ _ => by simp
  unfold holdTx
  dsimp only
  rw [hstages]
  unfold insertHeld
  dsimp only
  rw [h.seatFree, h.buyerFree, if_neg (by simp), if_pos ⟨h.seat, h.matchID⟩, hnext]
  dsimp only
  split
  · rfl
  rename_i hkeyed
  rw [if_neg (by simp), h.key hkeyed]
  rfl

theorem expiresAfter_eq_false {e : Option Int} :
    expiresAfter e now = false ↔ ∀ t, e = some t → t ≤ now := by
  cases e with
  | none | some t => simp [expiresAfter]

theorem expiredBefore_eq_false {e : Option Int} :
    expiredBefore e now = false ↔ ∀ t, e = some t → now ≤ t := by
  cases e with
  | none | some t => simp [expiredBefore]

/-! ## Agreement -/

/-- `PlaceHold` succeeds when no statement fails. -/
def Holdable (db : Database) (matchID seatID buyerID : String) (now : Int) : Prop :=
  ∀ ttl, ∃ row,
    (holdTx ⟨matchID, seatID, buyerID, ttl, ""⟩ 0 now ⟨none, .received⟩ db).2 = .ok row

def RefusedToOthers (db : Database) (b : Row) (now : Int) : Prop :=
  ∀ req stale f, req.matchID = b.matchID → req.seatID = b.seatID → req.buyerID ≠ b.buyerID →
    (holdTx req stale now f db).1.bookings = db.bookings ∧
      ∀ row, (holdTx req stale now f db).2 ≠ .ok row

/-- The owner's `ConfirmHold` confirms this booking. -/
def Confirmable (db : Database) (b : Row) (now : Int) : Prop :=
  ∃ row, (confirmHold db b.id b.buyerID now).2 = .ok row ∧ row.id = b.id ∧
    row.matchID = b.matchID ∧ row.seatID = b.seatID ∧ row.status = .confirmed

def MapAgrees (sectionOf : String × String → String) (db : Database) (now : Int) : Prop :=
  ∀ matchID, ∀ e ∈ listSeats sectionOf db matchID now,
    (e.status = .available → ∀ buyerID, (∀ b ∈ db.bookings, b.buyerID ≠ buyerID) →
      Holdable db matchID e.seatID buyerID now) ∧
    (e.status = .booking .held → ∃ b ∈ db.bookings, b.matchID = matchID ∧ b.seatID = e.seatID ∧
      b.status = .held ∧ RefusedToOthers db b now ∧ Confirmable db b now)

variable {b : Row}

theorem expiresAfter_of_shown (hheld : b.status = .held) (hshown : b.shown now = true) :
    expiresAfter b.holdExpiresAt now = true := by
  simpa [Row.shown, hheld] using hshown

theorem not_accepted {req : HoldRequest} {stale : Nat}
    (hb : b ∈ (beforeInsert req stale now db).bookings) (hactive : activeSeat.covers b = true)
    (hmatch : b.matchID = req.matchID) (hseat : b.seatID = req.seatID) :
    ¬ Accepted req now (beforeInsert req stale now db) := by
  intro h
  have hconf : activeSeat.conflicts (beforeInsert req stale now db).bookings
      (heldRow req now (beforeInsert req stale now db).nextID) = true :=
    UniqueIndex.conflicts_eq_true.mpr ⟨rfl, b, hb, hactive, Prod.ext hmatch hseat⟩
  rw [h.seatFree] at hconf
  cases hconf

theorem refusedToOthers_of_shown (hb : b ∈ db.bookings) (hheld : b.status = .held)
    (hshown : b.shown now = true) : RefusedToOthers db b now := by
  intro req stale f hmatch hseat _
  rcases holdTx_cases req stale now f db with ⟨hsame, hno⟩ | ⟨hacc, -⟩
  · exact ⟨hsame.2.2.1, hno⟩
  have hexp := expiresAfter_of_shown hheld hshown
  have hlive : expiredBefore b.holdExpiresAt now = false := by
    refine expiredBefore_eq_false.mpr fun t ht => ?_
    rw [ht, expiresAfter, decide_eq_true_eq] at hexp
    exact hexp.le
  have hmem : b ∈ (beforeInsert req stale now db).bookings :=
    mem_beforeInsert hb hseat.symm fun _ => hlive
  exact absurd hacc (not_accepted hmem (by simp [activeSeat, hheld]) hmatch.symm hseat.symm)

section
variable (hdb : Constraints db)
include hdb

theorem confirmable_of_shown (hb : b ∈ db.bookings) (hheld : b.status = .held)
    (hshown : b.shown now = true) : Confirmable db b now := by
  have hexp := expiresAfter_of_shown hheld hshown
  unfold Confirmable confirmHold
  dsimp only
  cases hfind : db.bookings.find? fun c => c.id = b.id && c.buyerID = b.buyerID &&
      c.status = .held && expiresAfter c.holdExpiresAt now with
  | none =>
    have hnot := find?_eq_none.mp hfind b hb
    simp [hheld, hexp] at hnot
  | some c =>
    have hsel := find?_some hfind
    simp only [Bool.and_eq_true, decide_eq_true_eq] at hsel
    have hcb : c = b := inj_on_of_nodup_map hdb.ids (mem_of_find?_eq_some hfind) hb hsel.1.1.1
    subst hcb
    exact ⟨_, rfl, rfl, rfl, rfl, rfl⟩

theorem holdable_of_available {matchID seatID buyerID : String}
    (hseat : (matchID, seatID) ∈ db.seats) (hmatch : matchID ∈ db.matchIDs)
    (hnone : ∀ b ∈ db.bookings, (b.matchID, b.seatID) = (matchID, seatID) → b.shown now = false)
    (hexact : ∀ b ∈ db.bookings, b.status = .held → b.holdExpiresAt ≠ some now)
    (hbuyer : ∀ b ∈ db.bookings, b.buyerID ≠ buyerID) : Holdable db matchID seatID buyerID now := by
  intro ttl
  obtain ⟨hseats, hmatches, -⟩ := beforeInsert_frame ⟨matchID, seatID, buyerID, ttl, ""⟩ 0 now db
  refine ⟨_, holdTx_of_accepted ⟨?_, ?_, hseats ▸ hseat, hmatches ▸ hmatch, fun h => absurd rfl h⟩⟩
  · rw [← Bool.not_eq_true, UniqueIndex.conflicts_eq_true]
    rintro ⟨-, q, hq, hactive, hkey⟩
    obtain ⟨hqm, hqs⟩ := Prod.mk.inj hkey
    obtain ⟨hmem, hlive⟩ := active_of_mem_beforeInsert hq hactive hqm hqs
    have hhidden := hnone q hmem (Prod.ext hqm hqs)
    simp only [activeSeat, Bool.or_eq_true, decide_eq_true_eq] at hactive
    rcases hactive with hheld | hconfirmed
    · -- the seat map says not later than now, the hold path says not earlier
      obtain ⟨t, ht⟩ := hdb.expiry q hmem hheld
      have hlate : expiresAfter q.holdExpiresAt now = false := by
        simpa [Row.shown, hheld] using hhidden
      have hle := expiresAfter_eq_false.mp hlate t ht
      have hge := expiredBefore_eq_false.mp (hlive hheld) t ht
      exact hexact q hmem hheld (by rw [ht, le_antisymm hle hge])
    · simp [Row.shown, hconfirmed] at hhidden
  · rw [← Bool.not_eq_true, UniqueIndex.conflicts_eq_true]
    rintro ⟨-, q, hq, hheld, hkey⟩
    have hheld : q.status = .held := of_decide_eq_true hheld
    have hmem := (active_beforeInsert hq (by simp [activeSeat, hheld])).1
    exact hbuyer q hmem (Prod.mk.inj hkey).2

theorem mapAgrees_of_no_expiry (hseats : ∀ seat ∈ db.seats, seat.1 ∈ db.matchIDs)
    (hexact : ∀ b ∈ db.bookings, b.status = .held → b.holdExpiresAt ≠ some now)
    (sectionOf : String × String → String) : MapAgrees sectionOf db now := by
  intro matchID e he
  obtain ⟨seatID, hseat, he⟩ := mem_listSeats.mp he
  obtain ⟨hid, hstatus⟩ := mem_joinSeat he
  rw [hid]
  rcases hstatus with ⟨hav, hnone⟩ | ⟨b, hb, hbseat, hshown, hst, -⟩
  · refine ⟨fun _ buyerID hbuyer => ?_, fun h => absurd (hav.symm.trans h) nofun⟩
    exact holdable_of_available hdb hseat (hseats _ hseat) hnone hexact hbuyer
  refine ⟨fun h => absurd (hst.symm.trans h) nofun, fun h => ?_⟩
  have hheld : b.status = .held := ShownStatus.booking.inj (hst.symm.trans h)
  obtain ⟨hbm, hbs⟩ := Prod.mk.inj hbseat
  exact ⟨b, hb, hbm, hbs, hheld, refusedToOthers_of_shown hb hheld hshown,
    confirmable_of_shown hdb hb hheld hshown⟩

theorem not_mapAgrees_of_expiry (hindex : activeSeat.Holds db.bookings) (hb : b ∈ db.bookings)
    (hheld : b.status = .held) (hexpiry : b.holdExpiresAt = some now)
    (sectionOf : String × String → String) : ¬ MapAgrees sectionOf db now := by
  intro hagrees
  obtain ⟨hseat, -⟩ := hdb.seat b hb
  have hactive : activeSeat.covers b = true := by simp [activeSeat, hheld]
  have hnone : ∀ c ∈ db.bookings, (c.matchID, c.seatID) = (b.matchID, b.seatID) →
      c.shown now = false := by
    intro c hc hkey
    by_contra hshown
    rw [Bool.not_eq_false] at hshown
    have hcactive : activeSeat.covers c = true := (Bool.and_eq_true_iff.mp hshown).1
    cases hindex.eq_of_key hc hb hcactive hactive hkey
    have hexp := expiresAfter_of_shown hheld hshown
    rw [hexpiry, expiresAfter, decide_eq_true_eq] at hexp
    exact lt_irrefl now hexp
  obtain ⟨e, he, hid, hav⟩ := available_of_not_shown sectionOf hnone
  obtain ⟨buyerID, hbuyer⟩ := Infinite.exists_notMem_finset (db.bookings.map Row.buyerID).toFinset
  have hfresh : ∀ c ∈ db.bookings, c.buyerID ≠ buyerID := by
    rintro c hc rfl
    exact hbuyer (mem_toFinset.mpr (mem_map_of_mem hc))
  have hmap := (hagrees b.matchID e (mem_listSeats.mpr ⟨b.seatID, hseat, he⟩)).1 hav buyerID hfresh
  obtain ⟨row, hok⟩ := hmap 0
  rcases holdTx_cases ⟨b.matchID, e.seatID, buyerID, 0, ""⟩ 0 now ⟨none, .received⟩ db with
    ⟨-, hno⟩ | ⟨hacc, -⟩
  · exact hno row hok
  have hlive : expiredBefore b.holdExpiresAt now = false :=
    expiredBefore_eq_false.mpr fun t ht => (Option.some.inj (hexpiry.symm.trans ht)).le
  exact not_accepted (mem_beforeInsert hb hid.symm fun _ => hlive) hactive rfl hid.symm hacc

end

end

theorem seats_step {s s' : State} {a : Label} (hs : ∀ seat ∈ s.db.seats, seat.1 ∈ s.db.matchIDs)
    (h : step s a = some s') :
    ∀ seat ∈ s'.db.seats, seat.1 ∈ s'.db.matchIDs := by
  cases table_step h with
  | settles h _ =>
    rw [h.seats, h.matchIDs]
    exact hs
  | held req stale now _ _ hdb =>
    obtain ⟨hseats, hmatches, -⟩ := beforeInsert_frame req stale now s.db
    rw [hdb, withHold]
    rw [hseats, hmatches]
    exact hs

/-- At every instant and in every bookings table that a run reaches, the seat map agrees
with the hold path and the confirm path if and only if no hold expires at that very
instant. -/
theorem seat_map_agrees_iff {seats : List (String × String)} {matchIDs : List String}
    (hseats : ∀ seat ∈ seats, seat.1 ∈ matchIDs) {as : List Label} {s : State}
    (hrun : run step (initial seats matchIDs) as = some s)
    (sectionOf : String × String → String) (now : Int) :
    MapAgrees sectionOf s.db now ↔
      ∀ b ∈ s.db.bookings, b.status = .held → b.holdExpiresAt ≠ some now := by
  have hdb : Constraints s.db :=
    run_invariant (I := fun s => Constraints s.db) (fun _ _ _ hs h => constraints_step hs h)
      (constraints_initial seats matchIDs) hrun
  have hseats' : ∀ seat ∈ s.db.seats, seat.1 ∈ s.db.matchIDs :=
    run_invariant (I := fun s => ∀ seat ∈ s.db.seats, seat.1 ∈ s.db.matchIDs)
      (fun _ _ _ hs h => seats_step hs h) hseats hrun
  constructor
  · intro hagrees b hb hheld hexpiry
    exact not_mapAgrees_of_expiry hdb (inv_run hrun).seat hb hheld hexpiry sectionOf hagrees
  · exact fun hexact => mapAgrees_of_no_expiry hdb hseats' hexact sectionOf

def demoHold : List Label :=
  [.place 1 ⟨"m1", "NORTH-1", "alice", 300000000000, ""⟩, .hold 1 10 ⟨none, .received⟩]

theorem seat_map_agrees_before_expiry :
    ∃ s ∈ run step (initial [("m1", "NORTH-1")] ["m1"]) demoHold,
      MapAgrees (fun _ => "NORTH") s.db 300000009 := by
  refine exists_some_imp (A := fun s => ∀ b ∈ s.db.bookings, b.status = .held →
    b.holdExpiresAt ≠ some 300000009) (by decide) fun s hrun hexact => ?_
  exact (seat_map_agrees_iff (by decide) hrun _ _).mpr hexact

/-- At the instant the hold expires the map shows the seat as available, and a buyer
without any booking cannot hold it. -/
theorem available_seat_refused :
    ∃ s ∈ run step (initial [("m1", "NORTH-1")] ["m1"]) demoHold,
      listSeats (fun _ => "NORTH") s.db "m1" 300000010 = [⟨"NORTH-1", "NORTH", .available, none⟩] ∧
      (∀ b ∈ s.db.bookings, b.buyerID ≠ "bob") ∧
      (holdTx ⟨"m1", "NORTH-1", "bob", 300000000000, ""⟩ 0 300000010 ⟨none, .received⟩ s.db).2 =
        .insertConflict := by
  decide

end GoServices.Booking
