/-
What a committed hold transaction writes, and the constraints of the tables.

`holdTx` either leaves the tables as they were, apart from the identity value it drew, or it adds
one held row and the key that points to it (`holdTx_cases`).
-/
import GoServices.Booking.HoldRuns

namespace GoServices.Booking

open List Database

/-! ## One transaction -/

variable (req : HoldRequest)

def withHold (now : Int) (d : Database) : Database :=
  { d with
    bookings := d.bookings ++ [heldRow req now d.nextID]
    keys := if req.idemKey = "" then d.keys else d.keys.set req.idemKey d.nextID
    nextID := d.nextID + 1 }

structure Accepted (req : HoldRequest) (now : Int) (d : Database) : Prop where
  seatFree : activeSeat.conflicts d.bookings (heldRow req now d.nextID) = false
  buyerFree : oneHeldPerBuyer.conflicts d.bookings (heldRow req now d.nextID) = false
  seat : (req.matchID, req.seatID) ∈ d.seats
  matchID : req.matchID ∈ d.matchIDs
  key : req.idemKey ≠ "" → d.keys.get? req.idemKey = none

def SameTables (db db' : Database) : Prop :=
  db'.seats = db.seats ∧ db'.matchIDs = db.matchIDs ∧ db'.bookings = db.bookings ∧
    db'.keys = db.keys ∧ db.nextID ≤ db'.nextID

variable (stale : Nat)

theorem beforeInsert_frame (now : Int) (db : Database) :
    (beforeInsert req stale now db).seats = db.seats ∧
      (beforeInsert req stale now db).matchIDs = db.matchIDs ∧
      (beforeInsert req stale now db).nextID = db.nextID := by
  simp only [beforeInsert, clearStaleKey, releasePrevious,
    expireStale, update]
  split
  · split <;> exact ⟨rfl, rfl, rfl⟩
  · exact ⟨rfl, rfl, rfl⟩

theorem beforeInsert_keys (now : Int) (db : Database) :
    (beforeInsert req stale now db).keys =
      if stale ≠ 0 ∧ db.keys.get? req.idemKey = some stale then db.keys.erase req.idemKey
      else db.keys := by
  simp only [beforeInsert, clearStaleKey, releasePrevious,
    expireStale, update]
  by_cases hstale : stale ≠ 0
  · by_cases hkey : db.keys.get? req.idemKey = some stale
    · simp only [hstale, hkey, if_true, ne_eq, not_false_eq_true, and_self]
    · simp only [hstale, hkey, if_true, if_false, ne_eq, not_false_eq_true, and_false]
  · simp only [hstale, if_false, false_and]

variable {db d db' : Database} {s s' : State} {a : Label}

theorem sameTables_rollback (h : db.nextID ≤ d.nextID) :
    SameTables db (rollback db d) :=
  ⟨rfl, rfl, rfl, rfl, h⟩

theorem commitTx_accepted {req : HoldRequest} {now : Int} (f : Faults) (db : Database)
    {d' : Database} (hnext : db.nextID ≤ d.nextID + 1) (h : Accepted req now d)
    (hd' : d' = withHold req now d) :
    (SameTables db (commitTx f db d' (heldRow req now d.nextID)).1 ∧
      ∀ row, (commitTx f db d' (heldRow req now d.nextID)).2 ≠ .ok row) ∨
    (Accepted req now d ∧ (commitTx f db d' (heldRow req now d.nextID)).1 = withHold req now d ∧
      ((commitTx f db d' (heldRow req now d.nextID)).2 = .ok (heldRow req now d.nextID) ∨
        (commitTx f db d' (heldRow req now d.nextID)).2 = .failed .commit)) := by
  subst hd'
  unfold commitTx
  cases f.commit with
  | received => exact .inr ⟨h, rfl, .inl rfl⟩
  | lost applied =>
    cases applied with
    | true => exact .inr ⟨h, rfl, .inr rfl⟩
    | false => exact .inl ⟨sameTables_rollback hnext, nofun⟩

theorem holdTx_cases (now : Int) (f : Faults) (db : Database) :
    (SameTables db (holdTx req stale now f db).1 ∧ ∀ row, (holdTx req stale now f db).2 ≠ .ok row) ∨
    (Accepted req now (beforeInsert req stale now db) ∧
      (holdTx req stale now f db).1 = withHold req now (beforeInsert req stale now db) ∧
      ((holdTx req stale now f db).2 = .ok (heldRow req now db.nextID) ∨
        (holdTx req stale now f db).2 = .failed .commit)) := by
  obtain ⟨hseats, hmatches, hnext⟩ := beforeInsert_frame req stale now db
  have hle : db.nextID ≤ (beforeInsert req stale now db).nextID + 1 := by omega
  rw [← hnext]
  unfold holdTx
  dsimp only
  split
  · exact .inl ⟨⟨rfl, rfl, rfl, rfl, le_rfl⟩, nofun⟩
  generalize beforeInsert req stale now db = d at *
  unfold insertHeld
  dsimp only
  by_cases hconf : (activeSeat.conflicts d.bookings (heldRow req now d.nextID) ||
      oneHeldPerBuyer.conflicts d.bookings (heldRow req now d.nextID)) = true
  · rw [if_pos hconf]
    exact .inl ⟨sameTables_rollback hle, nofun⟩
  rw [if_neg hconf]
  rw [Bool.not_eq_true, Bool.or_eq_false_iff] at hconf
  by_cases hfk : (req.matchID, req.seatID) ∈ d.seats ∧ req.matchID ∈ d.matchIDs
  · rw [if_pos hfk]
    have hcommit : ∀ keys, (req.idemKey ≠ "" → d.keys.get? req.idemKey = none) → { d with
          bookings := d.bookings ++ [heldRow req now d.nextID]
          keys := keys
          nextID := d.nextID + 1 } = withHold req now d →
        _ := fun keys hkey heq => commitTx_accepted f db hle
          ⟨hconf.1, hconf.2, hfk.1, hfk.2, hkey⟩ heq
    dsimp only
    split
    · rename_i hnokey
      exact hcommit d.keys (fun h => absurd hnokey h) (by rw [withHold, if_pos hnokey])
    rename_i hkeyed
    split
    · exact .inl ⟨sameTables_rollback hle, nofun⟩
    split
    · exact .inl ⟨sameTables_rollback hle, nofun⟩
    rename_i hfree
    exact hcommit (d.keys.set req.idemKey d.nextID) (fun _ => hfree)
      (by rw [withHold, if_neg hkeyed])
  · rw [if_neg hfk]
    exact .inl ⟨sameTables_rollback hle, nofun⟩

/-! ## The constraints -/

structure Constraints (db : Database) : Prop where
  /-- The primary key of `bookings`. -/
  ids : (db.bookings.map Row.id).Nodup
  next : 0 < db.nextID
  drawn : ∀ b ∈ db.bookings, 0 < b.id ∧ b.id < db.nextID
  /-- The foreign keys of `bookings`. -/
  seat : ∀ b ∈ db.bookings, (b.matchID, b.seatID) ∈ db.seats ∧ b.matchID ∈ db.matchIDs
  /-- `CHECK (status <> 'held' OR hold_expires_at IS NOT NULL)`. -/
  expiry : ∀ b ∈ db.bookings, b.status = .held → ∃ t, b.holdExpiresAt = some t
  /-- The foreign key of `idempotency_keys`. -/
  key : ∀ k id, db.keys.get? k = some id → ∃ b ∈ db.bookings, b.id = id

structure Settles (db db' : Database) : Prop where
  moved : Moved db db'
  seats : db'.seats = db.seats
  matchIDs : db'.matchIDs = db.matchIDs
  next : db.nextID ≤ db'.nextID
  keys : ∀ k id, db'.keys.get? k = some id → db.keys.get? k = some id

theorem SameTables.settles (h : SameTables db db') : Settles db db' := by
  obtain ⟨hseats, hmatches, hrows, hkeys, hnext⟩ := h
  exact ⟨.same hrows, hseats, hmatches, hnext, fun k id hk => hkeys ▸ hk⟩

theorem settles_beforeInsert (now : Int) (db : Database) :
    Settles db (beforeInsert req stale now db) := by
  obtain ⟨hseats, hmatches, hnext⟩ := beforeInsert_frame req stale now db
  refine ⟨moved_beforeInsert req stale now db, hseats, hmatches, hnext.ge, fun k id hk => ?_⟩
  rw [beforeInsert_keys] at hk
  split at hk
  · rw [Table.get?_erase] at hk
    split at hk <;> try cases hk
    exact hk
  · exact hk

theorem settles_updates (h : Updates db db') : Settles db db' ∧ db'.keys = db.keys := by
  obtain ⟨hmoved, rows, rfl⟩ := h
  exact ⟨⟨hmoved, rfl, rfl, le_rfl, fun _ _ hk => hk⟩, rfl⟩

theorem settles_answer (h : Settles db db' ∧ db'.keys = db.keys) (a : Answer) :
    Settles db (a.apply db db') ∧ (a.apply db db').keys = db.keys := by
  have hsame : Settles db db := ⟨.same rfl, rfl, rfl, le_rfl, fun _ _ hk => hk⟩
  cases a with
  | received => exact h
  | lost applied =>
    cases applied with
    | true => exact h
    | false => exact ⟨hsame, rfl⟩

inductive TableStep (s s' : State) : Label → Prop
  | settles {a : Label} (h : Settles s.db s'.db) (hkeys : s'.db.keys = s.db.keys) :
      TableStep s s' a
  | held {i : Nat} {f : Faults} (req : HoldRequest) (stale : Nat) (now : Int)
      (hcall : s.calls.get? i = some ⟨req, .tx stale⟩)
      (haccepted : Accepted req now (beforeInsert req stale now s.db))
      (hdb : s'.db = withHold req now (beforeInsert req stale now s.db)) :
      TableStep s s' (.hold i now f)

theorem table_step (h : step s a = some s') : TableStep s s' a := by
  have hsame : Settles s.db s.db := ⟨.same rfl, rfl, rfl, le_rfl, fun _ _ hk => hk⟩
  cases stepped_of_step h with
  | placed hcall | lookedUp hcall => exact .settles hsame rfl
  | @held i now f req stale hcall =>
    rcases holdTx_cases req stale now f s.db with ⟨hsame, -⟩ | ⟨hacc, hdb, -⟩
    · exact .settles hsame.settles hsame.2.2.2.1
    · exact .held req stale now hcall hacc hdb
  | rechecked hcall => exact .settles hsame rfl
  | @confirmed holdID buyerID now answer =>
    obtain ⟨hsettles, hkeys⟩ := settles_answer (settles_updates (updates_confirmHold ..)) answer
    exact .settles hsettles hkeys
  | @released holdID buyerID now answer =>
    obtain ⟨hsettles, hkeys⟩ := settles_answer (settles_updates (updates_releaseHold ..)) answer
    exact .settles hsettles hkeys

section
variable {db db' : Database}

theorem Moved.origin (h : Moved db db') {b' : Row} (hb' : b' ∈ db'.bookings) :
    ∃ b ∈ db.bookings, RowMove b b' := by
  obtain ⟨f, hf, hmove⟩ := h
  rw [hf] at hb'
  obtain ⟨b, hb, rfl⟩ := mem_map.mp hb'
  exact ⟨b, hb, hmove b⟩

theorem Moved.image (h : Moved db db') {b : Row} (hb : b ∈ db.bookings) :
    ∃ b' ∈ db'.bookings, RowMove b b' := by
  obtain ⟨f, hf, hmove⟩ := h
  exact ⟨f b, by rw [hf]; exact mem_map_of_mem hb, hmove b⟩

theorem Moved.ids (h : Moved db db') : db'.bookings.map Row.id = db.bookings.map Row.id := by
  obtain ⟨f, hf, hmove⟩ := h
  rw [hf, map_map]
  exact map_congr_left fun b _ => (hmove b).id

theorem Constraints.settles (hc : Constraints db) (h : Settles db db') : Constraints db' where
  ids := h.moved.ids ▸ hc.ids
  next := hc.next.trans_le h.next
  drawn b' hb' := by
    obtain ⟨b, hb, hmove⟩ := h.moved.origin hb'
    obtain ⟨hpos, hlt⟩ := hc.drawn b hb
    rw [hmove.id]
    exact ⟨hpos, hlt.trans_le h.next⟩
  seat b' hb' := by
    obtain ⟨b, hb, hmove⟩ := h.moved.origin hb'
    rw [hmove.matchID, hmove.seatID, h.seats, h.matchIDs]
    exact hc.seat b hb
  expiry b' hb' hheld := by
    obtain ⟨b, hb, hmove⟩ := h.moved.origin hb'
    rcases hmove.status with rfl | ⟨-, hne⟩
    · exact hc.expiry b' hb hheld
    · exact absurd hheld hne
  key k id hk := by
    obtain ⟨b, hb, hid⟩ := hc.key k id (h.keys k id hk)
    obtain ⟨b', hb', hmove⟩ := h.moved.image hb
    exact ⟨b', hb', hmove.id.trans hid⟩

theorem Constraints.withHold {req : HoldRequest} {now : Int} (hc : Constraints db)
    (h : Accepted req now db) : Constraints (withHold req now db) where
  ids := by
    rw [Booking.withHold, map_append, nodup_append]
    refine ⟨hc.ids, nodup_singleton _, fun id hid id' hid' heq => ?_⟩
    obtain ⟨b, hb, rfl⟩ := mem_map.mp hid
    cases mem_singleton.mp hid'
    exact absurd heq (hc.drawn b hb).2.ne
  next := Nat.succ_pos _
  drawn b hb := by
    obtain hb | rfl := mem_concat_cases hb
    · obtain ⟨hpos, hlt⟩ := hc.drawn b hb
      exact ⟨hpos, Nat.lt_succ_of_lt hlt⟩
    · exact ⟨hc.next, Nat.lt_succ_self _⟩
  seat b hb := by
    obtain hb | rfl := mem_concat_cases hb
    · exact hc.seat b hb
    · exact ⟨h.seat, h.matchID⟩
  expiry b hb hheld := by
    obtain hb | rfl := mem_concat_cases hb
    · exact hc.expiry b hb hheld
    · exact ⟨_, rfl⟩
  key k id hk := by
    have hnew : heldRow req now db.nextID ∈ (Booking.withHold req now db).bookings :=
      mem_concat_self
    have hold : db.keys.get? k = some id →
        ∃ b ∈ (Booking.withHold req now db).bookings, b.id = id := by
      intro hk
      obtain ⟨b, hb, hid⟩ := hc.key k id hk
      exact ⟨b, mem_append_left _ hb, hid⟩
    rw [Booking.withHold] at hk
    dsimp only at hk
    split at hk
    · exact hold hk
    rcases Table.set_cases hk with ⟨-, rfl⟩ | ⟨-, hk⟩
    · exact ⟨_, hnew, rfl⟩
    · exact hold hk

end

theorem constraints_step (hc : Constraints s.db) (h : step s a = some s') : Constraints s'.db := by
  cases table_step h with
  | settles h _ => exact hc.settles h
  | held req stale now _ hacc hdb =>
    rw [hdb]
    exact (hc.settles (settles_beforeInsert req stale now s.db)).withHold hacc

theorem constraints_initial (seats : List (String × String)) (matchIDs : List String) :
    Constraints (initial seats matchIDs).db where
  ids := nodup_nil
  next := Nat.one_pos
  drawn _ hb := nomatch hb
  seat _ hb := nomatch hb
  expiry _ hb := nomatch hb
  key _ _ hk := nomatch hk

end GoServices.Booking
