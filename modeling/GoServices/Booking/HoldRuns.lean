/-
What every run of the hold path keeps.

`RowMove` is what a statement does to one row: nothing, or it takes a held row out of `held`.
-/
import GoServices.Booking.Holds

namespace GoServices.Booking

open List

/-! ## Rows -/

structure RowMove (b b' : Row) : Prop where
  id : b'.id = b.id
  matchID : b'.matchID = b.matchID
  seatID : b'.seatID = b.seatID
  buyerID : b'.buyerID = b.buyerID
  status : b' = b ∨ (b.status = .held ∧ b'.status ≠ .held)

theorem RowMove.refl (b : Row) : RowMove b b := ⟨rfl, rfl, rfl, rfl, .inl rfl⟩

variable {b : Row}

theorem RowMove.trans {c d : Row} (h₁ : RowMove b c) (h₂ : RowMove c d) : RowMove b d := by
  refine ⟨h₂.id.trans h₁.id, h₂.matchID.trans h₁.matchID, h₂.seatID.trans h₁.seatID,
    h₂.buyerID.trans h₁.buyerID, ?_⟩
  rcases h₂.status with rfl | ⟨hc, hd⟩
  · exact h₁.status
  rcases h₁.status with rfl | ⟨hb, hc'⟩
  · exact .inr ⟨hc, hd⟩
  · exact absurd hc hc'

variable {b' : Row} {selects : Row → Bool} {set : Row → Row} {s' : State} {a : Label} {stale : Nat}

theorem RowMove.activeSeat (h : RowMove b b') (hc : activeSeat.covers b' = true) :
    activeSeat.covers b = true ∧ activeSeat.key b' = activeSeat.key b := by
  refine ⟨?_, Prod.ext h.matchID h.seatID⟩
  rcases h.status with rfl | ⟨hb, -⟩
  · exact hc
  · simp [Booking.activeSeat, hb]

theorem RowMove.oneHeldPerBuyer (h : RowMove b b') (hc : oneHeldPerBuyer.covers b' = true) :
    oneHeldPerBuyer.covers b = true ∧ oneHeldPerBuyer.key b' = oneHeldPerBuyer.key b := by
  refine ⟨?_, Prod.ext h.matchID h.buyerID⟩
  rcases h.status with rfl | ⟨hb, -⟩
  · exact hc
  · simp [Booking.oneHeldPerBuyer, hb]

/-- The rows of `db'` are those of `db`, each moved. -/
def Moved (db db' : Database) : Prop :=
  ∃ f : Row → Row, db'.bookings = db.bookings.map f ∧ ∀ b, RowMove b (f b)

variable {db db' : Database}

theorem Moved.same (h : db'.bookings = db.bookings) : Moved db db' :=
  ⟨fun b => b, by rw [h, map_id'], RowMove.refl⟩

variable {d : Database}

theorem Moved.trans (h₁ : Moved db d) (h₂ : Moved d db') : Moved db db' := by
  obtain ⟨f, hf, hmf⟩ := h₁
  obtain ⟨g, hg, hmg⟩ := h₂
  exact ⟨g ∘ f, by rw [hg, hf, map_map], fun b => (hmf b).trans (hmg (f b))⟩

theorem Moved.update (db : Database) (hsel : ∀ b, selects b = true → b.status = .held)
    (hset : ∀ b, (set b).id = b.id ∧ (set b).matchID = b.matchID ∧ (set b).seatID = b.seatID ∧
      (set b).buyerID = b.buyerID ∧ (set b).status ≠ .held) :
    Moved db (db.update selects set) := by
  refine ⟨_, rfl, fun b => ?_⟩
  by_cases h : selects b = true
  · rw [if_pos h]
    obtain ⟨hid, hmatch, hseat, hbuyer, hstatus⟩ := hset b
    exact ⟨hid, hmatch, hseat, hbuyer, .inr ⟨hsel b h, hstatus⟩⟩
  · rw [if_neg h]
    exact .refl b

theorem moved_releasePrevious (db : Database) (req : HoldRequest) (now : Int) :
    Moved db (db.releasePrevious req now) := by
  refine Moved.update db (fun b hb => ?_) fun b => ⟨rfl, rfl, rfl, rfl, Status.noConfusion⟩
  simp only [Bool.and_eq_true, decide_eq_true_eq] at hb
  exact hb.1.2

theorem moved_expireStale (db : Database) (req : HoldRequest) (now : Int) :
    Moved db (db.expireStale req now) := by
  refine Moved.update db (fun b hb => ?_) fun b => ⟨rfl, rfl, rfl, rfl, Status.noConfusion⟩
  simp only [Bool.and_eq_true, decide_eq_true_eq] at hb
  exact hb.1.2

theorem moved_beforeInsert (req : HoldRequest) (stale : Nat) (now : Int) (db : Database) :
    Moved db (beforeInsert req stale now db) := by
  have hclear : Moved db
      (if stale ≠ 0 then db.clearStaleKey req.idemKey stale else db) := by
    refine Moved.same ?_
    unfold Database.clearStaleKey
    split
    · split <;> rfl
    · rfl
  exact hclear.trans ((moved_releasePrevious _ req now).trans (moved_expireStale _ req now))

/-- The rows move and no other table changes. -/
def Updates (db db' : Database) : Prop :=
  Moved db db' ∧ ∃ rows, db' = { db with bookings := rows }

theorem updates_confirmHold (db : Database) (holdID : Nat) (buyerID : String) (now : Int) :
    Updates db (confirmHold db holdID buyerID now).1 := by
  unfold confirmHold
  dsimp only
  split
  · exact ⟨.same rfl, _, rfl⟩
  refine ⟨.update db (fun b hb => ?_) fun b => ⟨rfl, rfl, rfl, rfl, Status.noConfusion⟩, _, rfl⟩
  simp only [Bool.and_eq_true, decide_eq_true_eq] at hb
  exact hb.1.2

theorem updates_releaseHold (db : Database) (holdID : Nat) (buyerID : String) (now : Int) :
    Updates db (releaseHold db holdID buyerID now).1 := by
  unfold releaseHold
  dsimp only
  split
  · exact ⟨.same rfl, _, rfl⟩
  refine ⟨.update db (fun b hb => ?_) fun b => ⟨rfl, rfl, rfl, rfl, Status.noConfusion⟩, _, rfl⟩
  simp only [Bool.and_eq_true, decide_eq_true_eq] at hb
  exact hb.2

/-! ## Steps -/

inductive Changes (db db' : Database) : Prop
  | moved (h : Moved db db')
  | inserted (d : Database) (b : Row) (h : Moved db d) (hstatus : b.status = .held)
      (hseat : activeSeat.conflicts d.bookings b = false)
      (hbuyer : oneHeldPerBuyer.conflicts d.bookings b = false)
      (hrows : db'.bookings = d.bookings ++ [b])

variable {d' : Database} {req : HoldRequest} {now : Int}

theorem changes_insertHeld {row : Row} (hd : Moved db d)
    (h : d.insertHeld req now = (d', .ok row)) : Changes db d' := by
  unfold Database.insertHeld at h
  dsimp only at h
  split at h
  · cases h
  rename_i hconf
  rw [Bool.not_eq_true, Bool.or_eq_false_iff] at hconf
  split at h <;> cases h
  exact .inserted d _ hd rfl hconf.1 hconf.2 rfl

theorem changes_rollback (db d : Database) : Changes db (rollback db d) := .moved (.same rfl)

theorem changes_commitTx (h : Changes db d) (f : Faults) (row : Row) :
    Changes db (commitTx f db d row).1 := by
  unfold commitTx
  cases f.commit with
  | received => exact h
  | lost applied =>
    cases applied with
    | true => exact h
    | false => exact changes_rollback db d

theorem Changes.congr (h : Changes db d) (hd : d'.bookings = d.bookings) :
    Changes db d' := by
  cases h with
  | moved h => exact .moved (h.trans (.same hd))
  | inserted e b h hstatus hseat hbuyer hrows =>
    exact .inserted e b h hstatus hseat hbuyer (hd.trans hrows)

theorem changes_holdTx (req : HoldRequest) (stale : Nat) (now : Int) (f : Faults) (db : Database) :
    Changes db (holdTx req stale now f db).1 := by
  unfold holdTx
  dsimp only
  split
  · exact .moved (.same rfl)
  split
  · exact changes_rollback db _
  · exact changes_rollback db _
  rename_i d row hins
  have hd := changes_insertHeld (moved_beforeInsert req stale now db) hins
  split
  · exact changes_commitTx hd f row
  split
  · exact changes_rollback db _
  split
  · exact changes_rollback db _
  · refine changes_commitTx (hd.congr ?_) f row
    rfl

theorem changes_answer (h : Moved db db') (a : Answer) :
    Changes db (a.apply db db') := by
  cases a with
  | received => exact .moved h
  | lost applied =>
    cases applied with
    | true => exact .moved h
    | false => exact .moved (.same rfl)

variable {s : State}

theorem changes_step (h : step s a = some s') : Changes s.db s'.db := by
  cases stepped_of_step h with
  | placed hcall | lookedUp hcall => exact .moved (.same rfl)
  | held hcall => exact changes_holdTx _ _ _ _ _
  | rechecked hcall => exact .moved (.same rfl)
  | @confirmed holdID buyerID now answer => exact changes_answer (updates_confirmHold ..).1 answer
  | @released holdID buyerID now answer => exact changes_answer (updates_releaseHold ..).1 answer

/-! ## The indexes along a run -/

structure Inv (s : State) : Prop where
  seat : activeSeat.Holds s.db.bookings
  buyer : oneHeldPerBuyer.Holds s.db.bookings

theorem holds_of_moved (h : Moved db db') (hseat : activeSeat.Holds db.bookings)
    (hbuyer : oneHeldPerBuyer.Holds db.bookings) :
    activeSeat.Holds db'.bookings ∧ oneHeldPerBuyer.Holds db'.bookings := by
  obtain ⟨f, hf, hm⟩ := h
  rw [hf]
  exact ⟨hseat.update fun b _ hc => (hm b).activeSeat hc,
    hbuyer.update fun b _ hc => (hm b).oneHeldPerBuyer hc⟩

theorem inv_step (hs : Inv s) (h : step s a = some s') : Inv s' := by
  cases changes_step h with
  | moved h =>
    obtain ⟨hseat, hbuyer⟩ := holds_of_moved h hs.seat hs.buyer
    exact ⟨hseat, hbuyer⟩
  | inserted d b h _ hcs hcb hrows =>
    obtain ⟨hseat, hbuyer⟩ := holds_of_moved h hs.seat hs.buyer
    refine ⟨?_, ?_⟩ <;> rw [hrows]
    · exact hseat.insert hcs
    · exact hbuyer.insert hcb

theorem inv_run {seats : List (String × String)} {matchIDs : List String} {as : List Label}
    (h : run step (initial seats matchIDs) as = some s) : Inv s :=
  run_invariant (fun _ _ _ hs hstep => inv_step hs hstep)
    ⟨UniqueIndex.holds_nil, UniqueIndex.holds_nil⟩ h

theorem Changes.row (h : Changes db db') {i : Nat} (hb : db.bookings[i]? = some b) :
    ∃ b', db'.bookings[i]? = some b' ∧ RowMove b b' := by
  have hmoved : ∀ d, Moved db d → ∃ b', d.bookings[i]? = some b' ∧ RowMove b b' := by
    rintro d ⟨f, hf, hm⟩
    exact ⟨f b, by rw [hf, getElem?_map, hb, Option.map_some], hm b⟩
  cases h with
  | moved h => exact hmoved _ h
  | inserted d c h _ _ _ hrows =>
    obtain ⟨b', hb', hmove⟩ := hmoved d h
    refine ⟨b', ?_, hmove⟩
    rw [hrows, getElem?_append_left (List.getElem?_eq_some_iff.mp hb').1, hb']

theorem Changes.mem_of_not_held (h : Changes db db') (hb : b ∈ db.bookings)
    (hstatus : b.status ≠ .held) : b ∈ db'.bookings := by
  obtain ⟨i, hi⟩ := mem_iff_getElem?.mp hb
  obtain ⟨b', hb', hmove⟩ := h.row hi
  rcases hmove.status with rfl | ⟨hheld, -⟩
  · exact mem_iff_getElem?.mpr ⟨i, hb'⟩
  · exact absurd hheld hstatus

/-! ## Refused inserts -/

theorem mem_of_mem_update {P : Row → Prop}
    (hset : ∀ b, ¬ P (set b)) (hb : b ∈ (db.update selects set).bookings) (hP : P b) :
    b ∈ db.bookings ∧ selects b = false := by
  obtain ⟨c, hc, rfl⟩ := mem_map.mp hb
  by_cases h : selects c = true
  · rw [if_pos h] at hP
    exact absurd hP (hset c)
  · rw [if_neg h]
    exact ⟨hc, Bool.not_eq_true _ ▸ h⟩

theorem active_beforeInsert (hb : b ∈ (beforeInsert req stale now db).bookings)
    (hactive : activeSeat.covers b = true) :
    b ∈ db.bookings ∧ (b.status = .held → b.matchID = req.matchID → b.buyerID = req.buyerID →
      b.seatID = req.seatID) := by
  have hexpire := mem_of_mem_update (P := fun b => activeSeat.covers b = true)
    (fun b => by simp [activeSeat]) hb hactive
  have hrelease := mem_of_mem_update (P := fun b => activeSeat.covers b = true)
    (fun b => by simp [activeSeat]) hexpire.1 hactive
  refine ⟨?_, fun hheld hmatch hbuyer => ?_⟩
  · have hclear : (if stale ≠ 0 then db.clearStaleKey req.idemKey stale else db).bookings =
        db.bookings := by
      unfold Database.clearStaleKey
      split
      · split <;> rfl
      · rfl
    rw [← hclear]
    exact hrelease.1
  · have hsel := hrelease.2
    simp only [hheld, hmatch, hbuyer, decide_true, Bool.and_self, Bool.true_and, ne_eq,
      decide_eq_false_iff_not, not_not] at hsel
    exact hsel

theorem active_of_conflicts {rows : List Row}
    (hbuyer : ∀ q ∈ rows, q.status = .held → q.matchID = b.matchID → q.buyerID = b.buyerID →
      q.seatID = b.seatID)
    (h : (activeSeat.conflicts rows b || oneHeldPerBuyer.conflicts rows b) = true) :
    ∃ q ∈ rows, activeSeat.covers q = true ∧ q.matchID = b.matchID ∧ q.seatID = b.seatID := by
  rw [Bool.or_eq_true, UniqueIndex.conflicts_eq_true, UniqueIndex.conflicts_eq_true] at h
  rcases h with ⟨-, q, hq, hc, hkey⟩ | ⟨-, q, hq, hc, hkey⟩
  · obtain ⟨hmatch, hseat⟩ := Prod.mk.inj hkey
    exact ⟨q, hq, hc, hmatch, hseat⟩
  obtain ⟨hmatch, hbuyerEq⟩ := Prod.mk.inj hkey
  have hheld : q.status = .held := of_decide_eq_true hc
  exact ⟨q, hq, by simp [activeSeat, hheld], hmatch, hbuyer q hq hheld hmatch hbuyerEq⟩

theorem insertHeld_conflict (hbuyer : ∀ q ∈ d.bookings, q.status = .held → q.matchID = req.matchID →
      q.buyerID = req.buyerID → q.seatID = req.seatID)
    (h : d.insertHeld req now = (d', .error .uniqueViolation)) :
    ∃ q ∈ d.bookings, activeSeat.covers q = true ∧ q.matchID = req.matchID ∧
      q.seatID = req.seatID := by
  unfold Database.insertHeld at h
  dsimp only at h
  split at h
  · rename_i hconf
    exact active_of_conflicts hbuyer hconf
  · split at h <;> cases h

theorem commitTx_ne_insertConflict (f : Faults) (db d : Database) (row : Row) :
    (commitTx f db d row).2 ≠ .insertConflict := by
  unfold commitTx
  cases f.commit <;> simp

theorem active_of_insertConflict {f : Faults}
    (h : (holdTx req stale now f db).2 = .insertConflict) :
    ∃ b ∈ db.bookings, b ∈ (beforeInsert req stale now db).bookings ∧
      activeSeat.covers b = true ∧ b.matchID = req.matchID ∧ b.seatID = req.seatID := by
  unfold holdTx at h
  dsimp only at h
  split at h
  · cases h
  split at h
  · rename_i d hins
    have hbuyer : ∀ q ∈ (beforeInsert req stale now db).bookings, q.status = .held →
        q.matchID = req.matchID → q.buyerID = req.buyerID → q.seatID = req.seatID :=
      fun q hq hheld => (active_beforeInsert hq (by simp [activeSeat, hheld])).2 hheld
    obtain ⟨q, hq, hc, hmatch, hseat⟩ := insertHeld_conflict hbuyer hins
    exact ⟨q, (active_beforeInsert hq hc).1, hq, hc, hmatch, hseat⟩
  · cases h
  split at h
  · exact absurd h (commitTx_ne_insertConflict _ _ _ _)
  split at h <;> try cases h
  split at h
  · cases h
  · exact absurd h (commitTx_ne_insertConflict _ _ _ _)

/-- In every state `s` that a run reaches, and for every step from it: a seat of a
match has at most one held or confirmed booking; a buyer has at most one held
booking per match; a booking stays in its row and its status only goes from held to
confirmed, expired or cancelled; a confirmed row is unchanged by any hold
transaction; and a hold transaction whose insert is a unique violation finds an
active booking on the seat it asked for. -/
theorem hold_path_invariants {seats : List (String × String)} {matchIDs : List String}
    {as : List Label} {s : State} (h : run step (initial seats matchIDs) as = some s) :
    (∀ matchID seatID, s.db.bookings.countP (fun b =>
      (b.status = .held || b.status = .confirmed) &&
        decide ((b.matchID, b.seatID) = (matchID, seatID))) ≤ 1) ∧
    (∀ matchID buyerID, s.db.bookings.countP (fun b =>
      b.status = .held && decide ((b.matchID, b.buyerID) = (matchID, buyerID))) ≤ 1) ∧
    (∀ a s', step s a = some s' → ∀ (i : Nat) (b : Row), s.db.bookings[i]? = some b →
      ∃ b', s'.db.bookings[i]? = some b' ∧ b'.id = b.id ∧ (b'.status = b.status ∨
        b.status = .held ∧ b'.status ∈ [Status.confirmed, .expired, .cancelled])) ∧
    (∀ req stale now f, ∀ b ∈ s.db.bookings, b.status = .confirmed →
      b ∈ (holdTx req stale now f s.db).1.bookings) ∧
    (∀ req stale now f, (holdTx req stale now f s.db).2 = .insertConflict →
      ∃ b ∈ s.db.bookings, (b.status = .held ∨ b.status = .confirmed) ∧
        b.matchID = req.matchID ∧ b.seatID = req.seatID) := by
  have hinv := inv_run h
  refine ⟨fun m seat => hinv.seat.countP_le_one (m, seat),
    fun m buyer => hinv.buyer.countP_le_one (m, buyer), ?_, ?_, ?_⟩
  · intro a s' hstep i b hb
    obtain ⟨b', hb', hmove⟩ := (changes_step hstep).row hb
    refine ⟨b', hb', hmove.id, ?_⟩
    rcases hmove.status with rfl | ⟨hheld, hne⟩
    · exact .inl rfl
    refine .inr ⟨hheld, ?_⟩
    cases hstatus : b'.status with
    | held => exact absurd hstatus hne
    | _ => decide
  · intro req stale now f b hb hconfirmed
    refine (changes_holdTx req stale now f s.db).mem_of_not_held hb ?_
    rw [hconfirmed]
    exact Status.noConfusion
  intro req stale now f hconf
  obtain ⟨b, hb, -, hc, hmatch, hseat⟩ := active_of_insertConflict hconf
  simp only [activeSeat, Bool.or_eq_true, decide_eq_true_eq] at hc
  exact ⟨b, hb, hc, hmatch, hseat⟩

theorem hold_path_invariants_contended :
    ∃ s ∈ run step (initial [("m1", "NORTH-1"), ("m1", "NORTH-2")] ["m1"])
        [.place 1 ⟨"m1", "NORTH-1", "alice", 300000000000, ""⟩, .hold 1 10 ⟨none, .received⟩,
         .place 2 ⟨"m1", "NORTH-1", "bob", 300000000000, "key-2"⟩,
         .lookup 2 20 true],
      s.db.bookings.countP (fun b => (b.status = .held || b.status = .confirmed) &&
        decide ((b.matchID, b.seatID) = ("m1", "NORTH-1"))) ≤ 1 ∧
      ∃ b ∈ s.db.bookings, (b.status = .held ∨ b.status = .confirmed) ∧
        b.matchID = "m1" ∧ b.seatID = "NORTH-1" := by
  refine exists_some_imp (A := fun s => (holdTx ⟨"m1", "NORTH-1", "bob", 300000000000,
    "key-2"⟩ 0 30 ⟨none, .received⟩ s.db).2 = .insertConflict)
    (by decide) fun s hs hconflict => ?_
  have h := hold_path_invariants hs
  exact ⟨h.1 "m1" "NORTH-1", h.2.2.2.2 _ _ _ _ hconflict⟩

end GoServices.Booking
