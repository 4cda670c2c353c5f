/-
Calls of `PlaceHoldWithKey` that share a key.

A key is recorded in the transaction that inserts its booking, and the only statement that
deletes it does so in a transaction that records it again.
-/
import GoServices.Booking.Constraints

namespace GoServices.Booking

open List Table

/-- A committed insert of `placeHold` with the rows of `bookings` after it. -/
structure Created where
  key : String
  booking : Row
  table : List Row

def created (s : State) : Label → List Created
  | .hold i now f =>
    match s.calls.get? i with
    | some ⟨req, .tx stale⟩ =>
      let rows := (holdTx req stale now f s.db).1.bookings
      (rows.filter fun b => s.db.nextID ≤ b.id).map fun b => ⟨req.idemKey, b, rows⟩
    | _ => []
  | _ => []

def Dead (rows : List Row) (id : Nat) : Prop :=
  ∃ b ∈ rows, b.id = id ∧ (b.status = .expired ∨ b.status = .cancelled)

def BookedFor (rows : List Row) (req : HoldRequest) (id : Nat) : Prop :=
  ∃ b ∈ rows, b.id = id ∧ b.matchID = req.matchID ∧ b.seatID = req.seatID ∧ b.buyerID = req.buyerID

section
variable {db d : Database} {id : Nat} {req : HoldRequest}

theorem Dead.moved (h : Dead db.bookings id) (hm : Moved db d) : Dead d.bookings id := by
  obtain ⟨b, hb, hid, hstatus⟩ := h
  obtain ⟨b', hb', hmove⟩ := hm.image hb
  refine ⟨b', hb', hmove.id.trans hid, ?_⟩
  rcases hmove.status with rfl | ⟨hheld, -⟩
  · exact hstatus
  · rw [hheld] at hstatus
    rcases hstatus with h | h <;> cases h

theorem Dead.append {rows : List Row} (h : Dead rows id) (rows' : List Row) :
    Dead (rows ++ rows') id := by
  obtain ⟨b, hb, hdead⟩ := h
  exact ⟨b, mem_append_left _ hb, hdead⟩

theorem BookedFor.moved (h : BookedFor db.bookings req id) (hm : Moved db d) :
    BookedFor d.bookings req id := by
  obtain ⟨b, hb, hid, hmatch, hseat, hbuyer⟩ := h
  obtain ⟨b', hb', hmove⟩ := hm.image hb
  exact ⟨b', hb', hmove.id.trans hid, hmove.matchID.trans hmatch, hmove.seatID.trans hseat,
    hmove.buyerID.trans hbuyer⟩

theorem BookedFor.append {rows : List Row} (h : BookedFor rows req id) (rows' : List Row) :
    BookedFor (rows ++ rows') req id := by
  obtain ⟨b, hb, hfor⟩ := h
  exact ⟨b, mem_append_left _ hb, hfor⟩

theorem dead_of_accepted {now : Int} (h : Accepted req now d) (hfor : BookedFor d.bookings req id) :
    Dead d.bookings id := by
  obtain ⟨b, hb, hid, hmatch, hseat, -⟩ := hfor
  refine ⟨b, hb, hid, ?_⟩
  have hinactive : activeSeat.covers b = false := by
    by_contra hactive
    rw [Bool.not_eq_false] at hactive
    have hconf := UniqueIndex.conflicts_eq_true.mpr
      ⟨rfl, b, hb, hactive, (Prod.ext hmatch hseat : _ = activeSeat.key (heldRow req now d.nextID))⟩
    rw [h.seatFree] at hconf
    cases hconf
  cases hstatus : b.status with
  | held | confirmed => simp [activeSeat, hstatus] at hinactive
  | expired => exact .inl rfl
  | cancelled => exact .inr rfl

end

/-! ## What the steps log -/

variable {s s' : State} {i stale : Nat} {now : Int} {f : Faults} {req : HoldRequest}

theorem hold_db (hcall : s.calls.get? i = some ⟨req, .tx stale⟩)
    (h : step s (.hold i now f) = some s') :
    (holdTx req stale now f s.db).1 = s'.db := by
  simp only [step, hcall] at h
  cases h
  rfl

variable {db : Database} {d : Database} {e : Created} {row : Row}

theorem drawn_before (hdb : Constraints db) (hm : Moved db d) :
    d.bookings.filter (fun b => db.nextID ≤ b.id) = [] := by
  refine filter_eq_nil_iff.mpr fun b hb hge => ?_
  obtain ⟨c, hc, hmove⟩ := hm.origin hb
  have hlt := (hdb.drawn c hc).2
  rw [decide_eq_true_eq, hmove.id] at hge
  omega

variable {a : Label}

theorem created_of_settles (hdb : Constraints s.db) (h : step s a = some s')
    (hsettles : Settles s.db s'.db) : created s a = [] := by
  unfold created
  split
  · split
    · rename_i req stale hcall
      rw [hold_db hcall h]
      simp [drawn_before hdb hsettles.moved]
    · rfl
  · rfl

theorem created_of_held (hdb : Constraints s.db) (h : step s (.hold i now f) = some s')
    (hcall : s.calls.get? i = some ⟨req, .tx stale⟩)
    (hheld : s'.db = withHold req now (beforeInsert req stale now s.db)) :
    created s (.hold i now f) = [⟨req.idemKey, heldRow req now s.db.nextID, s'.db.bookings⟩] := by
  have hnext := (beforeInsert_frame req stale now s.db).2.2
  have hrows : s'.db.bookings =
      (beforeInsert req stale now s.db).bookings ++ [heldRow req now s.db.nextID] := by
    rw [hheld, withHold, hnext]
  have hnew : ([heldRow req now s.db.nextID].filter fun b => s.db.nextID ≤ b.id) =
      [heldRow req now s.db.nextID] := by
    simp [heldRow]
  have hfilter : (s'.db.bookings.filter fun b => s.db.nextID ≤ b.id) =
      [heldRow req now s.db.nextID] := by
    rw [hrows, filter_append, drawn_before hdb (moved_beforeInsert req stale now s.db), hnew]
    rfl
  simp only [created, hcall]
  rw [hold_db hcall h, hfilter]
  rfl

/-! ## The bookings of a key -/

structure History (db : Database) (log : List Created) : Prop where
  table : Constraints db
  drawn : ∀ e ∈ log, e.booking.id < db.nextID
  ascending : log.Pairwise fun e e' => e.booking.id < e'.booking.id
  origin : ∀ k id, db.keys.get? k = some id → ∃ e ∈ log, e.key = k ∧ e.booking.id = id
  mapped : ∀ e ∈ log, e.key ≠ "" →
    db.keys.get? e.key = some e.booking.id ∨ Dead db.bookings e.booking.id
  replaced : log.Pairwise fun e e' => e.key = e'.key → e.key ≠ "" → Dead e'.table e.booking.id

variable {log : List Created}

theorem history_settles (h : History db log) (hd : Settles db d)
    (hkeys : d.keys = db.keys) : History d log := { h with
  table := h.table.settles hd
  drawn := fun e he => (h.drawn e he).trans_le hd.next
  origin := fun k id hk => h.origin k id (hd.keys k id hk)
  mapped := fun e he hkey => by
    rw [hkeys]
    exact (h.mapped e he hkey).imp_right fun hdead => hdead.moved hd.moved }

theorem dead_before_insert (h : History db log) (hkeyed : req.idemKey ≠ "")
    (hstale : stale ≠ 0 → BookedFor db.bookings req stale)
    (hacc : Accepted req now (beforeInsert req stale now db)) (he : e ∈ log)
    (hkey : e.key = req.idemKey) :
    Dead (beforeInsert req stale now db).bookings e.booking.id := by
  have hmoved := moved_beforeInsert req stale now db
  rcases h.mapped e he (hkey ▸ hkeyed) with hmapped | hdead
  · -- the key pointed at the booking, so the transaction has deleted it as stale
    have hfree := hacc.key hkeyed
    rw [beforeInsert_keys] at hfree
    split at hfree
    · rename_i hclear
      rw [hkey, hclear.2] at hmapped
      rw [← Option.some.inj hmapped]
      exact dead_of_accepted hacc ((hstale hclear.1).moved hmoved)
    · rw [hkey, hfree] at hmapped
      cases hmapped
  · exact hdead.moved hmoved

theorem keys_other {k : String} (hk : k ≠ req.idemKey) :
    (withHold req now (beforeInsert req stale now db)).keys.get? k = db.keys.get? k := by
  have hbefore : (beforeInsert req stale now db).keys.get? k = db.keys.get? k := by
    rw [beforeInsert_keys]
    split
    · rw [get?_erase, if_neg hk]
    · rfl
  rw [withHold]
  split
  · exact hbefore
  · rw [get?_set, if_neg hk, hbefore]

theorem keys_own (hkeyed : req.idemKey ≠ "") :
    (withHold req now (beforeInsert req stale now db)).keys.get? req.idemKey = some db.nextID := by
  rw [withHold]
  rw [if_neg hkeyed, get?_set_self, (beforeInsert_frame req stale now db).2.2]

theorem history_held (h : History db log) (hstale : stale ≠ 0 → BookedFor db.bookings req stale)
    (hacc : Accepted req now (beforeInsert req stale now db)) :
    let db' := withHold req now (beforeInsert req stale now db)
    History db' (log ++ [⟨req.idemKey, heldRow req now db.nextID, db'.bookings⟩]) := by
  intro db'
  have hnext := (beforeInsert_frame req stale now db).2.2
  have hsettles := settles_beforeInsert req stale now db
  have hdead : req.idemKey ≠ "" → ∀ e ∈ log, e.key = req.idemKey → Dead db'.bookings e.booking.id :=
    fun hkeyed e he hkey => (dead_before_insert h hkeyed hstale hacc he hkey).append _
  constructor
  · exact (h.table.settles hsettles).withHold hacc
  · intro e he
    show e.booking.id < (beforeInsert req stale now db).nextID + 1
    rw [hnext]
    obtain he | rfl := mem_concat_cases he
    · exact Nat.lt_succ_of_lt (h.drawn e he)
    · exact Nat.lt_succ_self _
  · refine pairwise_append.mpr
      ⟨h.ascending, pairwise_singleton _ _, fun e he e' he' => ?_⟩
    cases mem_singleton.mp he'
    exact h.drawn e he
  · intro k id hk
    by_cases hown : k = req.idemKey ∧ req.idemKey ≠ ""
    · obtain ⟨rfl, hkeyed⟩ := hown
      rw [keys_own hkeyed] at hk
      exact ⟨_, mem_concat_self, rfl, Option.some.inj hk⟩
    have hold : db.keys.get? k = some id := by
      by_cases hk' : k = req.idemKey
      · have hempty : req.idemKey = "" := not_not.mp fun hkeyed => hown ⟨hk', hkeyed⟩
        simp only [db', withHold, if_pos hempty] at hk
        exact hsettles.keys k id hk
      · exact (keys_other hk').symm.trans hk
    obtain ⟨e, he, hkey, hid⟩ := h.origin k id hold
    exact ⟨e, mem_append_left _ he, hkey, hid⟩
  · intro e he hkey
    obtain he | rfl := mem_concat_cases he
    · by_cases hown : e.key = req.idemKey
      · exact .inr (hdead (hown ▸ hkey) e he hown)
      · rcases h.mapped e he hkey with hmapped | hgone
        · exact .inl ((keys_other hown).trans hmapped)
        · exact .inr ((hgone.moved hsettles.moved).append _)
    · exact .inl (keys_own hkey)
  · refine pairwise_append.mpr ⟨h.replaced, pairwise_singleton _ _, fun e he e' he' => ?_⟩
    cases mem_singleton.mp he'
    exact fun hkey hkeyed => hdead (fun hempty => hkeyed (hkey.trans hempty)) e he hkey

/-! ## The calls -/

theorem lookup_spec (h : lookupIdempotentHold db req now = .live row ∨
      lookupIdempotentHold db req now = .dead row) :
    db.keys.get? req.idemKey = some row.id ∧ row ∈ db.bookings ∧ row.matchID = req.matchID ∧
      row.seatID = req.seatID ∧ row.buyerID = req.buyerID := by
  unfold lookupIdempotentHold at h
  split at h
  · rcases h with h | h <;> cases h
  rename_i row' hrow
  obtain ⟨id, hkey, hfind⟩ := Option.bind_eq_some_iff.mp hrow
  have hmem := mem_of_find?_eq_some hfind
  have hfound := find?_some hfind
  have hid : row'.id = id := of_decide_eq_true hfound
  split at h
  · rcases h with h | h <;> cases h
  rename_i hparams
  have heq : row' = row := by
    split at h
    all_goals
      rcases h with h | h <;> cases h
      rfl
  subst heq
  simp only [not_or, not_not] at hparams
  exact ⟨hid ▸ hkey, hmem, hparams.1, hparams.2.1, hparams.2.2⟩

def CallSound (db : Database) (log : List Created) (c : Call) : Prop :=
  match c.pc with
  | .tx stale => stale ≠ 0 → BookedFor db.bookings c.req stale
  | .done (.ok row) =>
    (row.matchID = c.req.matchID ∧ row.seatID = c.req.seatID ∧ row.buyerID = c.req.buyerID) ∧
      BookedFor db.bookings c.req row.id ∧
      (c.req.idemKey ≠ "" → ∃ e ∈ log, e.key = c.req.idemKey ∧ e.booking.id = row.id)
  | _ => True

structure Sound (p : State × List Created) : Prop where
  history : History p.1.db p.2
  calls : ∀ i c, p.1.calls.get? i = some c → CallSound p.1.db p.2 c

theorem CallSound.mono {db' : Database} {log' : List Created} {c : Call} (h : CallSound db log c)
    (hrows : ∀ req id, BookedFor db.bookings req id → BookedFor db'.bookings req id)
    (hlog : ∀ e ∈ log, e ∈ log') : CallSound db' log' c := by
  obtain ⟨req, pc⟩ := c
  cases pc with
  | lookup => trivial
  | tx stale => exact fun hstale => hrows req stale (h hstale)
  | recheck => trivial
  | done result =>
    cases result with
    | error e => trivial
    | ok row =>
      obtain ⟨hparams, hfor, hlogged⟩ := h
      refine ⟨hparams, hrows req row.id hfor, fun hkeyed => ?_⟩
      obtain ⟨e, he, hrest⟩ := hlogged hkeyed
      exact ⟨e, hlog e he, hrest⟩

theorem callSound_live (h : History db log) (hlive : lookupIdempotentHold db req now = .live row) :
    CallSound db log ⟨req, .done (.ok row)⟩ := by
  obtain ⟨hkey, hmem, hparams⟩ := lookup_spec (.inl hlive)
  exact ⟨hparams, ⟨row, hmem, rfl, hparams⟩, fun _ => h.origin _ _ hkey⟩

theorem callSound_lookup (h : History db log) (req : HoldRequest) (now : Int) :
    CallSound db log ⟨req, afterLookup (lookupIdempotentHold db req now)⟩ := by
  cases hl : lookupIdempotentHold db req now with
  | miss => exact fun h => absurd rfl h
  | live row => exact callSound_live h hl
  | dead row =>
    obtain ⟨-, hmem, hparams⟩ := lookup_spec (.inr hl)
    exact fun _ => ⟨row, hmem, rfl, hparams⟩
  | mismatch => trivial

theorem callSound_recheck (h : History db log) (req : HoldRequest) (now : Int) :
    CallSound db log ⟨req, afterRecheck (lookupIdempotentHold db req now)⟩ := by
  cases hl : lookupIdempotentHold db req now with
  | live row => exact callSound_live h hl
  | _ => trivial

theorem history_step (hp : Sound (s, log)) (h : step s a = some s') :
    History s'.db (log ++ created s a) ∧
      ∀ req id, BookedFor s.db.bookings req id → BookedFor s'.db.bookings req id := by
  cases table_step h with
  | settles hsettles hkeys =>
    rw [created_of_settles hp.history.table h hsettles, append_nil]
    exact ⟨history_settles hp.history hsettles hkeys, fun _ _ hfor => hfor.moved hsettles.moved⟩
  | held req stale now hcall hacc hdb =>
    rw [created_of_held hp.history.table h hcall hdb, hdb]
    refine ⟨history_held hp.history (hp.calls _ _ hcall) hacc, fun _ _ hfor => ?_⟩
    exact (hfor.moved (moved_beforeInsert req stale now s.db)).append _

theorem callSound_hold (hp : Sound (s, log)) (h : step s (.hold i now f) = some s')
    (hcall : s.calls.get? i = some ⟨req, .tx stale⟩) :
    CallSound s'.db (log ++ created s (.hold i now f))
      ⟨req, afterTx req (holdTx req stale now f s.db).2⟩ := by
  cases hres : (holdTx req stale now f s.db).2 with
  | ok row =>
    rcases holdTx_cases req stale now f s.db with ⟨-, hno⟩ | ⟨-, hdb, hok⟩
    · exact absurd hres (hno row)
    rcases hok with hok | hfailed
    · cases hok.symm.trans hres
      have hdb' := (hold_db hcall h).symm.trans hdb
      have hmem : heldRow req now s.db.nextID ∈ s'.db.bookings := by
        rw [hdb', withHold, (beforeInsert_frame req stale now s.db).2.2]
        exact mem_concat_self
      refine ⟨⟨rfl, rfl, rfl⟩, ⟨_, hmem, rfl, rfl, rfl, rfl⟩, fun _ => ?_⟩
      rw [created_of_held hp.history.table h hcall hdb']
      exact ⟨_, mem_concat_self, rfl, rfl⟩
    · cases hfailed.symm.trans hres
  | insertConflict =>
    rw [afterTx]
    split <;> trivial
  | keyConflict | failed stage => trivial

theorem sound_step {p q : State × List Created} (hp : Sound p)
    (h : logged step created p a = some q) : Sound q := by
  obtain ⟨s, log⟩ := p
  obtain ⟨s', log'⟩ := q
  obtain ⟨hstep, hlog⟩ := logged_eq_some.mp h
  subst hlog
  obtain ⟨hhistory, hrows⟩ := history_step hp hstep
  refine ⟨hhistory, fun j c hc => ?_⟩
  have hold : s.calls.get? j = some c → CallSound s'.db (log ++ created s a) c :=
    fun hc => (hp.calls j c hc).mono hrows fun e he => mem_append_left _ he
  -- one call has moved, to a place that `hmoved` vouches for
  have hwritten : ∀ {i c'}, (∀ j, s'.calls.get? j = if j = i then some c' else s.calls.get? j) →
      CallSound s'.db (log ++ created s a) c' → CallSound s'.db (log ++ created s a) c := by
    intro i c' hcalls hmoved
    rcases update_cases hcalls hc with ⟨-, rfl⟩ | ⟨-, hc⟩
    · exact hmoved
    · exact hold hc
  cases stepped_of_step hstep with
  | @placed i req hcall =>
    refine hwritten (s.calls.get?_set i _) ?_
    rw [CallSound, Pc.start]
    split
    · rename_i hpc
      split at hpc <;> cases hpc
      exact fun h => absurd rfl h
    · rename_i hpc
      split at hpc <;> cases hpc
    · trivial
  | @lookedUp i now answered req hcall =>
    refine hwritten (s.calls.get?_set i _) ?_
    cases answered with
    | true => exact callSound_lookup hhistory _ now
    | false => trivial
  | @held i now f req stale hcall =>
    exact hwritten (s.calls.get?_set i _) (callSound_hold hp hstep hcall)
  | @rechecked i now answered req hcall =>
    refine hwritten (s.calls.get?_set i _) ?_
    cases answered with
    | true => exact callSound_recheck hhistory _ now
    | false => trivial
  | confirmed | released => exact hold hc

theorem sound_initial (seats : List (String × String)) (matchIDs : List String) :
    Sound (initial seats matchIDs, []) where
  history := {
    table := constraints_initial seats matchIDs
    drawn := nofun
    ascending := List.Pairwise.nil
    origin := nofun
    mapped := nofun
    replaced := List.Pairwise.nil }
  calls _ _ hc := by cases hc

theorem History.dead_of_lt (h : History db log) {e' : Created} (he : e ∈ log) (he' : e' ∈ log)
    (hkey : e.key = e'.key) (hkeyed : e.key ≠ "") (hlt : e.booking.id < e'.booking.id) :
    Dead e'.table e.booking.id := by
  obtain ⟨i, hi, rfl⟩ := getElem_of_mem he
  obtain ⟨j, hj, rfl⟩ := getElem_of_mem he'
  rcases Nat.lt_trichotomy i j with hij | rfl | hji
  · exact pairwise_iff_getElem.mp h.replaced i j hi hj hij hkey hkeyed
  · exact absurd hlt (Nat.lt_irrefl _)
  · have hgt := pairwise_iff_getElem.mp h.ascending j i hj hi hji
    omega

/-- In every interleaving: a call that succeeded returned a booking for exactly the match,
seat and buyer it asked for, and that booking is in the table; and two calls with one key
that both succeeded returned the same booking, unless the booking with the smaller id was
expired or cancelled in the table that the creation of the other one left. -/
theorem keyed_calls_return_one_booking {seats : List (String × String)} {matchIDs : List String}
    {as : List Label} {s : State} {log : List Created}
    (hrun : run (logged step created) (initial seats matchIDs, []) as = some (s, log)) :
    (∀ i req row, s.calls.get? i = some ⟨req, .done (.ok row)⟩ →
      (row.matchID = req.matchID ∧ row.seatID = req.seatID ∧ row.buyerID = req.buyerID) ∧
        BookedFor s.db.bookings req row.id) ∧
    (∀ i j req req' row row', s.calls.get? i = some ⟨req, .done (.ok row)⟩ →
      s.calls.get? j = some ⟨req', .done (.ok row')⟩ → req.idemKey = req'.idemKey →
      req.idemKey ≠ "" → row.id ≤ row'.id →
      row.id = row'.id ∨ ∃ e ∈ log, e.key = req.idemKey ∧ e.booking.id = row'.id ∧
        Dead e.table row.id) := by
  have hsound : Sound (s, log) :=
    run_invariant (fun _ _ _ hp h => sound_step hp h) (sound_initial seats matchIDs) hrun
  refine ⟨fun i req row hcall => ?_, fun i j req req' row row' hi hj hkey hkeyed hle => ?_⟩
  · obtain ⟨hparams, hfor, -⟩ := hsound.calls i _ hcall
    exact ⟨hparams, hfor⟩
  obtain ⟨-, -, hlogged⟩ := hsound.calls i _ hi
  obtain ⟨-, -, hlogged'⟩ := hsound.calls j _ hj
  obtain ⟨e, he, hek, heid⟩ := hlogged hkeyed
  obtain ⟨e', he', hek', heid'⟩ := hlogged' (hkey ▸ hkeyed)
  rcases Nat.eq_or_lt_of_le hle with heq | hlt
  · exact .inl heq
  refine .inr ⟨e', he', hek'.trans hkey.symm, heid', heid ▸ ?_⟩
  exact hsound.history.dead_of_lt he he' ((hek.trans hkey).trans hek'.symm) (hek ▸ hkeyed)
    (by rw [heid, heid']; exact hlt)

def demoRequest : HoldRequest := ⟨"m1", "NORTH-1", "alice", 1000, "key-1"⟩

def demoRetry : List Label :=
  [.place 1 demoRequest, .lookup 1 10 true, .hold 1 10 ⟨none, .received⟩,
    .place 2 demoRequest, .lookup 2 20 true, .hold 2 20 ⟨none, .received⟩]

theorem keyed_calls_return_one_booking_retry :
    ∃ p ∈ run (logged step created) (initial [("m1", "NORTH-1")] ["m1"], []) demoRetry,
      ∃ e ∈ p.2, e.key = "key-1" ∧ e.booking.id = 2 ∧ Dead e.table 1 := by
  refine exists_some_imp (A := fun p =>
      p.1.calls.get? 1 = some ⟨demoRequest, .done (.ok (heldRow demoRequest 10 1))⟩ ∧
      p.1.calls.get? 2 = some ⟨demoRequest, .done (.ok (heldRow demoRequest 20 2))⟩)
    (by decide +kernel) fun p hrun ⟨hfirst, hsecond⟩ => ?_
  have hone := (keyed_calls_return_one_booking hrun).2 1 2 _ _ _ _ hfirst hsecond rfl (by decide)
    (by decide)
  exact hone.resolve_left (by decide)

end GoServices.Booking
