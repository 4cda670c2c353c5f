/-
The Postgres store beside the in-memory one.

`subscriptions` is a list of rows under two unique indexes, the primary key on `id` and the one
on `provider_subscription_id`.
-/
import GoServices.Base.Answers
import GoServices.Base.UniqueIndex
import GoServices.SubscriptionCore.Calls

namespace GoServices.SubscriptionCore.Postgres

open List Table

/-! ## The database -/

structure Db where
  rows : List Subscription
  events : List String

def Db.new : Db := { rows := [], events := [] }

inductive SqlError
  | outOfRange
  | invalidText
  | uniqueViolation
  deriving DecidableEq

/-- `store.ErrNotFound`, or what went wrong in the database under the text that wraps it. -/
inductive Error
  | store (e : StoreError)
  | failed (op : String) (e : SqlError)
  deriving DecidableEq

/-- A `TEXT` value has no NUL character. -/
def PlainText (s : String) : Prop := '\x00' ∉ s.toList
  deriving Decidable

/-- `seat_count` is an `INT`. -/
def SeatsFit (sub : Subscription) : Prop := -(2 ^ 31) ≤ sub.seatCount ∧ sub.seatCount < 2 ^ 31
  deriving Decidable

def Texts (sub : Subscription) : Prop :=
  PlainText sub.id ∧ PlainText sub.customerID ∧ PlainText sub.providerSubID ∧
    PlainText sub.planID ∧ PlainText sub.status.text
  deriving Decidable

def primaryKey : UniqueIndex Subscription String where
  covers _ := true
  key := Subscription.id

def providerKey : UniqueIndex Subscription String where
  covers _ := true
  key := Subscription.providerSubID

/-- `ON CONFLICT (provider_subscription_id) DO UPDATE`: the columns of the row that are set. -/
def overwrite (sub row : Subscription) : Subscription :=
  if row.providerSubID = sub.providerSubID then
    { sub with id := row.id, providerSubID := row.providerSubID }
  else row

def upsert (db : Db) (sub : Subscription) : Db × Except Error Unit :=
  if ¬ SeatsFit sub then (db, .error (.failed "upsert subscription" .outOfRange))
  else if ¬ Texts sub then (db, .error (.failed "upsert subscription" .invalidText))
  else if providerKey.conflicts db.rows sub then
    ({ db with rows := db.rows.map (overwrite sub) }, .ok ())
  else if primaryKey.conflicts db.rows sub then
    (db, .error (.failed "upsert subscription" .uniqueViolation))
  else ({ db with rows := db.rows ++ [sub] }, .ok ())

def getByProviderID (db : Db) (id : String) : Except Error Subscription :=
  if PlainText id then
    match db.rows.find? fun r => r.providerSubID = id with
    | some row => .ok row
    | none => .error (.store .notFound)
  else .error (.failed "get subscription by provider id" .invalidText)

/-- The rows that can come first in `ORDER BY provider_updated_at DESC`. -/
def newest (rows : List Subscription) (subject : String) : List Subscription :=
  rows.filter fun r => r.customerID = subject ∧
    ∀ q ∈ rows, q.customerID = subject → q.providerUpdatedAt ≤ r.providerUpdatedAt

def getBySubject (db : Db) (subject : String) (pick : Nat) : Except Error Subscription :=
  if PlainText subject then
    match ((newest db.rows subject).rotate pick).head? with
    | some row => .ok row
    | none => .error (.store .notFound)
  else .error (.failed "get subscription by subject" .invalidText)

def markProcessed (db : Db) (id : String) : Db × Except Error Bool :=
  if PlainText id then
    if id ∈ db.events then (db, .ok false) else ({ db with events := id :: db.events }, .ok true)
  else (db, .error (.failed "mark webhook processed" .invalidText))

/-! ## Calls on both stores -/

inductive Call
  | upsert (sub : Subscription)
  | getByProviderID (id : String)
  | getBySubject (subject : String) (pick : Nat)
  | markProcessed (id : String)

inductive Reply
  | done
  | found (sub : Subscription)
  | marked (firstTime : Bool)
  deriving DecidableEq

def call (db : Db) : Call → Db × Except Error Reply
  | .upsert sub => ((upsert db sub).1, (upsert db sub).2.map fun _ => .done)
  | .getByProviderID id => (db, (getByProviderID db id).map .found)
  | .getBySubject subject pick => (db, (getBySubject db subject pick).map .found)
  | .markProcessed id => ((markProcessed db id).1, (markProcessed db id).2.map .marked)

def memoryCall (s : Store) : Call → Store × Except Error Reply
  | .upsert sub => (s.upsert sub, .ok .done)
  | .getByProviderID id => (s, ((s.getByProviderID id).mapError .store).map .found)
  | .getBySubject subject _ => (s, ((s.getBySubject subject).mapError .store).map .found)
  | .markProcessed id => ((s.markProcessed id).1, .ok (.marked (s.markProcessed id).2))

/-! ## When the stores mirror each other -/

def IsNewest (rows : List Subscription) (subject : String) (r : Subscription) : Prop :=
  r ∈ rows ∧ r.customerID = subject ∧
    ∀ q ∈ rows, q.customerID = subject → q ≠ r → q.providerUpdatedAt < r.providerUpdatedAt

structure Mirrors (s : Store) (db : Db) : Prop where
  ids : primaryKey.Holds db.rows
  providers : providerKey.Holds db.rows
  texts : ∀ r ∈ db.rows, Texts r
  byProv : ∀ id r, s.byProv.get? id = some r ↔ r ∈ db.rows ∧ r.providerSubID = id
  bySubj : ∀ c r, s.bySubj.get? c = some r ↔ IsNewest db.rows c r
  subjects : ∀ r ∈ db.rows, ∃ q, s.bySubj.get? r.customerID = some q
  events : ∀ id, s.marked id = true ↔ id ∈ db.events

def Keeps (db : Db) : Call → Prop
  | .upsert sub =>
    SeatsFit sub ∧ Texts sub ∧
    (∀ r ∈ db.rows, r.providerSubID = sub.providerSubID ↔ r.id = sub.id) ∧
    (∀ r ∈ db.rows, r.providerSubID ≠ sub.providerSubID → r.customerID = sub.customerID →
      r.providerUpdatedAt < sub.providerUpdatedAt) ∧
    ∀ r ∈ db.rows, r.providerSubID = sub.providerSubID → r.customerID ≠ sub.customerID →
      ∃ q ∈ db.rows, q.providerSubID ≠ sub.providerSubID ∧ q.customerID = r.customerID ∧
        r.providerUpdatedAt < q.providerUpdatedAt
  | .getByProviderID id => PlainText id
  | .getBySubject subject _ => PlainText subject
  | .markProcessed id => PlainText id

instance (db : Db) (a : Call) : Decidable (Keeps db a) := by
  cases a <;> unfold Keeps <;> infer_instance

def SameReads (s : Store) (db : Db) : Prop :=
  (∀ id, PlainText id → (s.getByProviderID id).mapError .store = getByProviderID db id) ∧
  ∀ subject pick, PlainText subject →
    (s.getBySubject subject).mapError .store = getBySubject db subject pick

theorem mirrors_new : Mirrors .new .new where
  ids := UniqueIndex.holds_nil
  providers := UniqueIndex.holds_nil
  texts _ h := by cases h
  byProv id r := ⟨(by cases ·), fun h => (by cases h.1)⟩
  bySubj c r := ⟨(by cases ·), fun h => (by cases h.1)⟩
  subjects _ h := by cases h
  events id := ⟨(by cases ·), (by cases ·)⟩

/-! ## Reads -/

variable {rows : List Subscription} {r : Subscription}

theorem find_provider_eq_some (h : providerKey.Holds rows) {id : String} :
    (rows.find? fun r => r.providerSubID = id) = some r ↔ r ∈ rows ∧ r.providerSubID = id := by
  constructor
  · intro hfind
    have hid := find?_some hfind
    exact ⟨mem_of_find?_eq_some hfind, by simpa using hid⟩
  rintro ⟨hmem, hid⟩
  have hsome : (rows.find? fun r => r.providerSubID = id).isSome :=
    find?_isSome.mpr ⟨r, hmem, decide_eq_true hid⟩
  obtain ⟨q, hq⟩ := Option.isSome_iff_exists.mp hsome
  have hkey : q.providerSubID = id := by
    have := find?_some hq
    simpa using this
  rw [hq, h.eq_of_key (mem_of_find?_eq_some hq) hmem rfl rfl (hkey.trans hid.symm)]

variable {c : String}

theorem mem_newest :
    r ∈ newest rows c ↔ r ∈ rows ∧ r.customerID = c ∧
      ∀ q ∈ rows, q.customerID = c → q.providerUpdatedAt ≤ r.providerUpdatedAt := by
  simp only [newest, mem_filter, decide_eq_true_eq]

theorem IsNewest.eq_of_mem_newest {q : Subscription} (hr : IsNewest rows c r)
    (hq : q ∈ newest rows c) : q = r := by
  obtain ⟨hmem, hc, hmax⟩ := mem_newest.mp hq
  by_contra hne
  exact absurd (hr.2.2 q hmem hc hne) (not_lt.mpr (hmax r hr.1 hr.2.1))

theorem IsNewest.mem_newest (hr : IsNewest rows c r) : r ∈ newest rows c := by
  refine Postgres.mem_newest.mpr ⟨hr.1, hr.2.1, fun q hq hc => ?_⟩
  by_cases hne : q = r
  · rw [hne]
  · exact (hr.2.2 q hq hc hne).le

variable {db : Db}

theorem Mirrors.first_newest {s : Store} (h : Mirrors s db) (c : String) (pick : Nat) :
    ((newest db.rows c).rotate pick).head? = s.bySubj.get? c := by
  cases hget : s.bySubj.get? c with
  | none =>
    have hnil : newest db.rows c = [] := by
      refine eq_nil_iff_forall_not_mem.mpr fun r hr => ?_
      obtain ⟨hmem, hc, _⟩ := mem_newest.mp hr
      obtain ⟨q, hq⟩ := h.subjects r hmem
      rw [hc, hget] at hq
      cases hq
    rw [hnil, rotate_nil]
    rfl
  | some r =>
    have hr := (h.bySubj c r).mp hget
    have hmem : r ∈ (newest db.rows c).rotate pick := mem_rotate.mpr hr.mem_newest
    cases hrot : (newest db.rows c).rotate pick with
    | nil =>
      rw [hrot] at hmem
      cases hmem
    | cons q rest =>
      have hq : q ∈ (newest db.rows c).rotate pick := hrot ▸ mem_cons_self
      rw [hr.eq_of_mem_newest (mem_rotate.mp hq)]
      rfl

theorem Mirrors.sameReads {s : Store} (h : Mirrors s db) : SameReads s db := by
  constructor
  · intro id hid
    have hfind : (db.rows.find? fun r => r.providerSubID = id) = s.byProv.get? id :=
      Option.ext fun r => (find_provider_eq_some h.providers).trans (h.byProv id r).symm
    rw [getByProviderID, if_pos hid, hfind, Store.getByProviderID]
    cases s.byProv.get? id <;> rfl
  · intro c pick hc
    rw [getBySubject, if_pos hc, h.first_newest, Store.getBySubject]
    cases s.bySubj.get? c <;> rfl

/-! ## Writes -/

variable {sub : Subscription}

theorem conflicts_provider :
    providerKey.conflicts rows sub = true ↔ ∃ r ∈ rows, r.providerSubID = sub.providerSubID := by
  simp [UniqueIndex.conflicts_eq_true, providerKey]

theorem conflicts_primary :
    primaryKey.conflicts rows sub = true ↔ ∃ r ∈ rows, r.id = sub.id := by
  simp [UniqueIndex.conflicts_eq_true, primaryKey]

theorem overwrite_id (sub r : Subscription) : (overwrite sub r).id = r.id := by
  unfold overwrite
  split <;> rfl

theorem overwrite_providerSubID (sub r : Subscription) :
    (overwrite sub r).providerSubID = r.providerSubID := by
  unfold overwrite
  split <;> rfl

theorem upsert_holds (hids : primaryKey.Holds db.rows) (hproviders : providerKey.Holds db.rows)
    (sub : Subscription) :
    primaryKey.Holds (upsert db sub).1.rows ∧ providerKey.Holds (upsert db sub).1.rows := by
  unfold upsert
  split
  · exact ⟨hids, hproviders⟩
  split
  · exact ⟨hids, hproviders⟩
  split
  · exact ⟨hids.update fun r _ _ => ⟨rfl, overwrite_id sub r⟩,
      hproviders.update fun r _ _ => ⟨rfl, overwrite_providerSubID sub r⟩⟩
  rename_i hprovider
  split
  · exact ⟨hids, hproviders⟩
  rename_i hprimary
  exact ⟨hids.insert (Bool.eq_false_of_not_eq_true hprimary),
    hproviders.insert (Bool.eq_false_of_not_eq_true hprovider)⟩

theorem upsert_events (db : Db) (sub : Subscription) : (upsert db sub).1.events = db.events := by
  unfold upsert
  split
  · rfl
  split
  · rfl
  split
  · rfl
  · split <;> rfl

theorem upsert_cases (hok : (upsert db sub).2 = .ok ()) :
    SeatsFit sub ∧ Texts sub ∧
    ((∃ own ∈ db.rows, own.providerSubID = sub.providerSubID) ∧
        (upsert db sub).1.rows = db.rows.map (overwrite sub) ∨
      (∀ r ∈ db.rows, r.providerSubID ≠ sub.providerSubID ∧ r.id ≠ sub.id) ∧
        (upsert db sub).1.rows = db.rows ++ [sub]) := by
  unfold upsert at hok ⊢
  split at hok
  · cases hok
  rename_i hseats
  rw [if_neg hseats]
  split at hok
  · cases hok
  rename_i htexts
  rw [if_neg htexts]
  refine ⟨not_not.mp hseats, not_not.mp htexts, ?_⟩
  split at hok
  · rename_i hprovider
    rw [if_pos hprovider]
    exact Or.inl ⟨conflicts_provider.mp hprovider, rfl⟩
  rename_i hprovider
  rw [if_neg hprovider]
  split at hok
  · cases hok
  rename_i hprimary
  rw [if_neg hprimary]
  rw [conflicts_provider] at hprovider
  rw [conflicts_primary] at hprimary
  exact Or.inr ⟨fun r hr =>
    ⟨fun heq => hprovider ⟨r, hr, heq⟩, fun heq => hprimary ⟨r, hr, heq⟩⟩, rfl⟩

theorem upsert_eq_ok (hseats : SeatsFit sub) (htexts : Texts sub)
    (hid : ∀ r ∈ db.rows, r.providerSubID = sub.providerSubID ↔ r.id = sub.id) :
    (upsert db sub).2 = .ok () := by
  rw [upsert, if_neg (not_not.mpr hseats), if_neg (not_not.mpr htexts)]
  split
  · rfl
  rename_i hprovider
  have hfree : ¬ primaryKey.conflicts db.rows sub = true := by
    rw [conflicts_provider] at hprovider
    rw [conflicts_primary]
    rintro ⟨r, hr, heq⟩
    exact hprovider ⟨r, hr, (hid r hr).mpr heq⟩
  rw [if_neg hfree]

theorem upsert_rows (hok : (upsert db sub).2 = .ok ())
    (hid : ∀ r ∈ db.rows, r.providerSubID = sub.providerSubID ↔ r.id = sub.id) (x : Subscription) :
    x ∈ (upsert db sub).1.rows ↔ x = sub ∨ x ∈ db.rows ∧ x.providerSubID ≠ sub.providerSubID := by
  obtain ⟨-, -, ⟨⟨own, hown, hkey⟩, hrows⟩ | ⟨hnone, hrows⟩⟩ := upsert_cases hok
  · have hover : ∀ r ∈ db.rows, r.providerSubID = sub.providerSubID → overwrite sub r = sub := by
      intro r hr heq
      rw [overwrite, if_pos heq, heq, (hid r hr).mp heq]
    rw [hrows, mem_map]
    constructor
    · rintro ⟨r, hr, rfl⟩
      by_cases heq : r.providerSubID = sub.providerSubID
      · exact Or.inl (hover r hr heq)
      · rw [overwrite, if_neg heq]
        exact Or.inr ⟨hr, heq⟩
    · rintro (rfl | ⟨hx, hne⟩)
      · exact ⟨own, hown, hover own hown hkey⟩
      · exact ⟨x, hx, by rw [overwrite, if_neg hne]⟩
  · rw [hrows, mem_append, mem_singleton, or_comm]
    exact or_congr_right ⟨fun hx => ⟨hx, (hnone x hx).1⟩, fun hx => hx.1⟩

section Upsert

variable {s : Store} {db : Db} {sub : Subscription}

section
variable {rows' : List Subscription}
    (hrows : ∀ x, x ∈ rows' ↔ x = sub ∨ x ∈ db.rows ∧ x.providerSubID ≠ sub.providerSubID)
include hrows

theorem isNewest_written (hnewer : ∀ r ∈ db.rows, r.providerSubID ≠ sub.providerSubID →
      r.customerID = sub.customerID → r.providerUpdatedAt < sub.providerUpdatedAt)
    (r : Subscription) : sub = r ↔ IsNewest rows' sub.customerID r := by
  have hsub : IsNewest rows' sub.customerID sub := by
    refine ⟨(hrows sub).mpr (Or.inl rfl), rfl, fun q hq hc hne => ?_⟩
    rcases (hrows q).mp hq with heq | ⟨hmem, hother⟩
    · exact absurd heq hne
    · exact hnewer q hmem hother hc
  constructor
  · rintro rfl
    exact hsub
  · exact fun hr => (hr.eq_of_mem_newest hsub.mem_newest)

theorem isNewest_other
    (hleft : ∀ r ∈ db.rows, r.providerSubID = sub.providerSubID → r.customerID ≠ sub.customerID →
      ∃ q ∈ db.rows, q.providerSubID ≠ sub.providerSubID ∧ q.customerID = r.customerID ∧
        r.providerUpdatedAt < q.providerUpdatedAt)
    {c : String} (hc : c ≠ sub.customerID) (r : Subscription) :
    IsNewest db.rows c r ↔ IsNewest rows' c r := by
  have hstays : ∀ q, q.customerID = c → (q ∈ rows' ↔ q ∈ db.rows ∧
      q.providerSubID ≠ sub.providerSubID) := by
    intro q hq
    rw [hrows q]
    refine or_iff_right fun heq => hc ?_
    rw [← hq, heq]
  constructor
  · rintro ⟨hmem, hrc, hmax⟩
    have hother : r.providerSubID ≠ sub.providerSubID := by
      intro heq
      obtain ⟨q, hq, hqo, hqc, hlt⟩ := hleft r hmem heq (hrc ▸ hc)
      have hne : q ≠ r := fun h => hqo (h ▸ heq)
      exact absurd (hmax q hq (hqc.trans hrc) hne) (not_lt.mpr hlt.le)
    refine ⟨(hstays r hrc).mpr ⟨hmem, hother⟩, hrc, fun q hq hqc hne => ?_⟩
    exact hmax q ((hstays q hqc).mp hq).1 hqc hne
  rintro ⟨hmem, hrc, hmax⟩
  refine ⟨((hstays r hrc).mp hmem).1, hrc, fun q hq hqc hne => ?_⟩
  by_cases heq : q.providerSubID = sub.providerSubID
  · -- The row that left had a newer one beside it, and `r` is at least as new as that.
    obtain ⟨p, hp, hpo, hpc, hlt⟩ := hleft q hq heq (hqc ▸ hc)
    by_cases hpr : p = r
    · exact hpr ▸ hlt
    · exact hlt.trans
        (hmax p ((hstays p (hpc.trans hqc)).mpr ⟨hp, hpo⟩) (hpc.trans hqc) hpr)
  · exact hmax q ((hstays q hqc).mpr ⟨hq, heq⟩) hqc hne

end

theorem Mirrors.upsert (h : Mirrors s db) (hkeeps : Keeps db (.upsert sub)) :
    Mirrors (s.upsert sub) (Postgres.upsert db sub).1 := by
  obtain ⟨hseats, htexts, hid, hnewer, hleft⟩ := hkeeps
  have hrows := upsert_rows (upsert_eq_ok hseats htexts hid) hid
  obtain ⟨hids, hproviders⟩ := upsert_holds h.ids h.providers sub
  refine ⟨hids, hproviders, fun r hr => ?_, fun id r => ?_, fun c r => ?_, fun r hr => ?_,
    fun id => ?_⟩
  · rcases (hrows r).mp hr with rfl | ⟨hr, _⟩
    · exact htexts
    · exact h.texts r hr
  · rw [hrows r]
    show (s.byProv.set sub.providerSubID sub).get? id = some r ↔ _
    rw [get?_set]
    split
    · rename_i heq
      constructor
      · rintro ⟨⟩
        exact ⟨Or.inl rfl, heq.symm⟩
      rintro ⟨rfl | ⟨_, hne⟩, hkey⟩
      · rfl
      · exact absurd (hkey.trans heq) hne
    rename_i hne
    rw [h.byProv id r]
    constructor
    · rintro ⟨hmem, hkey⟩
      exact ⟨Or.inr ⟨hmem, fun heq => hne (hkey.symm.trans heq)⟩, hkey⟩
    rintro ⟨rfl | ⟨hmem, _⟩, hkey⟩
    · exact absurd hkey.symm hne
    · exact ⟨hmem, hkey⟩
  · show (s.bySubj.set sub.customerID sub).get? c = some r ↔ _
    rw [get?_set]
    split
    · rename_i heq
      rw [heq, Option.some_inj]
      exact isNewest_written hrows hnewer r
    rename_i hne
    rw [h.bySubj c r]
    exact isNewest_other hrows hleft hne r
  · show ∃ q, (s.bySubj.set sub.customerID sub).get? r.customerID = some q
    rw [get?_set]
    split
    · exact ⟨sub, rfl⟩
    rename_i hne
    rcases (hrows r).mp hr with rfl | ⟨hr, _⟩
    · exact absurd rfl hne
    · exact h.subjects r hr
  · rw [upsert_events]
    exact h.events id

end Upsert

variable {s : Store} {db : Db}

theorem Mirrors.markProcessed (h : Mirrors s db) {id : String} (hid : PlainText id) :
    (Postgres.markProcessed db id).2 = .ok (s.markProcessed id).2 ∧
      Mirrors (s.markProcessed id).1 (Postgres.markProcessed db id).1 := by
  rw [Postgres.markProcessed, if_pos hid]
  by_cases hmark : s.marked id = true
  · rw [if_pos ((h.events id).mp hmark), Store.markProcessed, if_pos hmark]
    exact ⟨rfl, h⟩
  rw [if_neg (mt (h.events id).mpr hmark)]
  have hmem : ∀ j, (s.markProcessed id).1.marked j = true ↔ j ∈ id :: db.events := by
    intro j
    rw [Store.marked_markProcessed, Bool.or_eq_true, decide_eq_true_eq, h.events j,
      mem_cons, or_comm]
  rw [Store.markProcessed, if_neg hmark] at hmem ⊢
  exact ⟨rfl, { h with events := hmem }⟩

theorem Mirrors.call (h : Mirrors s db) {a : Call} (ha : Keeps db a) :
    (memoryCall s a).2 = (Postgres.call db a).2 ∧
      Mirrors (memoryCall s a).1 (Postgres.call db a).1 := by
  cases a with
  | upsert sub =>
    refine ⟨?_, h.upsert ha⟩
    show _ = (Postgres.upsert db sub).2.map _
    rw [upsert_eq_ok ha.1 ha.2.1 ha.2.2.1]
    rfl
  | getByProviderID id => exact ⟨congrArg (Except.map Reply.found) (h.sameReads.1 id ha), h⟩
  | getBySubject subject pick =>
    exact ⟨congrArg (Except.map Reply.found) (h.sameReads.2 subject pick ha), h⟩
  | markProcessed id =>
    refine ⟨?_, (h.markProcessed ha).2⟩
    show _ = (Postgres.markProcessed db id).2.map _
    rw [(h.markProcessed ha).1]
    rfl

/-! ## What equal answers require -/

variable {r : Subscription}

theorem exists_mem_newest {rows : List Subscription} (hr : r ∈ rows) :
    ∃ x ∈ newest rows r.customerID, r.providerUpdatedAt ≤ x.providerUpdatedAt := by
  obtain ⟨x, hx, hmax⟩ := Finset.exists_max_image
    (rows.filter fun q => q.customerID = r.customerID).toFinset Subscription.providerUpdatedAt
    ⟨r, by simp [hr]⟩
  simp only [mem_toFinset, mem_filter, decide_eq_true_eq] at hx hmax
  exact ⟨x, mem_newest.mpr ⟨hx.1, hx.2, fun q hq hc => hmax q ⟨hq, hc⟩⟩, hmax r ⟨hr, rfl⟩⟩

theorem SameReads.eq_of_mem_newest (h : SameReads s db) {c : String} (hc : PlainText c)
    {x : Subscription} (hr : s.bySubj.get? c = some r) (hx : x ∈ newest db.rows c) : x = r := by
  obtain ⟨n, hn, hget⟩ := mem_iff_getElem.mp hx
  have hread := h.2 c n hc
  rw [Store.getBySubject, hr, getBySubject, if_pos hc, head?_rotate hn,
    getElem?_eq_getElem hn, hget] at hread
  cases hread
  rfl

theorem SameReads.mem_rows (h : SameReads s db) {c : String} (hc : PlainText c)
    (hr : s.bySubj.get? c = some r) : r ∈ db.rows := by
  have hread := h.2 c 0 hc
  rw [Store.getBySubject, hr, getBySubject, if_pos hc, rotate_zero] at hread
  cases hfirst : newest db.rows c with
  | nil =>
    rw [hfirst] at hread
    cases hread
  | cons x rest =>
    rw [hfirst] at hread
    cases hread
    have hmem : r ∈ newest db.rows c := hfirst ▸ mem_cons_self
    exact (mem_newest.mp hmem).1

section Upsert

variable {s : Store} {db : Db} {sub : Subscription}

section
variable (h : Mirrors s db) (hok : (Postgres.upsert db sub).2 = .ok ())
    (hreads : SameReads (s.upsert sub) (Postgres.upsert db sub).1)
include h hok hreads

theorem Mirrors.ids_of_sameReads :
    ∀ r ∈ db.rows, r.providerSubID = sub.providerSubID ↔ r.id = sub.id := by
  obtain ⟨-, htexts, ⟨⟨own, hown, hkey⟩, hrows⟩ | ⟨hnone, -⟩⟩ := upsert_cases hok
  · have hwritten : (Postgres.upsert db sub).1.rows.find?
        (fun r => r.providerSubID = sub.providerSubID) = some (overwrite sub own) := by
      refine (find_provider_eq_some (upsert_holds h.ids h.providers sub).2).mpr ⟨?_, ?_⟩
      · rw [hrows]
        exact mem_map_of_mem hown
      · rw [overwrite_providerSubID, hkey]
    have hread := hreads.1 sub.providerSubID htexts.2.2.1
    rw [Store.getByProviderID, Store.upsert, get?_set_self, getByProviderID,
      if_pos htexts.2.2.1, hwritten] at hread
    have hsame : sub = overwrite sub own := Except.ok.inj hread
    have hid : own.id = sub.id := by
      rw [← overwrite_id sub own, ← hsame]
    intro r hr
    constructor
    · intro heq
      rw [h.providers.eq_of_key hr hown rfl rfl (heq.trans hkey.symm), hid]
    · intro heq
      rw [h.ids.eq_of_key hr hown rfl rfl (heq.trans hid.symm), hkey]
  · intro r hr
    exact iff_of_false (hnone r hr).1 (hnone r hr).2

theorem Mirrors.keeps_upsert : Keeps db (.upsert sub) := by
  obtain ⟨hseats, htexts, -⟩ := upsert_cases hok
  have hid := h.ids_of_sameReads hok hreads
  have hrows := upsert_rows hok hid
  refine ⟨hseats, htexts, hid, fun r hr hother hc => ?_, fun r hr heq hc => ?_⟩
  · -- The memory answers `sub`, so `sub` alone may come first.
    have hentry : (s.upsert sub).bySubj.get? sub.customerID = some sub := get?_set_self ..
    have honly : ∀ {x}, x ∈ newest (Postgres.upsert db sub).1.rows sub.customerID → x = sub :=
      fun hx => hreads.eq_of_mem_newest htexts.2.1 hentry hx
    have hr' : r ∈ (Postgres.upsert db sub).1.rows := (hrows r).mpr (Or.inr ⟨hr, hother⟩)
    obtain ⟨x, hx, hle⟩ := exists_mem_newest hr'
    rw [hc] at hx
    obtain rfl := honly hx
    refine lt_of_le_of_ne hle fun htie => ?_
    have hfirst : r ∈ newest (Postgres.upsert db x).1.rows x.customerID :=
      mem_newest.mpr ⟨hr', hc, fun q hq hqc => htie ▸ (mem_newest.mp hx).2.2 q hq hqc⟩
    exact hother (congrArg Subscription.providerSubID (honly hfirst))
  · -- The memory still has an entry for the former customer, and it is a row.
    obtain ⟨q, hq⟩ := h.subjects r hr
    obtain ⟨hmem, hqc, hmax⟩ := (h.bySubj _ _).mp hq
    have hentry : (s.upsert sub).bySubj.get? r.customerID = some q := by
      show (s.bySubj.set sub.customerID sub).get? r.customerID = some q
      rw [get?_set, if_neg hc, hq]
    have hstays := hreads.mem_rows (h.texts r hr).2.1 hentry
    rcases (hrows q).mp hstays with rfl | ⟨-, hother⟩
    · exact absurd hqc.symm hc
    · refine ⟨q, hmem, hother, hqc, hmax r hr rfl fun hrq => ?_⟩
      exact hother (hrq ▸ heq)

end

end Upsert

theorem Mirrors.keeps_of_alike {s : Store} {db : Db} (h : Mirrors s db) {a : Call}
    (hout : (memoryCall s a).2 = (Postgres.call db a).2)
    (hreads : SameReads (memoryCall s a).1 (Postgres.call db a).1) : Keeps db a := by
  cases a with
  | upsert sub =>
    refine h.keeps_upsert ?_ hreads
    change Except.ok Reply.done = (Postgres.upsert db sub).2.map _ at hout
    cases hres : (Postgres.upsert db sub).2 with
    | ok u => rfl
    | error e =>
      rw [hres] at hout
      cases hout
  | getByProviderID id =>
    show PlainText id
    by_contra hid
    change _ = (Postgres.getByProviderID db id).map _ at hout
    rw [getByProviderID, if_neg hid, memoryCall, Store.getByProviderID] at hout
    cases hget : s.byProv.get? id <;> rw [hget] at hout <;> cases hout
  | getBySubject subject pick =>
    show PlainText subject
    by_contra hid
    change _ = (Postgres.getBySubject db subject pick).map _ at hout
    rw [getBySubject, if_neg hid, memoryCall, Store.getBySubject] at hout
    cases hget : s.bySubj.get? subject <;> rw [hget] at hout <;> cases hout
  | markProcessed id =>
    show PlainText id
    by_contra hid
    change _ = (Postgres.markProcessed db id).2.map _ at hout
    rw [Postgres.markProcessed, if_neg hid] at hout
    cases hout

/-! ## Sequences of calls -/

/-- The stores answer alike every sequence of calls that each meet `Keeps`, and this is exact:
only in these sequences is every call, and every read after any of them, answered alike. -/
theorem stores_alike_iff (calls : List Call) :
    (StepsMeet call Keeps .new calls → answers memoryCall .new calls = answers call .new calls) ∧
    (AlikeAlong memoryCall call SameReads .new .new calls ↔ StepsMeet call Keeps .new calls) := by
  have hiff : AlikeAlong memoryCall call SameReads .new .new calls ↔
      StepsMeet call Keeps .new calls :=
    alikeAlong_iff (f := memoryCall) (g := call) (R := Mirrors) (fun h => h.sameReads)
      (fun h ha => h.call ha) (fun h hout hreads => h.keeps_of_alike hout hreads) mirrors_new calls
  exact ⟨fun h => (hiff.mpr h).answers_eq, hiff⟩

def demoSub (id customer : String) (updatedAt : Int) : Subscription where
  id := id
  customerID := customer
  providerSubID := "sub_" ++ id
  planID := "pro"
  status := .active
  seatCount := 1
  currentPeriodStart := 0
  currentPeriodEnd := 0
  cancelAtPeriodEnd := false
  trialEnd := 0
  providerUpdatedAt := updatedAt

-- A second subscription of the customer that is newer, and a redelivery.
example : StepsMeet call Keeps .new
    [.upsert (demoSub "1" "u1" 5), .upsert (demoSub "2" "u1" 10), .getBySubject "u1" 0,
      .markProcessed "evt", .markProcessed "evt"] := by
  decide +kernel

/-- The older of two subscriptions of one customer is written last: the memory answers it, and
the database the newer one. -/
theorem older_write_answered_apart :
    ∃ calls, (answers memoryCall .new calls).map (·.2) ≠ (answers call .new calls).map (·.2) := by
  refine ⟨[.upsert (demoSub "1" "u1" 10), .upsert (demoSub "2" "u1" 5), .getBySubject "u1" 0], ?_⟩
  decide +kernel

end GoServices.SubscriptionCore.Postgres
