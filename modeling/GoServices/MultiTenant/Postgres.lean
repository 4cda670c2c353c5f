/-
The Postgres tenant store beside the in-memory one.

`records` has the primary key `(tenant_id, id)`, so each tenant has its own ids, and a row policy
that shows a transaction only the rows of the tenant it is bound to.
-/
import GoServices.MultiTenant.Store

namespace GoServices.MultiTenant.Postgres

open List Table

inductive SqlError
  | invalidText
  | rowSecurity
  deriving DecidableEq

/-- An error of the package `tenant`, or what went wrong in the database under the text that
wraps it. -/
inductive Error
  | tenant (e : TenantError)
  | failed (op : String) (e : SqlError)
  deriving DecidableEq

/-- A `text` value has no NUL character. -/
def PlainText (s : String) : Prop := '\x00' ∉ s.toList
  deriving Decidable

/-- The rows of `records`: the data by primary key. -/
abbrev Db := Table (String × String) String

/-- A transaction: its copy of the table and the value of `app.current_tenant`. -/
structure Tx where
  records : Db
  currentTenant : Option String

/-- The policy `tenant_isolation`, both for rows that are read and for rows that are
written.  A setting that is missing is NULL and equals nothing. -/
def Tx.allows (tx : Tx) (tenantID : String) : Bool := tx.currentTenant = some tenantID

/-- `SELECT set_config('app.current_tenant', $1, true)`. -/
def setTenant (records : Db) (tid : String) : Except SqlError Tx :=
  if PlainText tid then .ok { records := records, currentTenant := some tid }
  else .error .invalidText

/-- `INSERT … ON CONFLICT (tenant_id, id) DO UPDATE … RETURNING tenant_id, id, data`.  A row that
is in the way has the same tenant, so the policy says the same of both. -/
def Tx.upsert (tx : Tx) (tenantID id data : String) : Except SqlError (Tx × Record) :=
  if ¬ (PlainText tenantID ∧ PlainText id ∧ PlainText data) then .error .invalidText
  else if tx.allows tenantID then
    .ok ({ tx with records := tx.records.set (tenantID, id) data },
      { id := id, tenantID := tenantID, data := data })
  else .error .rowSecurity

/-- `SELECT … WHERE tenant_id = $1 AND id = $2`. -/
def Tx.selectOne (tx : Tx) (tenantID id : String) : Except SqlError (Option Record) :=
  if ¬ (PlainText tenantID ∧ PlainText id) then .error .invalidText
  else if tx.allows tenantID then
    .ok ((tx.records.get? (tenantID, id)).map fun data =>
      { id := id, tenantID := tenantID, data := data })
  else .ok none

def rowRecord (row : (String × String) × String) : Record :=
  { id := row.1.2, tenantID := row.1.1, data := row.2 }

/-- `SELECT … WHERE tenant_id = $1 ORDER BY id`. -/
def Tx.selectAll (tx : Tx) (collate : String → String → Bool) (tenantID : String) :
    Except SqlError (List Record) :=
  if PlainText tenantID then
    .ok (((tx.records.toList.filter fun row =>
      tx.allows row.1.1 && decide (row.1.1 = tenantID)).map rowRecord).mergeSort
        fun r r' => collate r.id r'.id)
  else .error .invalidText

/-- `withTenant`: the function runs on a copy that its error drops. -/
def withTenant {α : Type} (db : Db) (ctx : Context)
    (fn : Tx → String → Except Error (Tx × α)) : Db × Except Error α :=
  match fromContext ctx with
  | .error e => (db, .error (.tenant e))
  | .ok tid =>
    match setTenant db tid with
    | .error e => (db, .error (.failed "pgstore: bind tenant" e))
    | .ok tx =>
      match fn tx tid with
      | .error e => (db, .error e)
      | .ok (tx, a) => (tx.records, .ok a)

def put (db : Db) (ctx : Context) (id payload : String) : Db × Except Error Record :=
  withTenant db ctx fun tx tid => (tx.upsert tid id payload).mapError (.failed "pgstore: put")

def get (db : Db) (ctx : Context) (id : String) : Db × Except Error Record :=
  withTenant db ctx fun tx tid =>
    match tx.selectOne tid id with
    | .error e => .error (.failed "pgstore: get" e)
    | .ok none => .error (.tenant .notFound)
    | .ok (some r) => .ok (tx, r)

def list (collate : String → String → Bool) (db : Db) (ctx : Context) :
    Db × Except Error (List Record) :=
  withTenant db ctx fun tx tid =>
    ((tx.selectAll collate tid).mapError (.failed "pgstore: list")).map fun rs => (tx, rs)

inductive Answer
  | record (result : Except Error Record)
  | records (result : Except Error (List Record))
  deriving DecidableEq

def step (collate : String → String → Bool) (db : Db) : Op → Db × Answer
  | .put ctx id payload => ((put db ctx id payload).1, .record (put db ctx id payload).2)
  | .get ctx id => ((get db ctx id).1, .record (get db ctx id).2)
  | .list ctx => ((list collate db ctx).1, .records (list collate db ctx).2)

def same : MultiTenant.Answer → Answer → Prop
  | .record (.ok r), .record (.ok r') => r = r'
  | .records (.ok rs), .records (.ok rs') => rs.Perm rs'
  | .record (.error e), .record (.error e') | .records (.error e), .records (.error e') =>
    e' = .tenant e
  | _, _ => False

/-! ## What the calls do -/

section
variable {db : Db} {ctx : Context} {tid : String} {α : Type}

theorem withTenant_bound (hctx : fromContext ctx = .ok tid) (htid : PlainText tid)
    (fn : Tx → String → Except Error (Tx × α)) :
    withTenant db ctx fn = match fn ⟨db, some tid⟩ tid with
      | .error e => (db, .error e)
      | .ok (tx, a) => (tx.records, .ok a) := by
  rw [withTenant, hctx]
  dsimp only
  rw [setTenant, if_pos htid]

variable {e : TenantError} {payload : String} {r : Record}

theorem withTenant_missing (hctx : fromContext ctx = .error e)
    (fn : Tx → String → Except Error (Tx × α)) :
    withTenant db ctx fn = (db, .error (.tenant e)) := by
  rw [withTenant, hctx]

theorem withTenant_refused (hctx : fromContext ctx = .ok tid) (htid : ¬ PlainText tid)
    (fn : Tx → String → Except Error (Tx × α)) :
    withTenant db ctx fn = (db, .error (.failed "pgstore: bind tenant" .invalidText)) := by
  rw [withTenant, hctx]
  dsimp only
  rw [setTenant, if_neg htid]

variable {id : String}

theorem put_bound (db : Db) (hctx : fromContext ctx = .ok tid) (htid : PlainText tid)
    (hid : PlainText id) (hpayload : PlainText payload) :
    put db ctx id payload =
      (db.set (tid, id) payload, .ok { id := id, tenantID := tid, data := payload }) := by
  rw [put, withTenant_bound hctx htid, Tx.upsert, if_neg (not_not.mpr ⟨htid, hid, hpayload⟩)]
  simp [Tx.allows, Except.mapError]

theorem get_bound (hctx : fromContext ctx = .ok tid) (htid : PlainText tid) (hid : PlainText id) :
    get db ctx id = (db, match db.get? (tid, id) with
        | none => .error (.tenant .notFound)
        | some data => .ok { id := id, tenantID := tid, data := data }) := by
  rw [get, withTenant_bound hctx htid, Tx.selectOne, if_neg (not_not.mpr ⟨htid, hid⟩)]
  simp only [Tx.allows, decide_true, if_true]
  cases db.get? (tid, id) with
  | none | some data => rfl

theorem list_bound (db : Db) (collate : String → String → Bool) (hctx : fromContext ctx = .ok tid)
    (htid : PlainText tid) :
    ∃ rs, list collate db ctx = (db, .ok rs) ∧
      rs.Perm ((db.toList.filter fun row => decide (row.1.1 = tid)).map rowRecord) := by
  rw [list, withTenant_bound hctx htid, Tx.selectAll, if_pos htid]
  refine ⟨_, rfl, (mergeSort_perm _ _).trans ?_⟩
  refine Perm.map _ (Perm.of_eq (filter_congr fun row _ => ?_))
  by_cases hrow : row.1.1 = tid
  · simp [Tx.allows, hrow]
  · simp [hrow]

def texts : Op → List String
  | .put _ id payload => [id, payload]
  | .get _ id => [id]
  | .list _ => []

theorem put_refused (db : Db) (hctx : fromContext ctx = .ok tid)
    (hbad : ¬ (PlainText tid ∧ ∀ x ∈ [id, payload], PlainText x)) :
    ∃ op e, put db ctx id payload = (db, .error (.failed op e)) := by
  by_cases htid : PlainText tid
  · have hbad : ¬ (PlainText tid ∧ PlainText id ∧ PlainText payload) := by
      rintro ⟨-, hid, hpayload⟩
      exact hbad ⟨htid, by simp [hid, hpayload]⟩
    refine ⟨"pgstore: put", .invalidText, ?_⟩
    rw [put, withTenant_bound hctx htid, Tx.upsert, if_pos hbad]
    rfl
  · exact ⟨_, _, withTenant_refused hctx htid _⟩

theorem get_refused (db : Db) (hctx : fromContext ctx = .ok tid)
    (hbad : ¬ (PlainText tid ∧ ∀ x ∈ [id], PlainText x)) :
    ∃ op e, get db ctx id = (db, .error (.failed op e)) := by
  by_cases htid : PlainText tid
  · have hbad : ¬ (PlainText tid ∧ PlainText id) := by
      rintro ⟨-, hid⟩
      exact hbad ⟨htid, by simp [hid]⟩
    refine ⟨"pgstore: get", .invalidText, ?_⟩
    rw [get, withTenant_bound hctx htid, Tx.selectOne, if_pos hbad]
  · exact ⟨_, _, withTenant_refused hctx htid _⟩

variable (collate : String → String → Bool)

theorem step_refused {a : Op}
    (hctx : fromContext a.ctx = .ok tid) (hbad : ¬ (PlainText tid ∧ ∀ x ∈ texts a, PlainText x))
    (out : MultiTenant.Answer) :
    ¬ same out (step collate db a).2 := by
  have hdiffer (op : String) (e : SqlError) :
      ¬ same out (.record (.error (.failed op e))) ∧
        ¬ same out (.records (.error (.failed op e))) := by
    rcases out with (_ | _) | (_ | _)
    · exact ⟨(by cases ·), id⟩
    · exact ⟨id, id⟩
    · exact ⟨id, (by cases ·)⟩
    · exact ⟨id, id⟩
  cases a with
  | put ctx id payload =>
    change fromContext ctx = .ok tid at hctx
    obtain ⟨op, e, hput⟩ := put_refused db hctx hbad
    rw [step, hput]
    exact (hdiffer op e).1
  | get ctx id =>
    change fromContext ctx = .ok tid at hctx
    obtain ⟨op, e, hget⟩ := get_refused db hctx hbad
    rw [step, hget]
    exact (hdiffer op e).1
  | list ctx =>
    have htid : ¬ PlainText tid := fun htid => hbad ⟨htid, by simp [texts]⟩
    have hlist : list collate db ctx = _ := withTenant_refused hctx htid _
    rw [step, hlist]
    exact (hdiffer _ _).2

/-! ## The relation between the stores -/

structure Mirrors (s : Store) (db : Db) : Prop where
  own : ∀ tid id, s.own tid id =
    (db.get? (tid, id)).map fun data => { id := id, tenantID := tid, data := data }
  plain : ∀ tid id data, db.get? (tid, id) = some data →
    fromContext (some tid) = .ok tid ∧ PlainText tid ∧ PlainText id

def Shared (db : Db) : Prop :=
  ∃ id tid tid', tid ≠ tid' ∧ PlainText id ∧
    (fromContext (some tid) = .ok tid ∧ PlainText tid ∧ (db.get? (tid, id)).isSome) ∧
    (fromContext (some tid') = .ok tid' ∧ PlainText tid' ∧ (db.get? (tid', id)).isSome)

def Texts (tid : String) (a : Op) : Prop := PlainText tid ∧ ∀ x ∈ texts a, PlainText x

/-- A `Put` finds no record of another tenant under its id. -/
def Owned (s : Store) (tid : String) : Op → Prop
  | .put _ id _ => ∀ r ∈ s.data.get? id, r.tenantID = tid
  | _ => True

def Apart (s : Store) (a : Op) : Prop :=
  match fromContext a.ctx with
  | .error _ => True
  | .ok tid => Texts tid a ∧ Owned s tid a

theorem apart_iff {s : Store} {a : Op} {tid : String} (hctx : fromContext a.ctx = .ok tid) :
    Apart s a ↔ Texts tid a ∧ Owned s tid a := by
  rw [Apart, hctx]

variable {s : Store} {id : String}

theorem own_eq_some :
    s.own tid id = some r ↔ s.data.get? id = some r ∧ r.tenantID = tid := by
  rw [Store.own, Option.filter_eq_some_iff, decide_eq_true_eq]

theorem own_other (tid' : String) (hown : ∀ r ∈ s.data.get? id, r.tenantID = tid)
    (hne : tid ≠ tid') : s.own tid' id = none := by
  rw [Option.eq_none_iff_forall_ne_some]
  intro r hr
  obtain ⟨hget, htid'⟩ := own_eq_some.mp hr
  exact hne ((hown r hget).symm.trans htid')

variable {ctx : Context}

theorem mirrors_put (hst : Mirrors s db) (hctx : fromContext ctx = .ok tid)
    (hown : ∀ r ∈ s.data.get? id, r.tenantID = tid) (htid : PlainText tid) (hid : PlainText id) :
    Mirrors (s.put ctx id payload).1 (db.set (tid, id) payload) where
  own := by
    intro tid' id'
    rw [own_put s hctx, get?_set]
    by_cases hid' : id' = id
    · subst hid'
      by_cases htid' : tid = tid'
      · subst htid'
        simp
      · have hnone := (hst.own tid' id').symm.trans (own_other tid' hown htid')
        rw [if_pos rfl, if_neg htid', if_neg (by simp [Ne.symm htid']), hnone]
    · rw [if_neg hid', if_neg (by simp [hid']), hst.own]
  plain := by
    intro tid' id' data h
    rw [get?_set] at h
    split at h
    · rename_i hkey
      cases hkey
      have hsome := fromContext_some hctx
      exact ⟨hsome ▸ hctx, htid, hid⟩
    · exact hst.plain tid' id' data h

theorem same_get (hst : Mirrors s db) (hctx : fromContext ctx = .ok tid) (htid : PlainText tid)
    (hid : PlainText id) :
    same (.record (s.get ctx id)) (.record (get db ctx id).2) := by
  rw [get_eq s hctx, get_bound hctx htid hid, hst.own]
  cases db.get? (tid, id) with
  | none | some data => exact rfl

theorem Mirrors.own_iff (hst : Mirrors s db) :
    s.own tid id = some r ↔
      ∃ data, db.get? (tid, id) = some data ∧ rowRecord ((tid, id), data) = r := by
  rw [hst.own, Option.map_eq_some_iff]
  rfl

theorem rowRecord_injective : Function.Injective rowRecord := by
  rintro ⟨⟨tid, id⟩, data⟩ ⟨⟨tid', id'⟩, data'⟩ h
  cases h
  rfl

theorem records_perm (hst : Mirrors s db) (tid : String) :
    ((s.data.toList.filter fun e => e.2.tenantID = tid).map Prod.snd).Perm
      ((db.toList.filter fun row => decide (row.1.1 = tid)).map rowRecord) := by
  have hleft : ((s.data.toList.filter fun e => e.2.tenantID = tid).map Prod.snd).Nodup := by
    refine (s.data.toList_nodup.filter _).map_on ?_
    rintro ⟨id, r⟩ hr ⟨id', r'⟩ hr' heq
    obtain ⟨data, -, rfl⟩ := hst.own_iff.mp (mem_own_entries.mp hr)
    obtain ⟨data', -, rfl⟩ := hst.own_iff.mp (mem_own_entries.mp hr')
    cases heq
    rfl
  have hright : ((db.toList.filter fun row => decide (row.1.1 = tid)).map rowRecord).Nodup :=
    (db.toList_nodup.filter _).map rowRecord_injective
  rw [perm_ext_iff_of_nodup hleft hright]
  intro r
  constructor
  · intro hr
    obtain ⟨⟨id, r⟩, hmem, rfl⟩ := mem_map.mp hr
    obtain ⟨data, hrow, rfl⟩ := hst.own_iff.mp (mem_own_entries.mp hmem)
    refine mem_map.mpr ⟨((tid, id), data), ?_, rfl⟩
    exact mem_filter.mpr ⟨mem_toList.mpr hrow, by simp⟩
  intro hr
  obtain ⟨⟨⟨tid', id⟩, data⟩, hmem, rfl⟩ := mem_map.mp hr
  obtain ⟨hrow, htid⟩ := mem_filter.mp hmem
  cases of_decide_eq_true htid
  exact mem_map.mpr ⟨(id, _), mem_own_entries.mpr
    (hst.own_iff.mpr ⟨data, mem_toList.mp hrow, rfl⟩), rfl⟩

theorem same_list (hst : Mirrors s db)
    (hctx : fromContext ctx = .ok tid) (htid : PlainText tid) :
    (list collate db ctx).1 = db ∧
      same (.records (s.list ctx)) (.records (list collate db ctx).2) := by
  obtain ⟨rs, hlist, hperm⟩ := list_bound db collate hctx htid
  rw [hlist, Store.list, hctx]
  exact ⟨rfl, (records_perm hst tid).trans hperm.symm⟩

variable {a : Op}

theorem step_missing (s : Store) (db : Db) (collate : String → String → Bool)
    (hctx : fromContext a.ctx = .error e) :
    (MultiTenant.step s a).1 = s ∧ (step collate db a).1 = db ∧
      same (MultiTenant.step s a).2 (step collate db a).2 := by
  cases a with
  | put ctx id payload =>
    change fromContext ctx = .error e at hctx
    have hput : put db ctx id payload = _ := withTenant_missing hctx _
    rw [MultiTenant.step, put_error s hctx, step, hput]
    exact ⟨rfl, rfl, rfl⟩
  | get ctx id =>
    change fromContext ctx = .error e at hctx
    have hget : get db ctx id = _ := withTenant_missing hctx _
    have hmem : s.get ctx id = .error e := by rw [Store.get, hctx]
    rw [MultiTenant.step, hmem, step, hget]
    exact ⟨rfl, rfl, rfl⟩
  | list ctx =>
    change fromContext ctx = .error e at hctx
    have hlist : list collate db ctx = _ := withTenant_missing hctx _
    have hmem : s.list ctx = .error e := by rw [Store.list, hctx]
    rw [MultiTenant.step, hmem, step, hlist]
    exact ⟨rfl, rfl, rfl⟩

theorem step_mirrors (hst : Mirrors s db) (ha : Apart s a) :
    same (MultiTenant.step s a).2 (step collate db a).2 ∧
      Mirrors (MultiTenant.step s a).1 (step collate db a).1 := by
  cases hctx : fromContext a.ctx with
  | error e =>
    obtain ⟨hs, hdb, hout⟩ := step_missing s db collate hctx
    rw [hs, hdb]
    exact ⟨hout, hst⟩
  | ok tid =>
    obtain ⟨⟨htid, htexts⟩, hown⟩ := (apart_iff hctx).mp ha
    cases a with
    | put ctx id payload =>
      change fromContext ctx = .ok tid at hctx
      have hid : PlainText id := htexts id (by simp [texts])
      have hpayload : PlainText payload := htexts payload (by simp [texts])
      have hput := put_bound db hctx htid hid hpayload
      have hmem : (s.put ctx id payload).2 = .ok ⟨id, tid, payload⟩ := by
        rw [Store.put, hctx]
      rw [MultiTenant.step, step, hmem, hput]
      exact ⟨rfl, mirrors_put hst hctx hown htid hid⟩
    | get ctx id =>
      change fromContext ctx = .ok tid at hctx
      have hid : PlainText id := htexts id (by simp [texts])
      refine ⟨same_get hst hctx htid hid, ?_⟩
      rw [MultiTenant.step, step, get_bound hctx htid hid]
      exact hst
    | list ctx =>
      change fromContext ctx = .ok tid at hctx
      obtain ⟨hdb, hout⟩ := same_list collate hst hctx htid
      refine ⟨hout, ?_⟩
      rw [MultiTenant.step, step, hdb]
      exact hst

theorem step_shared (hst : Mirrors s db) (ha : ¬ Apart s a)
    (hout : same (MultiTenant.step s a).2 (step collate db a).2) :
    Shared (step collate db a).1 := by
  cases hctx : fromContext a.ctx with
  | error e =>
    rw [Apart, hctx] at ha
    exact absurd trivial ha
  | ok tid =>
    have htexts : Texts tid a := by
      by_contra hbad
      exact step_refused collate hctx hbad _ hout
    have hown : ¬ Owned s tid a := fun hown => ha ((apart_iff hctx).mpr ⟨htexts, hown⟩)
    cases a with
    | put ctx id payload =>
      change fromContext ctx = .ok tid at hctx
      obtain ⟨r, hr, hne⟩ : ∃ r ∈ s.data.get? id, r.tenantID ≠ tid := by
        simpa [Owned] using hown
      obtain ⟨data, hrow, -⟩ := hst.own_iff.mp (own_eq_some.mpr ⟨hr, rfl⟩)
      obtain ⟨hr', hplain, hid⟩ := hst.plain _ _ _ hrow
      have hpayload : PlainText payload := htexts.2 payload (by simp [texts])
      have hput := put_bound db hctx htexts.1 hid hpayload
      rw [step, hput]
      have hsome := fromContext_some hctx
      refine ⟨id, r.tenantID, tid, hne, hid, ⟨hr', hplain, ?_⟩, hsome ▸ hctx, htexts.1, ?_⟩
      · rw [get?_set, if_neg (by simp [hne]), hrow]
        rfl
      · rw [get?_set_self]
        rfl
    | get ctx id | list ctx => exact absurd trivial hown

theorem put_rows (db : Db) (ctx : Context) (id payload : String) :
    (put db ctx id payload).1 = db ∨
      ∃ tid, (put db ctx id payload).1 = db.set (tid, id) payload := by
  cases hctx : fromContext ctx with
  | error e =>
    have hput : put db ctx id payload = _ := withTenant_missing hctx _
    exact .inl (congrArg Prod.fst hput)
  | ok tid =>
    by_cases htexts : Texts tid (.put ctx id payload)
    · have hid : PlainText id := htexts.2 id (by simp [texts])
      have hpayload : PlainText payload := htexts.2 payload (by simp [texts])
      exact .inr ⟨tid, congrArg Prod.fst (put_bound db hctx htexts.1 hid hpayload)⟩
    · obtain ⟨op, e, hput⟩ := put_refused db hctx htexts
      exact .inl (congrArg Prod.fst hput)

theorem withTenant_read {α : Type} (db : Db) (ctx : Context)
    {fn : Tx → String → Except Error (Tx × α)}
    (hfn : ∀ tx tid tx' a, fn tx tid = .ok (tx', a) → tx' = tx) :
    (withTenant db ctx fn).1 = db := by
  rw [withTenant]
  split
  · rfl
  rw [setTenant]
  split_ifs with htid
  · dsimp only
    split
    · rfl
    · rename_i heq
      rw [hfn _ _ _ _ heq]
  · rfl

theorem step_keeps_row (a : Op) {k : String × String}
    (hk : (db.get? k).isSome) : ((step collate db a).1.get? k).isSome := by
  cases a with
  | put ctx id payload =>
    rw [step]
    obtain hdb | ⟨tid, hdb⟩ := put_rows db ctx id payload
    · rw [hdb]
      exact hk
    rw [hdb, get?_set]
    split
    · rfl
    · exact hk
  | get ctx id =>
    have hdb : (get db ctx id).1 = db := by
      refine withTenant_read db ctx ?_
      intro tx tid tx' r h
      split at h <;> cases h
      rfl
    rw [step, hdb]
    exact hk
  | list ctx =>
    have hdb : (list collate db ctx).1 = db := by
      refine withTenant_read db ctx ?_
      intro tx tid tx' rs h
      cases hall : tx.selectAll collate tid with
      | error e =>
        rw [hall] at h
        cases h
      | ok rs =>
        rw [hall] at h
        cases h
        rfl
    rw [step, hdb]
    exact hk

theorem shared_step (a : Op) (h : Shared db) :
    Shared (step collate db a).1 := by
  obtain ⟨id, tid, tid', hne, hid, ⟨hctx, htid, hrow⟩, hctx', htid', hrow'⟩ := h
  exact ⟨id, tid, tid', hne, hid, ⟨hctx, htid, step_keeps_row collate a hrow⟩, hctx', htid',
    step_keeps_row collate a hrow'⟩

theorem own_of_same_get (hctx : fromContext (some tid) = .ok tid) (htid : PlainText tid)
    (hid : PlainText id) (hrow : (db.get? (tid, id)).isSome)
    (hout : same (.record (s.get (some tid) id)) (.record (get db (some tid) id).2)) :
    (s.own tid id).isSome := by
  obtain ⟨data, hdata⟩ := Option.isSome_iff_exists.mp hrow
  rw [get_eq s hctx, get_bound hctx htid hid, hdata] at hout
  cases hown : s.own tid id with
  | none =>
    rw [hown] at hout
    exact hout.elim
  | some r => rfl

theorem shared_shown (s : Store) (h : Shared db) :
    ∃ bs, StepsMeet MultiTenant.step Apart s bs ∧
      ¬ SameAnswers MultiTenant.step (step collate) same s db bs := by
  obtain ⟨id, tid, tid', hne, hid, ⟨hctx, htid, hrow⟩, hctx', htid', hrow'⟩ := h
  have hapart {tid : String} (hctx : fromContext (some tid) = .ok tid) (htid : PlainText tid) :
      Apart s (.get (some tid) id) := by
    refine (apart_iff (a := .get (some tid) id) hctx).mpr ⟨⟨htid, ?_⟩, trivial⟩
    simpa [texts] using hid
  refine ⟨[.get (some tid) id, .get (some tid') id],
    ⟨hapart hctx htid, hapart hctx' htid', trivial⟩, ?_⟩
  rintro ⟨hout, hout', -⟩
  have hdb : (step collate db (.get (some tid) id)).1 = db := by
    rw [step, get_bound hctx htid hid]
  rw [hdb] at hout'
  have hown := own_of_same_get hctx htid hid hrow hout
  have hown' := own_of_same_get hctx' htid' hid hrow' hout'
  obtain ⟨r, hr⟩ := Option.isSome_iff_exists.mp hown
  obtain ⟨r', hr'⟩ := Option.isSome_iff_exists.mp hown'
  obtain ⟨hget, rfl⟩ := own_eq_some.mp hr
  obtain ⟨hget', rfl⟩ := own_eq_some.mp hr'
  exact hne (congrArg Record.tenantID (Option.some.inj (hget.symm.trans hget')))

end

theorem mirrors_new : Mirrors .new .empty where
  own _ _ := rfl
  plain := by
    intro tid id data h
    cases h

/-- The two stores answer a sequence of operations alike, and what follows it as long as that
keeps apart, exactly if its strings are texts and no `Put` of it replaces a record of another
tenant. -/
theorem stores_agree_iff (collate : String → String → Bool) (as : List Op) :
    (∀ bs, StepsMeet MultiTenant.step Apart (after MultiTenant.step .new as) bs →
      SameAnswers MultiTenant.step (step collate) same .new .empty (as ++ bs)) ↔
      StepsMeet MultiTenant.step Apart .new as := by
  refine sameAnswers_iff (R := Mirrors) (D := fun _ db => Shared db) ?_ ?_ ?_ ?_ mirrors_new as
  · exact fun {_ _ _} => step_mirrors collate
  · exact fun {_ _ _} => step_shared collate
  · exact fun {_ _} h a => shared_step collate a h
  · exact fun {s _} h => shared_shown collate s h

/-- A second tenant puts under the first one's id. -/
theorem second_tenant_replaces_record :
    let as := [Op.put (some "tenant-a") "rec1" "a", .put (some "tenant-b") "rec1" "b",
      .get (some "tenant-a") "rec1"]
    (answers MultiTenant.step .new as).map Prod.snd =
      [.record (.ok ⟨"rec1", "tenant-a", "a"⟩), .record (.ok ⟨"rec1", "tenant-b", "b"⟩),
        .record (.error .notFound)] ∧
    (answers (step fun x y => decide (x ≤ y)) .empty as).map Prod.snd =
      [.record (.ok ⟨"rec1", "tenant-a", "a"⟩), .record (.ok ⟨"rec1", "tenant-b", "b"⟩),
        .record (.ok ⟨"rec1", "tenant-a", "a"⟩)] := by
  decide

end GoServices.MultiTenant.Postgres
