/-
The in-memory tenant store, and when one tenant's operations affect another's answers.

`Put`, `Get` and `List` take the tenant from the context.
-/
import GoServices.Base.Purge
import GoServices.Base.Table

namespace GoServices.MultiTenant

open Option

inductive TenantError
  | missingTenant
  | notFound
  deriving DecidableEq

structure Record where
  id : String
  tenantID : String
  data : String
  deriving DecidableEq

/-- The value under the tenant key of a context. -/
abbrev Context := Option String

def fromContext : Context → Except TenantError String
  | some id => if id = "" then .error .missingTenant else .ok id
  | none => .error .missingTenant

structure Store where
  data : Table String Record

namespace Store

def new : Store := { data := .empty }

def put (s : Store) (ctx : Context) (id payload : String) : Store × Except TenantError Record :=
  match fromContext ctx with
  | .error e => (s, .error e)
  | .ok tid =>
    let r : Record := { id := id, tenantID := tid, data := payload }
    ({ data := s.data.set id r }, .ok r)

def get (s : Store) (ctx : Context) (id : String) : Except TenantError Record :=
  match fromContext ctx with
  | .error e => .error e
  | .ok tid =>
    match s.data.get? id with
    | none => .error .notFound
    | some r => if r.tenantID ≠ tid then .error .notFound else .ok r

def list (s : Store) (ctx : Context) : Except TenantError (List Record) :=
  match fromContext ctx with
  | .error e => .error e
  | .ok tid => .ok ((s.data.toList.filter fun e => e.2.tenantID = tid).map Prod.snd)

end Store

/-! ## Sequences of operations -/

inductive Op
  | put (ctx : Context) (id payload : String)
  | get (ctx : Context) (id : String)
  | list (ctx : Context)

def Op.ctx : Op → Context
  | .put ctx _ _ | .get ctx _ | .list ctx => ctx

inductive Answer
  | record (result : Except TenantError Record)
  | records (result : Except TenantError (List Record))
  deriving DecidableEq

def step (s : Store) : Op → Store × Answer
  | .put ctx id payload => ((s.put ctx id payload).1, .record (s.put ctx id payload).2)
  | .get ctx id => (s, .record (s.get ctx id))
  | .list ctx => (s, .records (s.list ctx))

def Answer.same : Answer → Answer → Prop
  | .record r, .record r' => r = r'
  | .records (.ok rs), .records (.ok rs') => rs.Perm rs'
  | .records (.error e), .records (.error e') => e = e'
  | _, _ => False

/-- A `Put` under another tenant's context does not find a record of the tenant under
its id. -/
def respects (tenant : String) (s : Store) : Op → Bool
  | .put ctx id _ =>
    match fromContext ctx with
    | .error _ => true
    | .ok tid => tid = tenant || (s.data.get? id).all fun r => decide (r.tenantID ≠ tenant)
  | _ => true

/-! ## What a tenant can see -/

def Store.own (s : Store) (tenant id : String) : Option Record :=
  (s.data.get? id).filter fun r => decide (r.tenantID = tenant)

def Agree (tenant : String) (s t : Store) : Prop := ∀ id, s.own tenant id = t.own tenant id

section
variable {tenant : String} {s t : Store} {ctx : Context} {tid : String}

theorem get_eq (s : Store) (h : fromContext ctx = .ok tid) (id : String) :
    s.get ctx id = (s.own tid id).elim (.error .notFound) .ok := by
  rw [Store.get, h, Store.own]
  cases s.data.get? id with
  | none => rfl
  | some r =>
    by_cases hr : r.tenantID = tid
    all_goals simp [hr, filter_some]

theorem mem_own_entries {id : String} {r : Record} :
    (id, r) ∈ s.data.toList.filter (fun e => e.2.tenantID = tid) ↔ s.own tid id = some r := by
  rw [List.mem_filter, Table.mem_toList, Store.own, filter_eq_some_iff]

theorem list_perm (hst : Agree tenant s t) :
    ((s.data.toList.filter fun e => e.2.tenantID = tenant).map Prod.snd).Perm
      ((t.data.toList.filter fun e => e.2.tenantID = tenant).map Prod.snd) := by
  refine List.Perm.map _ ?_
  rw [List.perm_ext_iff_of_nodup (s.data.toList_nodup.filter _) (t.data.toList_nodup.filter _)]
  rintro ⟨id, r⟩
  rw [mem_own_entries, mem_own_entries, hst id]

theorem own_put (s : Store) (h : fromContext ctx = .ok tid) (id payload id' : String) :
    (s.put ctx id payload).1.own tenant id' = if id' = id then
        if tid = tenant then some { id := id, tenantID := tid, data := payload } else none
      else s.own tenant id' := by
  rw [Store.put, h]
  simp only [Store.own, Table.get?_set]
  split
  · by_cases ht : tid = tenant
    · simp [ht]
    · simp [ht]
  · rfl

theorem fromContext_some (h : fromContext ctx = .ok tid) :
    ctx = some tid := by
  rw [fromContext.eq_def] at h
  split at h <;> try cases h
  split at h <;> cases h
  rfl

theorem put_error (s : Store) {e : TenantError} (h : fromContext ctx = .error e)
    (id payload : String) : s.put ctx id payload = (s, .error e) := by
  rw [Store.put, h]

theorem agree_put_both (hst : Agree tenant s t) (ctx : Context) (id payload : String) :
    Agree tenant (s.put ctx id payload).1 (t.put ctx id payload).1 := by
  cases h : fromContext ctx with
  | error e =>
    rw [put_error s h, put_error t h]
    exact hst
  | ok tid =>
    intro id'
    rw [own_put s h, own_put t h, hst id']

theorem agree_put_other (hst : Agree tenant s t) {id payload : String} (hctx : ctx ≠ some tenant)
    (hok : respects tenant s (.put ctx id payload) = true) :
    Agree tenant (s.put ctx id payload).1 t := by
  cases h : fromContext ctx with
  | error e =>
    rw [put_error s h]
    exact hst
  | ok tid =>
    intro id'
    have htid : tid ≠ tenant := by
      rintro rfl
      exact hctx (fromContext_some h)
    have hfree : s.own tenant id = none := by
      simp only [respects, h, Bool.or_eq_true, decide_eq_true_eq] at hok
      have hall := hok.resolve_left htid
      rw [Store.own, filter_eq_none_iff]
      intro r hr
      rw [hr, all_some, decide_eq_true_eq] at hall
      simpa using hall
    rw [own_put s h, if_neg htid, ← hst id']
    split
    · rename_i hid
      rw [hid, hfree]
    · rfl

theorem same_refl : ∀ a : Answer, a.same a
  | .record _ => rfl
  | .records (.ok _) => .refl _
  | .records (.error _) => rfl

theorem put_answer (s t : Store) (ctx : Context) (id payload : String) :
    (s.put ctx id payload).2 = (t.put ctx id payload).2 := by
  rw [Store.put, Store.put]
  split
  · rfl
  · rfl

theorem list_same (hst : Agree tenant s t) :
    (Answer.records (s.list (some tenant))).same (.records (t.list (some tenant))) := by
  rw [Store.list, Store.list]
  cases h : fromContext (some tenant) with
  | error e => rfl
  | ok tid =>
    cases fromContext_some h
    exact list_perm hst

theorem unwinding (tenant : String) :
    Unwinding step (fun a => decide (a.ctx = some tenant)) (fun s a => respects tenant s a = true)
      (Agree tenant) Answer.same where
  kept := by
    intro s t a hst hkeep hok
    have hctx : a.ctx = some tenant := of_decide_eq_true hkeep
    cases a with
    | put ctx id payload =>
      refine ⟨agree_put_both hst ctx id payload, ?_⟩
      show Answer.same (.record (s.put ctx id payload).2) (.record (t.put ctx id payload).2)
      rw [put_answer s t]
      exact same_refl _
    | get ctx id =>
      refine ⟨hst, ?_⟩
      show s.get ctx id = t.get ctx id
      cases h : fromContext ctx with
      | error e => rw [Store.get, Store.get, h]
      | ok tid =>
        have htid : tenant = tid := some.inj (hctx.symm.trans (fromContext_some h))
        subst htid
        rw [get_eq s h, get_eq t h, hst id]
    | list ctx =>
      cases hctx
      exact ⟨hst, list_same hst⟩
  purged := by
    intro s t a hst hkeep hok
    have hctx : a.ctx ≠ some tenant := of_decide_eq_false hkeep
    cases a with
    | put ctx id payload => exact agree_put_other hst hctx hok
    | get ctx id | list ctx => exact hst

end

/-- In every sequence of operations in which no `Put` of another tenant replaces a
record of the tenant, purging the operations of the other tenants leaves the tenant's
answers unchanged. -/
theorem answers_unchanged_by_others (tenant : String) (as : List Op)
    (hok : StepsMeet step (fun s a => respects tenant s a = true) .new as) :
    List.Forall₂ (fun x y => x.1 = y.1 ∧ x.2.same y.2)
      ((answers step .new as).filter fun x => decide (x.1.ctx = some tenant))
      (answers step .new (as.filter fun a => decide (a.ctx = some tenant))) :=
  (unwinding tenant).answers (fun _ => rfl) hok

theorem answers_unchanged_by_others_apart :
    List.Forall₂ (fun x y => x.1 = y.1 ∧ x.2.same y.2)
      ((answers step .new [.put (some "tenant-a") "rec1" "a", .put (some "tenant-b") "rec2" "b",
        .get (some "tenant-b") "rec1", .list (some "tenant-a")]).filter
          fun x => decide (x.1.ctx = some "tenant-a"))
      (answers step .new [.put (some "tenant-a") "rec1" "a", .list (some "tenant-a")]) :=
  answers_unchanged_by_others "tenant-a" [.put (some "tenant-a") "rec1" "a",
    .put (some "tenant-b") "rec2" "b", .get (some "tenant-b") "rec1", .list (some "tenant-a")]
    (by decide)

/-- A second tenant chooses the id of the first tenant's record. -/
theorem put_hides_record :
    let as := [Op.put (some "tenant-a") "rec1" "a", .put (some "tenant-b") "rec1" "b",
      .get (some "tenant-a") "rec1"]
    ((answers step .new as).filter fun x => decide (x.1.ctx = some "tenant-a")).map Prod.snd =
      [.record (.ok ⟨"rec1", "tenant-a", "a"⟩), .record (.error .notFound)] ∧
    (answers step .new (as.filter fun a => decide (a.ctx = some "tenant-a"))).map Prod.snd =
      [.record (.ok ⟨"rec1", "tenant-a", "a"⟩), .record (.ok ⟨"rec1", "tenant-a", "a"⟩)] := by
  decide

end GoServices.MultiTenant
