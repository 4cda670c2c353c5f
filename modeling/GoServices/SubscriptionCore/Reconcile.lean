/-
The reconciler, and what its answer says about later webhooks.

`reconcileOne` is `ReconcileOne`: it fetches the provider's snapshot of a subscription and writes
it when the stored record is missing or has drifted.
-/
import GoServices.SubscriptionCore.StatusPaths

namespace GoServices.SubscriptionCore

open Table

inductive Outcome
  | inSync
  | repaired
  | adopted
  | stale
  deriving DecidableEq

/-- `FetchSubscription` fails; the fake provider says so for an id it does not know. -/
inductive FetchError
  | notFound
  | unavailable
  deriving DecidableEq

inductive ReconcileError
  | fetch (e : FetchError)
  | store (e : StoreError)
  deriving DecidableEq

structure Snapshot (id : String) where
  truth : Subscription
  sameID : truth.providerSubID = id

def drifted (held truth : Subscription) : Bool :=
  held.status ≠ truth.status || held.planID ≠ truth.planID ||
    held.seatCount ≠ truth.seatCount || held.cancelAtPeriodEnd ≠ truth.cancelAtPeriodEnd

/-- `ReconcileOne` after `GetByProviderID`. -/
def afterCompare (truth : Subscription) : Except StoreError Subscription → Next Outcome
  | .error .notFound => .write truth .adopted
  | .error e => .fail e
  | .ok held =>
    if truth.providerUpdatedAt < held.providerUpdatedAt then .answer .stale
    else if !drifted held truth then .answer .inSync
    else .write truth .repaired

/-- `ReconcileOne(id)`; `answer` is what `FetchSubscription` returns. -/
def reconcileOne (getFails : Bool) (upsert : Fault) (w : World) (id : String)
    (answer : Except FetchError (Snapshot id)) : World × Except ReconcileError Outcome :=
  match answer with
  | .error e => (w, .error (.fetch e))
  | .ok snapshot =>
    (afterCompare snapshot.truth (w.store.read getFails id)).perform .store upsert w

/-! ## One call -/

inductive Reconciles (w : World) (id : String) (snapshot : Snapshot id) :
    World → Except ReconcileError Outcome → Prop
  | failed {e : _} : Reconciles w id snapshot w (.error e)
  | stale : Reconciles w id snapshot w (.ok .stale)
  | inSync {held : _} (hget : w.store.byProv.get? id = some held)
      (hle : held.providerUpdatedAt ≤ snapshot.truth.providerUpdatedAt) :
      Reconciles w id snapshot w (.ok .inSync)
  | written {w' r : _}
      (hle : ∀ held, w.store.byProv.get? id = some held →
        held.providerUpdatedAt ≤ snapshot.truth.providerUpdatedAt)
      (hbyProv : w'.store.byProv = w.store.byProv.set id snapshot.truth)
      (hr : r ≠ .ok .inSync) : Reconciles w id snapshot w' r

variable {w : World} {id : String} {snapshot : Snapshot id}

theorem write_reconciles {outcome : Outcome} (hle : ∀ held, w.store.byProv.get? id = some held →
      held.providerUpdatedAt ≤ snapshot.truth.providerUpdatedAt)
    (houtcome : outcome ≠ .inSync) (f : Fault) :
    Reconciles w id snapshot
      ((Next.write snapshot.truth outcome).perform ReconcileError.store f w).1
      ((Next.write snapshot.truth outcome).perform ReconcileError.store f w).2 := by
  have hbyProv : (w.store.upsert snapshot.truth).byProv = w.store.byProv.set id snapshot.truth := by
    rw [Store.upsert, snapshot.sameID]
  cases f with
  | works => exact .written hle hbyProv fun h => houtcome (Except.ok.inj h)
  | failsBefore => exact .failed
  | failsAfter => exact .written hle hbyProv fun h => by cases h

theorem reconcileOne_reconciles (getFails : Bool) (upsert : Fault) (w : World)
    (snapshot : Snapshot id) :
    Reconciles w id snapshot (reconcileOne getFails upsert w id (.ok snapshot)).1
      (reconcileOne getFails upsert w id (.ok snapshot)).2 := by
  unfold reconcileOne Store.read
  cases getFails with
  | true => exact .failed
  | false =>
    simp only [Store.getByProviderID, Bool.false_eq_true, if_false]
    cases hget : w.store.byProv.get? id with
    | none =>
      refine write_reconciles (fun held hheld => ?_) (by decide) upsert
      rw [hget] at hheld
      cases hheld
    | some held =>
      by_cases hstale : snapshot.truth.providerUpdatedAt < held.providerUpdatedAt
      · simp only [afterCompare, hstale, if_true]
        exact .stale
      have hle := Int.not_lt.mp hstale
      cases hdrift : drifted held snapshot.truth with
      | false =>
        simp only [afterCompare, hstale, if_false, hdrift, Bool.not_false, if_true]
        exact .inSync hget hle
      | true =>
        simp only [afterCompare, hstale, if_false, hdrift, Bool.not_true, Bool.false_eq_true]
        refine write_reconciles (fun held' hheld' => ?_) (by decide) upsert
        rw [hget] at hheld'
        cases hheld'
        exact hle

/-! ## Histories -/

inductive Op
  | handle (d : Delivery)
  | reconcile (getFails : Bool) (upsert : Fault) (id : String)
      (answer : Except FetchError (Snapshot id))

variable (p : Provider)

def Op.apply (w : World) : Op → World
  | .handle d => (deliver p w d).1
  | .reconcile getFails upsert id answer => (reconcileOne getFails upsert w id answer).1

def runOps (w : World) (ops : List Op) : World :=
  ops.foldl (Op.apply p) w

/-- The stored watermark has reached `t`. -/
def Reached (id : String) (t : Int) (w : World) : Prop :=
  ∃ s, w.store.byProv.get? id = some s ∧ t ≤ s.providerUpdatedAt

variable {w' : World} {r : Except ReconcileError Outcome} {evt : Event} {held : Subscription}

theorem Reconciles.keyed (hw : AllKeyed w) (h : Reconciles w id snapshot w' r) :
    AllKeyed w' := by
  cases h with
  | failed | stale | inSync hget hle => exact hw
  | written hle hbyProv hr =>
    have hset : w'.store.byProv =
        w.store.byProv.set snapshot.truth.providerSubID snapshot.truth := by
      rw [hbyProv, snapshot.sameID]
    exact allKeyed_set hw hset

variable {t : Int}

theorem Reconciles.reached (h : Reconciles w id snapshot w' r)
    {sub : String} (hw : Reached sub t w) : Reached sub t w' := by
  cases h with
  | failed | stale | inSync hget hle => exact hw
  | written hle hbyProv hr =>
    obtain ⟨s, hs, ht⟩ := hw
    rw [Reached, hbyProv, get?_set]
    by_cases hsub : sub = id
    · subst hsub
      rw [if_pos rfl]
      exact ⟨_, rfl, ht.trans (hle s hs)⟩
    · rw [if_neg hsub]
      exact ⟨s, hs, ht⟩

theorem apply_step (hw : AllKeyed w) (op : Op) :
    AllKeyed (op.apply p w) ∧ ∀ sub t, Reached sub t w → Reached sub t (op.apply p w) := by
  cases op with
  | handle d =>
    obtain ⟨hkeyed, hfollows⟩ := deliver_step hw p d
    refine ⟨hkeyed, fun sub t ⟨s, hs, ht⟩ => ?_⟩
    obtain ⟨s', hs', -, hle⟩ := hfollows sub s hs
    exact ⟨s', hs', ht.trans hle⟩
  | reconcile getFails upsert id answer =>
    cases answer with
    | error e => exact ⟨hw, fun _ _ h => h⟩
    | ok snapshot =>
      have h := reconcileOne_reconciles getFails upsert w snapshot
      exact ⟨h.keyed hw, fun _ _ => h.reached⟩

theorem runOps_reached (hw : AllKeyed w) (ops : List Op) :
    AllKeyed (runOps p w ops) ∧ ∀ sub t, Reached sub t w → Reached sub t (runOps p w ops) := by
  induction ops generalizing w with
  | nil => exact ⟨hw, fun _ _ h => h⟩
  | cons op ops ih =>
    obtain ⟨hw', hreached⟩ := apply_step p hw op
    obtain ⟨hw'', hreached'⟩ := ih hw'
    exact ⟨hw'', fun sub t h => hreached' sub t (hreached sub t h)⟩

/-! ## Older events -/

/-- After any history from `w`, no `Handle` of an event from before `t` changes the
stored subscription. -/
def OlderEventsDropped (w : World) (id : String) (t : Int) : Prop :=
  ∀ (p : Provider) (ops : List Op) (d : Delivery) (evt : Event), d.event p = .ok evt →
    evt.subscription.providerUpdatedAt < t →
    (deliver p (runOps p w ops) d).1.store.byProv.get? id = (runOps p w ops).store.byProv.get? id

theorem Handles.get?_of_older {r : Except HandleError Result} (hw : AllKeyed w)
    (h : Handles w evt w' r) (hreached : Reached id t w)
    (hold : evt.subscription.providerUpdatedAt < t) :
    w'.store.byProv.get? id = w.store.byProv.get? id := by
  cases h with
  | kept hsame => rw [hsame.byProv]
  | written hnew hsub hbyProv hbySubj hr =>
    rw [hbyProv, get?_set, if_neg]
    intro hid
    -- the record found for the event is the one that has reached `t`
    obtain ⟨s, hs, ht⟩ := hreached
    rw [hid, hw.accepted hsub] at hs
    rw [accepted, hs] at hsub
    dsimp only at hsub
    split at hsub <;> try cases hsub
    rename_i hok
    exact absurd (ht.trans hok.1) (Int.not_le.mpr hold)

theorem olderEventsDropped_of_reached (hw : AllKeyed w) (h : Reached id t w) :
    OlderEventsDropped w id t := by
  intro p ops d evt hevt hold
  obtain ⟨hkeyed, hreached⟩ := runOps_reached p hw ops
  rw [deliver_eq hevt]
  exact (handleEvent_handles d.faults _ evt).get?_of_older hkeyed (hreached id t h) hold

def oneMoreSeat (eventID : String) (held : Subscription) : Event :=
  { providerEventID := eventID
    type := .unknown ""
    subscription := { held with seatCount := held.seatCount + 1 }
    occurredAt := 0 }

theorem accepted_oneMoreSeat
    (hget : w.store.byProv.get? held.providerSubID = some held) (eventID : String) :
    accepted w (oneMoreSeat eventID held) = some { held with seatCount := held.seatCount + 1 } := by
  simp [accepted, oneMoreSeat, Event.targetStatus, hget, canTransition_self]

theorem handleEvent_of_accepted {sub : Subscription}
    (hnew : w.store.marked evt.providerEventID = false) (h : accepted w evt = some sub) :
    (handleEvent .none w evt).1.store.byProv = w.store.byProv.set sub.providerSubID sub := by
  rw [handleEvent_of_unmarked hnew]
  unfold accepted at h
  unfold applyEvent
  simp only [Faults.none, Bool.false_eq_true, if_false, Store.read, Store.getByProviderID]
  split at h
  · rename_i hget
    cases h
    simp only [hget]
    rfl
  rename_i existing hget
  split at h <;> cases h
  rename_i hok
  simp only [hget, afterRead, Int.not_lt.mpr hok.1, if_false, applyTransition, hok.2, if_true]
  rfl

theorem not_olderEventsDropped (hw : AllKeyed w)
    (hget : w.store.byProv.get? id = some held) (hlt : held.providerUpdatedAt < t) :
    ¬ OlderEventsDropped w id t := by
  intro hdropped
  obtain ⟨eventID, hfresh⟩ := exists_get?_eq_none w.store.events
  have hid := hw id held hget
  have hnew : w.store.marked (oneMoreSeat eventID held).providerEventID = false := by
    rw [Store.marked, oneMoreSeat, hfresh]
    rfl
  have hsub := accepted_oneMoreSeat (hid.symm ▸ hget) eventID
  have hsame := hdropped ⟨fun _ _ => .ok (oneMoreSeat eventID held)⟩ [] ⟨.none, [], ""⟩
    (oneMoreSeat eventID held) rfl hlt
  rw [deliver_eq rfl] at hsame
  rw [show runOps _ w [] = w from rfl, handleEvent_of_accepted hnew hsub, hid,
    get?_set_self, hget] at hsame
  have hseats : held.seatCount + 1 = held.seatCount :=
    congrArg Subscription.seatCount (Option.some.inj hsame)
  omega

/-- After any history, let `ReconcileOne` answer in_sync, repaired or adopted for a
snapshot. -/
theorem older_events_dropped_iff (p : Provider) (ops : List Op) (getFails : Bool)
    (upsert : Fault) {id : String} (snapshot : Snapshot id) {outcome : Outcome}
    (hanswer : (reconcileOne getFails upsert (runOps p .new ops) id (.ok snapshot)).2 = .ok outcome)
    (hstale : outcome ≠ .stale) :
    OlderEventsDropped (reconcileOne getFails upsert (runOps p .new ops) id (.ok snapshot)).1 id
        snapshot.truth.providerUpdatedAt ↔
      (outcome = .inSync → ∀ held, (runOps p .new ops).store.byProv.get? id = some held →
        held.providerUpdatedAt = snapshot.truth.providerUpdatedAt) := by
  obtain ⟨hw, -⟩ := runOps_reached p allKeyed_new ops
  have h := reconcileOne_reconciles getFails upsert (runOps p .new ops) snapshot
  have hkeyed := h.keyed hw
  generalize reconcileOne getFails upsert (runOps p .new ops) id (.ok snapshot) = result
    at hanswer h hkeyed ⊢
  obtain ⟨w', r⟩ := result
  subst hanswer
  cases h with
  | stale => exact absurd rfl hstale
  | inSync hget hle =>
    constructor
    · intro hdropped _ held hheld
      rw [hget] at hheld
      cases hheld
      by_contra hne
      exact not_olderEventsDropped hkeyed hget (lt_of_le_of_ne hle hne) hdropped
    · intro htime
      exact olderEventsDropped_of_reached hkeyed ⟨_, hget, (htime rfl _ hget).ge⟩
  | written hle hbyProv hr =>
    refine ⟨fun _ hsync => absurd (congrArg Except.ok hsync) hr, fun _ => ?_⟩
    refine olderEventsDropped_of_reached hkeyed ⟨snapshot.truth, ?_, le_rfl⟩
    rw [hbyProv, get?_set_self]

def lateFailure : Event :=
  { demoEvent with
    providerEventID := "evt_2"
    type := .paymentFailed
    subscription := { demoEvent.subscription with providerUpdatedAt := 5 } }

def demoProvider : Provider :=
  .fake ((Table.empty.set "sig1" demoEvent).set "sig2" lateFailure)

def demoHistory : List Op := [.handle { faults := .none, payload := [], signature := "sig1" }]

def laterSnapshot (status : Status) : Snapshot "psub" where
  truth := { demoEvent.subscription with status := status, providerUpdatedAt := 10 }
  sameID := rfl

theorem older_events_dropped_iff_repaired :
    OlderEventsDropped
      (reconcileOne false .works (runOps demoProvider .new demoHistory) "psub"
        (.ok (laterSnapshot .paused))).1 "psub" 10 := by
  have hrepaired : (reconcileOne false .works (runOps demoProvider .new demoHistory) "psub"
      (.ok (laterSnapshot .paused))).2 = .ok .repaired := by decide
  refine (older_events_dropped_iff demoProvider demoHistory false .works _ hrepaired
    (by decide)).mpr fun h => ?_
  cases h

/-- The snapshot of time 10 is in sync with the record of time 1, and then the failure of
time 5 makes the subscription past due. -/
theorem in_sync_leaves_watermark :
    let w := runOps demoProvider .new demoHistory
    let synced := reconcileOne false .works w "psub" (.ok (laterSnapshot .active))
    let late : Delivery := { faults := .none, payload := [], signature := "sig2" }
    synced.2 = .ok .inSync ∧ (laterSnapshot .active).truth.providerUpdatedAt = 10 ∧
      late.event demoProvider = .ok lateFailure ∧
      lateFailure.subscription.providerUpdatedAt = 5 ∧
      stored synced.1 "psub" = some (.active, 1) ∧
      stored (deliver demoProvider synced.1 late).1 "psub" = some (.pastDue, 5) := by
  decide

end GoServices.SubscriptionCore
