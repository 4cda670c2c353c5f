/-
The webhook processor over a store whose operations may fail.

`handle` is `Processor.Handle`: it verifies, records the event id, reads the subscription, and
writes it when the event is new enough and its transition is legal.
-/
import GoServices.SubscriptionCore.Domain

namespace GoServices.SubscriptionCore

open Table

inductive Result
  | processed
  | duplicate
  | stale
  | illegal
  deriving DecidableEq

def Result.text : Result → String
  | .processed => "processed"
  | .duplicate => "duplicate"
  | .stale => "stale_ignored"
  | .illegal => "illegal_transition"

inductive StoreError
  | notFound
  | unavailable
  deriving DecidableEq

inductive VerifyError
  | invalidSignature
  | malformed
  deriving DecidableEq

inductive HandleError
  | verify (e : VerifyError)
  | store (e : StoreError)
  deriving DecidableEq

abbrev Payload := List UInt8

/-- `BillingProvider`, as far as the processor uses it. -/
structure Provider where
  verifyAndParse : Payload → String → Except VerifyError Event

def Provider.fake (events : Table String Event) : Provider where
  verifyAndParse _ signature :=
    match events.get? signature with
    | some e => .ok e
    | none => .error .invalidSignature

/-! ## The store -/

structure Store where
  byProv : Table String Subscription
  bySubj : Table String Subscription
  events : Table String Bool

inductive Fault
  | works
  | failsBefore
  | failsAfter
  deriving DecidableEq

/-- How the three calls of one `Handle` go; a read that fails has no effect. -/
structure Faults where
  mark : Fault
  getFails : Bool
  upsert : Fault
  deriving DecidableEq

def Faults.none : Faults := { mark := .works, getFails := false, upsert := .works }

def Fault.apply {α : Type} (f : Fault) (s : Store) (write : Store × α) :
    Store × Except StoreError α :=
  match f with
  | .works => (write.1, .ok write.2)
  | .failsBefore => (s, .error .unavailable)
  | .failsAfter => (write.1, .error .unavailable)

namespace Store

def new : Store := { byProv := .empty, bySubj := .empty, events := .empty }

def getByProviderID (s : Store) (id : String) : Except StoreError Subscription :=
  match s.byProv.get? id with
  | some sub => .ok sub
  | none => .error .notFound

def upsert (s : Store) (sub : Subscription) : Store :=
  { s with
    byProv := s.byProv.set sub.providerSubID sub
    bySubj := s.bySubj.set sub.customerID sub }

/-- The read `s.events[id]`. -/
def marked (s : Store) (id : String) : Bool := (s.events.get? id).getD false

def markProcessed (s : Store) (id : String) : Store × Bool :=
  if s.marked id then (s, false)
  else ({ s with events := s.events.set id true }, true)

end Store

structure World where
  store : Store
  cache : Table String Entitlement

def World.new : World := { store := .new, cache := .empty }

/-! ## The processor -/

/-- What a call does once it has read the subscription. -/
inductive Next (ρ : Type)
  | fail (e : StoreError)
  | answer (r : ρ)
  | write (sub : Subscription) (r : ρ)

/-- The rest of the call; it writes with `Upsert`, then `Bust`. -/
def Next.perform {ρ ε : Type} (fail : StoreError → ε) (f : Fault) (w : World) :
    Next ρ → World × Except ε ρ
  | .fail e => (w, .error (fail e))
  | .answer r => (w, .ok r)
  | .write sub r =>
    match f.apply w.store (w.store.upsert sub, ()) with
    | (store, .error e) => ({ w with store := store }, .error (fail e))
    | (store, .ok ()) => ({ store := store, cache := w.cache.erase sub.customerID }, .ok r)

/-- `Handle` after `GetByProviderID`. -/
def afterRead (evt : Event) : Except StoreError Subscription → Next Result
  | .error .notFound => .write { evt.subscription with status := evt.targetStatus } .processed
  | .error e => .fail e
  | .ok existing =>
    if evt.subscription.providerUpdatedAt < existing.providerUpdatedAt then .answer .stale
    else
      match applyTransition existing evt.targetStatus with
      | .error _ => .answer .illegal
      | .ok updated =>
        .write
          { updated with
            planID := evt.subscription.planID
            seatCount := evt.subscription.seatCount
            currentPeriodEnd := evt.subscription.currentPeriodEnd
            cancelAtPeriodEnd := evt.subscription.cancelAtPeriodEnd
            providerUpdatedAt := evt.subscription.providerUpdatedAt } .processed

def Store.read (s : Store) (getFails : Bool) (id : String) : Except StoreError Subscription :=
  if getFails then .error .unavailable else s.getByProviderID id

/-- `Handle` after the event id was recorded for the first time. -/
def applyEvent (f : Faults) (w : World) (evt : Event) : World × Except HandleError Result :=
  (afterRead evt (w.store.read f.getFails evt.subscription.providerSubID)).perform .store f.upsert w

abbrev persist (f : Fault) (w : World) (sub : Subscription) : World × Except HandleError Result :=
  (Next.write sub .processed).perform .store f w

/-- `Handle` after `VerifyAndParse`. -/
def handleEvent (f : Faults) (w : World) (evt : Event) : World × Except HandleError Result :=
  match f.mark.apply w.store (w.store.markProcessed evt.providerEventID) with
  | (store, .error e) => ({ w with store := store }, .error (.store e))
  | (store, .ok false) => ({ w with store := store }, .ok .duplicate)
  | (store, .ok true) => applyEvent f { w with store := store } evt

/-- `Handle(payload, signature)`. -/
def handle (p : Provider) (f : Faults) (w : World) (payload : Payload) (signature : String) :
    World × Except HandleError Result :=
  match p.verifyAndParse payload signature with
  | .error e => (w, .error (.verify e))
  | .ok evt => handleEvent f w evt

structure Response where
  status : Nat
  body : String
  deriving DecidableEq

/-- `ServeHTTP`; `body` is `none` when it cannot be read. -/
def serveHTTP (p : Provider) (f : Faults) (w : World) (method : String)
    (body : Option Payload) (signature : String) : World × Response :=
  if method ≠ "POST" then (w, { status := 405, body := "method not allowed\n" })
  else
    match body with
    | none => (w, { status := 400, body := "cannot read body\n" })
    | some body =>
      match handle p f w (body.take (2 ^ 20)) signature with
      | (w, .error (.verify .invalidSignature)) =>
        (w, { status := 400, body := "invalid signature\n" })
      | (w, .error _) => (w, { status := 500, body := "processing failed\n" })
      | (w, .ok res) => (w, { status := 200, body := res.text })

/-! ## Marks -/

namespace Store

theorem marked_upsert (s : Store) (sub : Subscription) (id : String) :
    (s.upsert sub).marked id = s.marked id := rfl

theorem marked_markProcessed (s : Store) (id j : String) :
    (s.markProcessed id).1.marked j = (s.marked j || decide (j = id)) := by
  unfold markProcessed
  by_cases hid : s.marked id
  · rw [if_pos hid]
    by_cases hj : j = id
    · rw [hj, hid, Bool.true_or]
    · rw [decide_eq_false hj, Bool.or_false]
  rw [if_neg hid]
  simp only [marked, get?_set]
  by_cases hj : j = id
  · simp [hj]
  · simp [hj]

end Store

theorem Fault.apply_fst {α : Type} (f : Fault) (s : Store) (write : Store × α) :
    (f.apply s write).1 = if f = .failsBefore then s else write.1 := by
  cases f <;> rfl

theorem marked_persist (f : Fault) (w : World) (sub : Subscription) (id : String) :
    (persist f w sub).1.store.marked id = w.store.marked id := by
  have hstore : (persist f w sub).1.store = (f.apply w.store (w.store.upsert sub, ())).1 := by
    cases f <;> rfl
  rw [hstore, Fault.apply_fst]
  split
  · rfl
  · exact Store.marked_upsert _ _ _

section
variable (f : Faults) (w : World) (evt : Event)
include f w evt

theorem applyEvent_cases :
    (∃ sub, applyEvent f w evt = persist f.upsert w sub) ∨
      ((applyEvent f w evt).1 = w ∧ (applyEvent f w evt).2 ≠ .ok .duplicate) := by
  unfold applyEvent
  cases w.store.read f.getFails evt.subscription.providerSubID with
  | error e =>
    cases e with
    | notFound => exact .inl ⟨_, rfl⟩
    | unavailable => exact .inr ⟨rfl, nofun⟩
  | ok existing =>
    dsimp only [afterRead]
    split
    · exact .inr ⟨rfl, nofun⟩
    split
    · exact .inr ⟨rfl, nofun⟩
    · exact .inl ⟨_, rfl⟩

theorem marked_applyEvent (id : String) :
    (applyEvent f w evt).1.store.marked id = w.store.marked id := by
  rcases applyEvent_cases f w evt with ⟨sub, hwrite⟩ | ⟨hsame, -⟩
  · rw [hwrite]
    exact marked_persist _ _ _ _
  · rw [hsame]

theorem marked_handleEvent (id : String) :
    (handleEvent f w evt).1.store.marked id = (w.store.marked id ||
        (decide (f.mark ≠ .failsBefore) && decide (id = evt.providerEventID))) := by
  have hmark : (handleEvent f w evt).1.store.marked id =
      (f.mark.apply w.store (w.store.markProcessed evt.providerEventID)).1.marked id := by
    unfold handleEvent
    split
    · next h => rw [h]
    · next h => rw [h]
    · next h => rw [h, marked_applyEvent]
  rw [hmark, Fault.apply_fst]
  by_cases hf : f.mark = .failsBefore
  · simp [hf]
  · simp [hf, Store.marked_markProcessed]

end

structure Delivery where
  faults : Faults
  payload : Payload
  signature : String

def deliver (p : Provider) (w : World) (d : Delivery) : World × Except HandleError Result :=
  handle p d.faults w d.payload d.signature

def deliverAll (p : Provider) (w : World) (ds : List Delivery) : World :=
  ds.foldl (fun w d => (deliver p w d).1) w

def Delivery.event (p : Provider) (d : Delivery) : Except VerifyError Event :=
  p.verifyAndParse d.payload d.signature

variable {evt : Event} {v w : World}

theorem deliver_eq {p : Provider} {d : Delivery} (h : d.event p = .ok evt) (w : World)
    : deliver p w d = handleEvent d.faults w evt := by
  unfold Delivery.event at h
  unfold deliver handle
  rw [h]

theorem marked_deliverAll {p : Provider} {id : String} {ds : List Delivery}
    (hother : ∀ d ∈ ds, ∀ evt, d.event p = .ok evt → evt.providerEventID ≠ id) (w : World) :
    (deliverAll p w ds).store.marked id = w.store.marked id := by
  induction ds generalizing w with
  | nil => rfl
  | cons d ds ih =>
    have hhead : (deliver p w d).1.store.marked id = w.store.marked id := by
      cases hevt : d.event p with
      | error e =>
        unfold Delivery.event at hevt
        unfold deliver handle
        rw [hevt]
      | ok evt =>
        have hne := hother d (List.mem_cons_self ..) evt hevt
        rw [deliver_eq hevt, marked_handleEvent, decide_eq_false (Ne.symm hne), Bool.and_false,
          Bool.or_false]
    exact (ih (fun d' hd' => hother d' (List.mem_cons_of_mem _ hd')) _).trans hhead

/-! ## Redelivery -/

theorem handleEvent_of_marked (h : w.store.marked evt.providerEventID = true) :
    handleEvent .none w evt = (w, .ok .duplicate) := by
  have hmark : w.store.markProcessed evt.providerEventID = (w.store, false) := if_pos h
  unfold handleEvent
  simp only [Faults.none, Fault.apply, hmark]

theorem handleEvent_of_unmarked (h : w.store.marked evt.providerEventID = false) :
    handleEvent .none w evt = applyEvent .none
      { w with store := { w.store with events := w.store.events.set evt.providerEventID true } }
      evt := by
  have hmark : w.store.markProcessed evt.providerEventID =
      ({ w.store with events := w.store.events.set evt.providerEventID true }, true) :=
    if_neg (by rw [h]; exact Bool.false_ne_true)
  unfold handleEvent
  simp only [Faults.none, Fault.apply, hmark]

theorem applyEvent_ne_duplicate (f : Faults) (w : World) (evt : Event) :
    (applyEvent f w evt).2 ≠ .ok .duplicate := by
  rcases applyEvent_cases f w evt with ⟨sub, hwrite⟩ | ⟨-, hanswer⟩
  · rw [hwrite]
    unfold persist Next.perform Fault.apply
    cases f.upsert <;> simp
  · exact hanswer

structure World.Same (w v : World) : Prop where
  byProv : w.store.byProv = v.store.byProv
  bySubj : w.store.bySubj = v.store.bySubj
  cache : w.cache = v.cache
  marked : ∀ id, w.store.marked id = v.store.marked id

theorem persist_same (h : w.Same v) (f : Fault) (sub : Subscription) :
    (persist f w sub).2 = (persist f v sub).2 ∧ (persist f w sub).1.Same (persist f v sub).1 := by
  have hmarked : ∀ id, (persist f w sub).1.store.marked id =
      (persist f v sub).1.store.marked id := fun id => by
    rw [marked_persist, marked_persist, h.marked id]
  cases f with
  | works =>
    refine ⟨rfl, ?_, ?_, ?_, hmarked⟩
    · exact congrArg (Table.set · sub.providerSubID sub) h.byProv
    · exact congrArg (Table.set · sub.customerID sub) h.bySubj
    · exact congrArg (Table.erase · sub.customerID) h.cache
  | failsBefore => exact ⟨rfl, h⟩
  | failsAfter =>
    refine ⟨rfl, ?_, ?_, h.cache, hmarked⟩
    · exact congrArg (Table.set · sub.providerSubID sub) h.byProv
    · exact congrArg (Table.set · sub.customerID sub) h.bySubj

theorem applyEvent_same (h : w.Same v) (f : Faults) (evt : Event) :
    (applyEvent f w evt).2 = (applyEvent f v evt).2 ∧
      (applyEvent f w evt).1.Same (applyEvent f v evt).1 := by
  have hread : w.store.read f.getFails evt.subscription.providerSubID =
      v.store.read f.getFails evt.subscription.providerSubID := by
    simp only [Store.read, Store.getByProviderID, h.byProv]
  unfold applyEvent
  rw [hread]
  cases v.store.read f.getFails evt.subscription.providerSubID with
  | error e =>
    cases e with
    | notFound => exact persist_same h _ _
    | unavailable => exact ⟨rfl, h⟩
  | ok existing =>
    dsimp only [afterRead]
    split
    · exact ⟨rfl, h⟩
    split
    · exact ⟨rfl, h⟩
    · exact persist_same h _ _

def World.unmark (w : World) (id : String) : World :=
  { w with store := { w.store with events := w.store.events.erase id } }

theorem marked_unmark (w : World) (id j : String) :
    (w.unmark id).store.marked j = (w.store.marked j && decide (j ≠ id)) := by
  simp only [World.unmark, Store.marked, get?_erase]
  by_cases hj : j = id
  · simp [hj]
  · simp [hj]

def AsFirstDelivered (p : Provider) (w : World) (payload : Payload) (signature : String) : Prop :=
  ∀ evt, p.verifyAndParse payload signature = .ok evt →
    (handle p .none w payload signature).2 ≠ .ok .duplicate ∧
    (handle p .none w payload signature).2 =
      (handle p .none (w.unmark evt.providerEventID) payload signature).2 ∧
    (handle p .none w payload signature).1.Same
      (handle p .none (w.unmark evt.providerEventID) payload signature).1

theorem asFirstDelivered_iff (p : Provider) (w : World) (payload : Payload) (signature : String) :
    AsFirstDelivered p w payload signature ↔ ∀ evt, p.verifyAndParse payload signature = .ok evt →
        w.store.marked evt.providerEventID = false := by
  refine forall₂_congr fun evt hevt => ?_
  have hhandle : ∀ v : World, handle p .none v payload signature = handleEvent .none v evt := by
    intro v
    unfold handle
    rw [hevt]
  simp only [hhandle]
  constructor
  · intro h
    cases hm : w.store.marked evt.providerEventID with
    | false => rfl
    | true =>
      rw [handleEvent_of_marked hm] at h
      exact absurd rfl h.1
  intro hm
  have hunmarked : (w.unmark evt.providerEventID).store.marked evt.providerEventID = false := by
    rw [marked_unmark, hm, Bool.false_and]
  rw [handleEvent_of_unmarked hm, handleEvent_of_unmarked hunmarked]
  refine ⟨applyEvent_ne_duplicate _ _ _, applyEvent_same ?_ _ _⟩
  refine ⟨rfl, rfl, rfl, fun id => ?_⟩
  simp only [World.unmark, Store.marked, get?_set, get?_erase]
  split <;> rfl

def Writes (w : World) (evt : Event) : Prop :=
  ∀ existing, w.store.byProv.get? evt.subscription.providerSubID = some existing →
    existing.providerUpdatedAt ≤ evt.subscription.providerUpdatedAt ∧
      canTransition existing.status evt.targetStatus = true

def StoreWorks (f : Faults) (w : World) (evt : Event) : Prop :=
  f.mark = .works ∧ (w.store.marked evt.providerEventID = true ∨
    (f.getFails = false ∧ (f.upsert = .works ∨ ¬ Writes w evt)))

theorem persist_error_iff (f : Fault) (w : World) (sub : Subscription) :
    (∃ e, (persist f w sub).2 = .error e) ↔ f ≠ .works := by
  cases f <;> simp [persist, Next.perform, Fault.apply]

theorem applyEvent_error_iff (f : Faults) (w : World) (evt : Event) :
    (∃ e, (applyEvent f w evt).2 = .error e) ↔
      f.getFails = true ∨ (f.upsert ≠ .works ∧ Writes w evt) := by
  unfold applyEvent Writes Store.read Store.getByProviderID
  cases hfails : f.getFails with
  | true => simp [afterRead, Next.perform]
  | false =>
    cases hget : w.store.byProv.get? evt.subscription.providerSubID with
    | none => simp [afterRead, persist_error_iff]
    | some existing =>
      by_cases hstale : evt.subscription.providerUpdatedAt < existing.providerUpdatedAt
      · simp [afterRead, Next.perform, hstale]
      by_cases hcan : canTransition existing.status evt.targetStatus = true
      · simp [afterRead, hstale, applyTransition, hcan, persist_error_iff, Int.not_lt.mp hstale]
      · simp [afterRead, Next.perform, hstale, applyTransition, hcan]

theorem handleEvent_error_iff (f : Faults) (w : World) (evt : Event) :
    (∃ e, (handleEvent f w evt).2 = .error e) ↔ ¬ StoreWorks f w evt := by
  unfold handleEvent StoreWorks
  cases hf : f.mark with
  | failsBefore | failsAfter => simp [Fault.apply]
  | works =>
    unfold Store.markProcessed
    cases hm : w.store.marked evt.providerEventID with
    | true => simp [Fault.apply]
    | false =>
      simp only [Fault.apply, Bool.false_eq_true, if_false, applyEvent_error_iff]
      simp only [Writes]
      cases f.getFails <;> by_cases hup : f.upsert = .works <;> simp [hup]

def LeavesEventOpen (f : Faults) (w : World) (evt : Event) : Prop :=
  w.store.marked evt.providerEventID = false ∧ f.mark = .failsBefore

def RedeliveryAsFirst (p : Provider) (w : World) (d : Delivery) : Prop :=
  ∀ (e : HandleError) (others : List Delivery), (deliver p w d).2 = .error e →
    (∀ d' ∈ others, ∀ evt evt', d.event p = .ok evt → d'.event p = .ok evt' →
      evt'.providerEventID ≠ evt.providerEventID) →
    AsFirstDelivered p (deliverAll p (deliver p w d).1 others) d.payload d.signature

/-- A redelivery after an error is processed as a first delivery exactly when no
store call of the failing delivery fails, so that there is no error, or when it is
the recording of a new event id that fails, with no effect. -/
theorem redelivery_as_first_iff (p : Provider) (w : World) (d : Delivery) :
    RedeliveryAsFirst p w d ↔
      ∀ evt, d.event p = .ok evt → StoreWorks d.faults w evt ∨ LeavesEventOpen d.faults w evt := by
  constructor
  · intro h evt hevt
    by_cases hworks : StoreWorks d.faults w evt
    · exact .inl hworks
    obtain ⟨e, he⟩ := (handleEvent_error_iff d.faults w evt).mpr hworks
    have hfirst := h e [] (by rw [deliver_eq hevt, he]) nofun
    have hmark := (asFirstDelivered_iff ..).mp hfirst evt hevt
    rw [show deliverAll p (deliver p w d).1 [] = (deliver p w d).1 from rfl, deliver_eq hevt,
      marked_handleEvent] at hmark
    simp only [Bool.or_eq_false_iff, decide_true, Bool.and_true, decide_eq_false_iff_not,
      not_not] at hmark
    exact .inr hmark
  · intro h e others herr hothers
    rw [asFirstDelivered_iff]
    intro evt hevt
    rw [marked_deliverAll fun d' hd' evt' hevt' => hothers d' hd' evt evt' hevt hevt',
      deliver_eq hevt, marked_handleEvent]
    rcases h evt hevt with hworks | ⟨hmarked, hbefore⟩
    · rw [deliver_eq hevt] at herr
      exact absurd hworks ((handleEvent_error_iff d.faults w evt).mp ⟨e, herr⟩)
    · rw [hmarked, hbefore]
      rfl

def demoEvent : Event where
  providerEventID := "evt_1"
  type := .created
  subscription :=
    { id := "s1", customerID := "u1", providerSubID := "psub", planID := "pro", status := .active,
      seatCount := 1, currentPeriodStart := 0, currentPeriodEnd := 30, cancelAtPeriodEnd := false,
      trialEnd := 0, providerUpdatedAt := 1 }
  occurredAt := 1

/-- The store fails while the subscription is written. -/
theorem failed_upsert_redelivery_dropped :
    let p := Provider.fake (Table.empty.set "sig1" demoEvent)
    let f : Faults := { mark := .works, getFails := false, upsert := .failsBefore }
    let first := serveHTTP p f .new "POST" (some []) "sig1"
    let second := serveHTTP p .none first.1 "POST" (some []) "sig1"
    first.2.status = 500 ∧ second.2 = { status := 200, body := "duplicate" } ∧
    second.1.store.byProv.get? "psub" = none ∧
    ¬ RedeliveryAsFirst p .new { faults := f, payload := [], signature := "sig1" } := by
  refine ⟨by decide, by decide, by decide, fun h => ?_⟩
  have hfirst := h (.store .unavailable) [] (by decide) nofun
  exact absurd (by decide) (hfirst demoEvent (by decide)).1

end GoServices.SubscriptionCore
