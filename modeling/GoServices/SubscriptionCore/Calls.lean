/-
Calls to the processor, the reconciler and the entitlements service, interleaved.

A call works on the store and on the entitlement cache one operation at a time, and between two
operations any other call may run.
-/
import GoServices.Base.Run
import GoServices.SubscriptionCore.Reconcile

namespace GoServices.SubscriptionCore

/-! ## Entitlements -/

structure Plan where
  id : String
  tier : String
  features : Table String Int
  seatIncluded : Int

def statusGrantsAccess : Status → Bool
  | .active | .trialing | .pastDue => true
  | _ => false

def deriveEntitlement (sub : Subscription) (plan : Plan) : Entitlement where
  subscriptionID := sub.id
  tier := plan.tier
  features := plan.features
  seats := if plan.seatIncluded > sub.seatCount then plan.seatIncluded else sub.seatCount
  active := statusGrantsAccess sub.status

def Store.getBySubject (s : Store) (subject : String) : Except StoreError Subscription :=
  match s.bySubj.get? subject with
  | some sub => .ok sub
  | none => .error .notFound

/-- `PlanRepo.Get`. -/
def getPlan (plans : Table String Plan) (planID : String) : Except StoreError Plan :=
  match plans.get? planID with
  | some plan => .ok plan
  | none => .error .notFound

def derive (plans : Table String Plan) (store : Store) (subject : String) :
    Except StoreError Entitlement :=
  match store.getBySubject subject with
  | .error e => .error e
  | .ok sub =>
    match getPlan plans sub.planID with
    | .error e => .error e
    | .ok plan => .ok (deriveEntitlement sub plan)

/-! ## Calls -/

inductive Answer
  | handled (r : Result)
  | reconciled (o : Outcome)
  | entitled (e : Entitlement)
  | failed (e : StoreError)

inductive Pc
  | mark (evt : Event)
  | read (evt : Event)
  | compare (id : String) (snapshot : Snapshot id)
  | upsert (sub : Subscription) (answer : Answer)
  | bust (customerID : String) (answer : Answer)
  | cacheGet (subject : String)
  | getBySubject (subject : String)
  | getPlan (subject : String) (sub : Subscription)
  | cacheSet (subject : String) (e : Entitlement)
  | done (answer : Answer)

def Next.pc {ρ : Type} (answer : ρ → Answer) : Next ρ → Pc
  | .fail e => .done (.failed e)
  | .answer r => .done (answer r)
  | .write sub r => .upsert sub (answer r)

section
variable (plans : Table String Plan)

def next (w : World) : Pc → Option (World × Pc)
  | .mark evt =>
    let (store, first) := w.store.markProcessed evt.providerEventID
    some ({ w with store := store }, if first then .read evt else .done (.handled .duplicate))
  | .read evt =>
    let found := w.store.getByProviderID evt.subscription.providerSubID
    some (w, (afterRead evt found).pc .handled)
  | .compare id snapshot =>
    some (w, (afterCompare snapshot.truth (w.store.getByProviderID id)).pc .reconciled)
  | .upsert sub answer => some ({ w with store := w.store.upsert sub }, .bust sub.customerID answer)
  | .bust customerID answer => some ({ w with cache := w.cache.erase customerID }, .done answer)
  | .cacheGet subject =>
    match w.cache.get? subject with
    | some e => some (w, .done (.entitled e))
    | none => some (w, .getBySubject subject)
  | .getBySubject subject =>
    match w.store.getBySubject subject with
    | .ok sub => some (w, .getPlan subject sub)
    | .error e => some (w, .done (.failed e))
  | .getPlan subject sub =>
    match getPlan plans sub.planID with
    | .ok plan => some (w, .cacheSet subject (deriveEntitlement sub plan))
    | .error e => some (w, .done (.failed e))
  | .cacheSet subject e => some ({ w with cache := w.cache.set subject e }, .done (.entitled e))
  | .done _ => none

structure Server where
  world : World
  calls : Table Nat Pc

def Server.initial : Server := { world := .new, calls := .empty }

inductive Label
  | handle (call : Nat) (evt : Event)
  | reconcile (call : Nat) (id : String) (snapshot : Snapshot id)
  | entitlement (call : Nat) (subject : String)
  | next (call : Nat)

def Label.call : Label → Nat
  | .handle call _ | .reconcile call _ _ | .entitlement call _ | .next call => call

def Server.start (s : Server) (call : Nat) (pc : Pc) : Option Server :=
  match s.calls.get? call with
  | some _ => none
  | none => some { s with calls := s.calls.set call pc }

def step (s : Server) : Label → Option Server
  | .handle call evt => s.start call (.mark evt)
  | .reconcile call id snapshot => s.start call (.compare id snapshot)
  | .entitlement call subject => s.start call (.cacheGet subject)
  | .next call =>
    (s.calls.get? call).bind fun pc =>
      (next plans s.world pc).map fun (w, pc) => { world := w, calls := s.calls.set call pc }

end

end GoServices.SubscriptionCore
