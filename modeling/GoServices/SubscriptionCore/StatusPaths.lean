/-
Handle calls one after another: the path that each subscription's record takes.

`accepted` is the record that `Handle` writes for an event that is no duplicate, if it writes
one, and `Handles` says that a call either leaves the subscriptions alone or writes that record
for an event id that was not recorded before.
-/
import GoServices.SubscriptionCore.Delivery

namespace GoServices.SubscriptionCore

/-! ## One call -/

structure SameSubs (v w : World) : Prop where
  byProv : w.store.byProv = v.store.byProv
  bySubj : w.store.bySubj = v.store.bySubj

theorem SameSubs.refl (w : World) : SameSubs w w := ⟨rfl, rfl⟩

def accepted (w : World) (evt : Event) : Option Subscription :=
  match w.store.byProv.get? evt.subscription.providerSubID with
  | none => some { evt.subscription with status := evt.targetStatus }
  | some existing =>
    if existing.providerUpdatedAt ≤ evt.subscription.providerUpdatedAt ∧
        canTransition existing.status evt.targetStatus = true then
      some { existing with
        status := evt.targetStatus
        planID := evt.subscription.planID
        seatCount := evt.subscription.seatCount
        currentPeriodEnd := evt.subscription.currentPeriodEnd
        cancelAtPeriodEnd := evt.subscription.cancelAtPeriodEnd
        providerUpdatedAt := evt.subscription.providerUpdatedAt }
    else none

inductive Handles (w : World) (evt : Event) : World → Except HandleError Result → Prop
  | kept {w' r : _} (h : SameSubs w w') : Handles w evt w' r
  | written {w' r sub : _} (hnew : w.store.marked evt.providerEventID = false)
      (hsub : accepted w evt = some sub)
      (hbyProv : w'.store.byProv = w.store.byProv.set sub.providerSubID sub)
      (hbySubj : w'.store.bySubj = w.store.bySubj.set sub.customerID sub)
      (hr : r = .ok .processed ∨ ∃ e, r = .error e) : Handles w evt w' r

variable {w : World} {evt : Event} {sub : Subscription}

section
variable {v : World} (h : SameSubs w v) (hnew : w.store.marked evt.providerEventID = false)
include h hnew

theorem persist_handles (hsub : accepted w evt = some sub) (f : Fault) :
    Handles w evt (persist f v sub).1 (persist f v sub).2 := by
  have hbyProv : (v.store.upsert sub).byProv = w.store.byProv.set sub.providerSubID sub := by
    rw [Store.upsert, h.byProv]
  have hbySubj : (v.store.upsert sub).bySubj = w.store.bySubj.set sub.customerID sub := by
    rw [Store.upsert, h.bySubj]
  cases f with
  | works => exact .written hnew hsub hbyProv hbySubj (.inl rfl)
  | failsBefore => exact .kept h
  | failsAfter => exact .written hnew hsub hbyProv hbySubj (.inr ⟨_, rfl⟩)

theorem applyEvent_handles (f : Faults) :
    Handles w evt (applyEvent f v evt).1 (applyEvent f v evt).2 := by
  unfold applyEvent Store.read
  cases hf : f.getFails with
  | true => exact .kept h
  | false =>
    simp only [Store.getByProviderID, Bool.false_eq_true, if_false, h.byProv]
    cases hget : w.store.byProv.get? evt.subscription.providerSubID with
    | none =>
      refine persist_handles h hnew ?_ f.upsert
      simp only [accepted, hget]
    | some existing =>
      by_cases hstale : evt.subscription.providerUpdatedAt < existing.providerUpdatedAt
      · simp only [afterRead, hstale, if_true]
        exact .kept h
      by_cases hcan : canTransition existing.status evt.targetStatus = true
      · simp only [afterRead, hstale, if_false, applyTransition, hcan, if_true]
        refine persist_handles h hnew ?_ f.upsert
        simp only [accepted, hget, hcan, Int.not_lt.mp hstale, and_self, if_true]
      · simp only [afterRead, hstale, if_false, applyTransition, hcan, Bool.false_eq_true]
        exact .kept h

end

theorem handleEvent_handles (f : Faults) (w : World) (evt : Event) :
    Handles w evt (handleEvent f w evt).1 (handleEvent f w evt).2 := by
  unfold handleEvent Store.markProcessed
  cases hm : w.store.marked evt.providerEventID with
  | true => cases f.mark <;> exact .kept ⟨rfl, rfl⟩
  | false =>
    cases f.mark with
    | works =>
      have hsame : SameSubs w { w with
          store := { w.store with events := w.store.events.set evt.providerEventID true } } :=
        ⟨rfl, rfl⟩
      exact applyEvent_handles hsame hm f
    | failsBefore | failsAfter => exact .kept ⟨rfl, rfl⟩

variable {p : Provider} {d : Delivery} {a b : Option Subscription} {c : Handled} {id : String}
  {ds : List Delivery}

theorem deliver_handles (w : World) :
    (∃ evt, d.event p = .ok evt ∧ Handles w evt (deliver p w d).1 (deliver p w d).2) ∨
      ((∃ e, d.event p = .error e) ∧ SameSubs w (deliver p w d).1) := by
  cases hevt : d.event p with
  | ok evt =>
    rw [deliver_eq hevt]
    exact .inl ⟨evt, rfl, handleEvent_handles d.faults w evt⟩
  | error e =>
    unfold Delivery.event at hevt
    unfold deliver handle
    rw [hevt]
    exact .inr ⟨⟨e, rfl⟩, .refl w⟩

/-! ## Records -/

def AllKeyed (w : World) : Prop := ∀ sub, Keyed w sub

theorem AllKeyed.accepted (hw : AllKeyed w) (h : accepted w evt = some sub) :
    sub.providerSubID = evt.subscription.providerSubID := by
  unfold SubscriptionCore.accepted at h
  split at h
  · cases h
    rfl
  rename_i existing hget
  split at h <;> cases h
  exact hw _ existing hget

variable {w' : World}

theorem allKeyed_set (hw : AllKeyed w)
    (h : w'.store.byProv = w.store.byProv.set sub.providerSubID sub) : AllKeyed w' := by
  intro k s hs
  rw [h, Table.get?_set] at hs
  split at hs
  · rename_i hk
    rw [hk, ← Option.some.inj hs]
  · exact hw k s hs

def Follows (a b : Option Subscription) : Prop :=
  ∀ s, a = some s → ∃ t, b = some t ∧ canTransition s.status t.status = true ∧
    s.providerUpdatedAt ≤ t.providerUpdatedAt

theorem Follows.refl (a : Option Subscription) : Follows a a :=
  fun s hs => ⟨s, hs, canTransition_self _, le_rfl⟩

theorem accepted_follows (h : accepted w evt = some sub) :
    Follows (w.store.byProv.get? evt.subscription.providerSubID) (some sub) := by
  intro s hs
  rw [accepted, hs] at h
  dsimp only at h
  split at h <;> cases h
  rename_i hok
  exact ⟨_, rfl, hok.2, hok.1⟩

variable {r : Except HandleError Result}

theorem Handles.keyed (hw : AllKeyed w) (h : Handles w evt w' r) : AllKeyed w' := by
  cases h with
  | kept hsame =>
    intro k s hs
    rw [hsame.byProv] at hs
    exact hw k s hs
  | written hnew hsub hbyProv hbySubj hr => exact allKeyed_set hw hbyProv

theorem Handles.follows (hw : AllKeyed w) (h : Handles w evt w' r) (sub : String) :
    Follows (w.store.byProv.get? sub) (w'.store.byProv.get? sub) := by
  cases h with
  | kept hsame =>
    rw [hsame.byProv]
    exact .refl _
  | written hnew hsub hbyProv hbySubj hr =>
    rw [hbyProv, Table.get?_set]
    by_cases hk : sub = evt.subscription.providerSubID
    · rw [if_pos (hk.trans (hw.accepted hsub).symm), hk]
      exact accepted_follows hsub
    · rw [if_neg fun h => hk (h.trans (hw.accepted hsub))]
      exact .refl _

/-! ## Runs -/

structure Handled where
  delivery : Delivery
  before : World
  after : World
  answer : Except HandleError Result

/-- The calls made one after another from `w`. -/
def handled (p : Provider) (w : World) : List Delivery → List Handled
  | [] => []
  | d :: ds =>
    { delivery := d, before := w, after := (deliver p w d).1, answer := (deliver p w d).2 } ::
      handled p (deliver p w d).1 ds

def versions (p : Provider) (w : World) (ds : List Delivery) (sub : String) :
    List (Option Subscription) :=
  (w :: (handled p w ds).map Handled.after).map fun v => v.store.byProv.get? sub

def Handled.Changes (c : Handled) : Prop := ¬ SameSubs c.before c.after

theorem deliver_step (hw : AllKeyed w) (p : Provider) (d : Delivery) :
    AllKeyed (deliver p w d).1 ∧ ∀ sub, Follows (w.store.byProv.get? sub)
      ((deliver p w d).1.store.byProv.get? sub) := by
  rcases deliver_handles (p := p) (d := d) w with ⟨evt, -, h⟩ | ⟨-, hsame⟩
  · exact ⟨h.keyed hw, h.follows hw⟩
  refine ⟨fun k s hs => ?_, fun sub => ?_⟩
  · rw [hsame.byProv] at hs
    exact hw k s hs
  · rw [hsame.byProv]
    exact .refl _

theorem versions_isChain (hw : AllKeyed w) (p : Provider) (ds : List Delivery) (sub : String) :
    (versions p w ds sub).IsChain Follows := by
  induction ds generalizing w with
  | nil => exact List.IsChain.singleton _
  | cons d ds ih =>
    obtain ⟨hw', hfollows⟩ := deliver_step hw p d
    cases ds with
    | nil | cons d' ds => exact .cons_cons (hfollows sub) (ih hw')

def Later (a b : Option Subscription) : Prop :=
  ∀ s, a = some s → ∃ t, b = some t ∧ s.providerUpdatedAt ≤ t.providerUpdatedAt ∧
    (s.status = .canceled → t.status = .canceled)

theorem canTransition_canceled {target : Status} (h : canTransition .canceled target = true) :
    target = .canceled := by
  unfold canTransition at h
  split at h
  · rename_i heq
    exact heq.symm
  · simp [transitions] at h

theorem Follows.later (h : Follows a b) : Later a b := by
  intro s hs
  obtain ⟨t, ht, hcan, hle⟩ := h s hs
  refine ⟨t, ht, hle, fun hcanceled => ?_⟩
  rw [hcanceled] at hcan
  exact canTransition_canceled hcan

theorem Later.trans {c : Option Subscription} (hab : Later a b) (hbc : Later b c) :
    Later a c := by
  intro s hs
  obtain ⟨t, ht, hle, hcanceled⟩ := hab s hs
  obtain ⟨u, hu, hle', hcanceled'⟩ := hbc t ht
  exact ⟨u, hu, hle.trans hle', fun h => hcanceled' (hcanceled h)⟩

instance : Trans Later Later Later := ⟨Later.trans⟩

/-! ## Event ids -/

theorem Handles.new_of_changes (h : Handles w evt w' r) (hchanges : ¬ SameSubs w w') :
    w.store.marked evt.providerEventID = false := by
  cases h with
  | kept hsame => exact absurd hsame hchanges
  | written hnew => exact hnew

theorem deliver_changes (hevt : d.event p = .ok evt) (hchanges : ¬ SameSubs w (deliver p w d).1) :
    w.store.marked evt.providerEventID = false ∧
      (deliver p w d).1.store.marked evt.providerEventID = true := by
  rw [deliver_eq hevt] at hchanges ⊢
  refine ⟨(handleEvent_handles d.faults w evt).new_of_changes hchanges, ?_⟩
  rw [marked_handleEvent]
  by_cases hmark : d.faults.mark = .failsBefore
  · refine absurd ?_ hchanges
    unfold handleEvent
    rw [hmark]
    exact ⟨rfl, rfl⟩
  · simp [hmark]

theorem marked_deliver (d : Delivery) (h : w.store.marked id = true) :
    (deliver p w d).1.store.marked id = true := by
  cases hevt : d.event p with
  | ok evt => rw [deliver_eq hevt, marked_handleEvent, h, Bool.true_or]
  | error e =>
    unfold Delivery.event at hevt
    unfold deliver handle
    rw [hevt]
    exact h

theorem not_changes_of_marked (h : w.store.marked id = true) (hc : c ∈ handled p w ds)
    (hevt : c.delivery.event p = .ok evt) (hid : evt.providerEventID = id) :
    ¬ c.Changes := by
  induction ds generalizing w with
  | nil => cases hc
  | cons d ds ih =>
    rcases List.mem_cons.mp hc with rfl | hc
    · intro hchanges
      have hnew := (deliver_changes hevt hchanges).1
      rw [hid, h] at hnew
      cases hnew
    · exact ih (marked_deliver d h) hc

/-- `c` and `d` are calls for one event id, and both change the subscriptions. -/
def ChangesTwice (p : Provider) (c d : Handled) : Prop :=
  ∃ evt evt', c.delivery.event p = .ok evt ∧ d.delivery.event p = .ok evt' ∧
    evt.providerEventID = evt'.providerEventID ∧ c.Changes ∧ d.Changes

theorem handled_changes_once (p : Provider) (w : World) (ds : List Delivery) :
    (handled p w ds).Pairwise fun c d => ¬ ChangesTwice p c d := by
  induction ds generalizing w with
  | nil => exact List.Pairwise.nil
  | cons d ds ih =>
    refine List.pairwise_cons.mpr ⟨fun c hc => ?_, ih _⟩
    rintro ⟨evt, evt', hevt, hevt', hid, hfirst, hsecond⟩
    have hmarked := (deliver_changes hevt hfirst).2
    exact not_changes_of_marked hmarked hc hevt' hid.symm hsecond

/-! ## Answers -/

theorem Handles.same_of_answer {r : Result} (h : Handles w evt w' (.ok r)) (hr : r ≠ .processed) :
    SameSubs w w' := by
  cases h with
  | kept hsame => exact hsame
  | written hnew hsub hbyProv hbySubj hans =>
    rcases hans with hans | ⟨e, hans⟩
    · exact absurd (Except.ok.inj hans) hr
    · cases hans

theorem handled_same (hc : c ∈ handled p w ds) {r : Result}
    (hanswer : c.answer = .ok r) (hr : r ≠ .processed) :
    SameSubs c.before c.after := by
  induction ds generalizing w with
  | nil => cases hc
  | cons d ds ih =>
    rcases List.mem_cons.mp hc with rfl | hc
    · rcases deliver_handles (p := p) (d := d) w with ⟨evt, -, h⟩ | ⟨-, hsame⟩
      · rw [show (deliver p w d).2 = .ok r from hanswer] at h
        exact h.same_of_answer hr
      · exact hsame
    · exact ih hc

theorem allKeyed_new : AllKeyed .new := by
  intro k s hs
  cases hs

/-- Handle calls one after another, on any payloads and under any store failures. -/
theorem handle_paths_legal (p : Provider) (ds : List Delivery) :
    (∀ sub, (versions p .new ds sub).IsChain Follows) ∧
    (∀ sub, (versions p .new ds sub).Pairwise Later) ∧
    ((handled p .new ds).Pairwise fun c d => ¬ ChangesTwice p c d) ∧
    ∀ c ∈ handled p .new ds, ∀ r, c.answer = .ok r → r = .duplicate ∨ r = .stale ∨ r = .illegal →
      SameSubs c.before c.after := by
  refine ⟨versions_isChain allKeyed_new p ds, fun sub => ?_, handled_changes_once p .new ds,
    fun c hc r hanswer hr => handled_same hc hanswer ?_⟩
  · have hchain := versions_isChain allKeyed_new p ds sub
    exact (hchain.imp fun _ _ h => Follows.later h).pairwise
  · rcases hr with rfl | rfl | rfl <;> decide

end GoServices.SubscriptionCore
