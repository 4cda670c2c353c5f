/-
Webhook deliveries of one subscription's history, in any order.

Two guards decide what a delivered event does to the stored status: an event older than the
watermark is dropped, and so is one whose transition is not in the table.
-/
import GoServices.SubscriptionCore.Webhook

namespace GoServices.SubscriptionCore

open List

structure History where
  sub : String
  events : List Event
  nonempty : events ≠ []
  sameSub : ∀ e ∈ events, e.subscription.providerSubID = sub
  ids : events.Pairwise fun d e => d.providerEventID ≠ e.providerEventID
  times : events.Pairwise fun d e =>
    d.subscription.providerUpdatedAt < e.subscription.providerUpdatedAt
  legal : events.IsChain fun d e => canTransition d.targetStatus e.targetStatus = true

namespace History

def newest (h : History) : Event := h.events.getLast h.nonempty

theorem newest_mem (h : History) : h.newest ∈ h.events := getLast_mem h.nonempty

theorem older_of_ne_newest (h : History) {e : Event} (he : e ∈ h.events) (hne : e ≠ h.newest) :
    e.providerEventID ≠ h.newest.providerEventID ∧
      e.subscription.providerUpdatedAt < h.newest.subscription.providerUpdatedAt := by
  have hsplit := dropLast_append_getLast h.nonempty
  have hmem : e ∈ h.events.dropLast := by
    rw [← hsplit, mem_append, mem_singleton] at he
    exact he.resolve_right hne
  have hids := h.ids
  have htimes := h.times
  rw [← hsplit, pairwise_append] at hids htimes
  exact ⟨hids.2.2 e hmem _ (mem_singleton_self _), htimes.2.2 e hmem _ (mem_singleton_self _)⟩

end History

/-! ## The stored status -/

def stored (w : World) (sub : String) : Option (Status × Int) :=
  (w.store.byProv.get? sub).map fun s => (s.status, s.providerUpdatedAt)

def absorb (current : Option (Status × Int)) (e : Event) : Option (Status × Int) :=
  match current with
  | none => some (e.targetStatus, e.subscription.providerUpdatedAt)
  | some (status, updatedAt) =>
    if e.subscription.providerUpdatedAt < updatedAt then some (status, updatedAt)
    else if canTransition status e.targetStatus then
      some (e.targetStatus, e.subscription.providerUpdatedAt)
    else some (status, updatedAt)

def Keyed (w : World) (sub : String) : Prop :=
  ∀ s, w.store.byProv.get? sub = some s → s.providerSubID = sub

theorem persist_works (w : World) (s : Subscription) :
    (persist .works w s).1.store.byProv = w.store.byProv.set s.providerSubID s := rfl

variable {w : World} {sub : String} {e : Event}

section
variable (hk : Keyed w sub) (he : e.subscription.providerSubID = sub)
include hk he

theorem applyEvent_stored :
    Keyed (applyEvent .none w e).1 sub ∧
      stored (applyEvent .none w e).1 sub = absorb (stored w sub) e := by
  have hwrite : ∀ s : Subscription, s.providerSubID = sub → Keyed (persist .works w s).1 sub ∧
        stored (persist .works w s).1 sub = some (s.status, s.providerUpdatedAt) := by
    intro s hs
    unfold Keyed stored
    rw [persist_works, hs, Table.get?_set_self]
    refine ⟨fun t ht => ?_, rfl⟩
    rw [← Option.some.inj ht, hs]
  unfold applyEvent Store.read Store.getByProviderID
  simp only [Faults.none, Bool.false_eq_true, if_false, he]
  cases hget : w.store.byProv.get? sub with
  | none =>
    rw [show stored w sub = none by rw [stored, hget]; rfl]
    exact hwrite _ he
  | some existing =>
    rw [show stored w sub = some (existing.status, existing.providerUpdatedAt) by
      rw [stored, hget]; rfl]
    have hkeep : Keyed w sub ∧
        stored w sub = some (existing.status, existing.providerUpdatedAt) := by
      refine ⟨hk, ?_⟩
      rw [stored, hget]
      rfl
    by_cases hstale : e.subscription.providerUpdatedAt < existing.providerUpdatedAt
    · simpa only [absorb, afterRead, Next.perform, hstale, if_true] using hkeep
    by_cases hcan : canTransition existing.status e.targetStatus = true
    · simp only [absorb, afterRead, hstale, if_false, applyTransition, hcan, if_true]
      exact hwrite _ (hk existing hget)
    · simpa only [absorb, afterRead, Next.perform, hstale, if_false, applyTransition, hcan,
        Bool.false_eq_true] using hkeep

theorem stored_handleEvent :
    Keyed (handleEvent .none w e).1 sub ∧ stored (handleEvent .none w e).1 sub =
        if w.store.marked e.providerEventID then stored w sub else absorb (stored w sub) e := by
  cases hm : w.store.marked e.providerEventID with
  | true =>
    rw [handleEvent_of_marked hm]
    exact ⟨hk, rfl⟩
  | false =>
    rw [handleEvent_of_unmarked hm]
    exact applyEvent_stored hk he

end

def handleAll (w : World) (es : List Event) : World :=
  es.foldl (fun w e => (handleEvent .none w e).1) w

variable {es : List Event}

theorem handleAll_invariant {P : World → Prop}
    (hstep : ∀ w, ∀ e ∈ es, P w → P (handleEvent .none w e).1) (hw : P w) :
    P (handleAll w es) := by
  induction es generalizing w with
  | nil => exact hw
  | cons e es ih =>
    exact ih (fun w' e' he' => hstep w' e' (mem_cons_of_mem _ he'))
      (hstep w e (mem_cons_self ..) hw)

theorem handleAll_append (w : World) (es fs : List Event) :
    handleAll w (es ++ fs) = handleAll (handleAll w es) fs :=
  foldl_append

theorem marked_handleAll {id : String}
    (h : w.store.marked id = true ∨ ∃ e ∈ es, e.providerEventID = id) :
    (handleAll w es).store.marked id = true := by
  induction es generalizing w with
  | nil =>
    rcases h with h | ⟨e, he, -⟩
    · exact h
    · cases he
  | cons e es ih =>
    refine ih ?_
    rw [marked_handleEvent]
    rcases h with h | ⟨f, hf, rfl⟩
    · exact .inl (by rw [h, Bool.true_or])
    rcases mem_cons.mp hf with rfl | hf
    · exact .inl (by simp [Faults.none])
    · exact .inr ⟨f, hf, rfl⟩

/-! ## Deliveries of a history -/

structure Delivers (p : Provider) (h : History) (ds : List Delivery) : Prop where
  works : ∀ d ∈ ds, d.faults = .none
  sound : ∀ d ∈ ds, ∃ e ∈ h.events, d.event p = .ok e
  complete : ∀ e ∈ h.events, ∃ d ∈ ds, d.event p = .ok e

variable {p : Provider} {ds : List Delivery} {target : Status}

theorem deliverAll_eq_handleAll
    (hworks : ∀ d ∈ ds, d.faults = .none) (hevents : ds.map (Delivery.event p) = es.map .ok)
    (w : World) :
    deliverAll p w ds = handleAll w es := by
  induction ds generalizing es w with
  | nil =>
    rw [map_nil, eq_comm, map_eq_nil_iff] at hevents
    rw [hevents]
    rfl
  | cons d ds ih =>
    cases es with
    | nil => cases hevents
    | cons e es =>
      rw [map_cons, map_cons, List.cons.injEq] at hevents
      have hhead : (deliver p w d).1 = (handleEvent .none w e).1 := by
        rw [deliver_eq hevents.1, hworks d (mem_cons_self ..)]
      calc deliverAll p w (d :: ds) = deliverAll p (deliver p w d).1 ds := rfl
        _ = handleAll (deliver p w d).1 es :=
          ih (fun d' hd' => hworks d' (mem_cons_of_mem _ hd')) hevents.2 _
        _ = handleAll w (e :: es) := by rw [hhead]; rfl

variable {h : History}

theorem Delivers.events (hds : Delivers p h ds) :
    ∃ es : List Event, ds.map (Delivery.event p) = es.map .ok ∧ ∀ e, e ∈ es ↔ e ∈ h.events := by
  have hok : ∃ es : List Event, ds.map (Delivery.event p) = es.map Except.ok := by
    have hsound := hds.sound
    clear hds
    induction ds with
    | nil => exact ⟨[], rfl⟩
    | cons d ds ih =>
      obtain ⟨e, -, he⟩ := hsound d (mem_cons_self ..)
      obtain ⟨es, hes⟩ := ih fun d' hd' => hsound d' (mem_cons_of_mem _ hd')
      exact ⟨e :: es, by rw [map_cons, map_cons, he, hes]⟩
  obtain ⟨es, hes⟩ := hok
  have hmem : ∀ e, e ∈ es ↔ ∃ d ∈ ds, d.event p = .ok e := by
    intro e
    rw [← mem_map, hes, mem_map]
    constructor
    · exact fun he => ⟨e, he, rfl⟩
    rintro ⟨f, hf, hfe⟩
    rw [← Except.ok.inj hfe]
    exact hf
  refine ⟨es, hes, fun e => ⟨fun he => ?_, fun he => (hmem e).mpr (hds.complete e he)⟩⟩
  obtain ⟨d, hd, hde⟩ := (hmem e).mp he
  obtain ⟨f, hf, hdf⟩ := hds.sound d hd
  rw [hde] at hdf
  rw [Except.ok.inj hdf]
  exact hf

/-! ## The newest event -/

structure Tracks (h : History) (w : World) : Prop where
  keyed : Keyed w h.sub
  seen : w.store.marked h.newest.providerEventID = true →
    stored w h.sub = some (h.newest.targetStatus, h.newest.subscription.providerUpdatedAt)
  unseen : w.store.marked h.newest.providerEventID = false → stored w h.sub = none ∨
    ∃ e ∈ h.events, stored w h.sub = some (e.targetStatus, e.subscription.providerUpdatedAt)

theorem absorb_newest
    (hdirect : ∀ e ∈ h.events, canTransition e.targetStatus h.newest.targetStatus = true)
    {current : Option (Status × Int)} (hcur : current = none ∨
      ∃ e ∈ h.events, current = some (e.targetStatus, e.subscription.providerUpdatedAt)) :
    absorb current h.newest =
      some (h.newest.targetStatus, h.newest.subscription.providerUpdatedAt) := by
  rcases hcur with rfl | ⟨e, he, rfl⟩
  · rfl
  have hle : ¬ h.newest.subscription.providerUpdatedAt < e.subscription.providerUpdatedAt := by
    by_cases hne : e = h.newest
    · rw [hne]
      exact Int.lt_irrefl _
    · exact Int.not_lt.mpr (Int.le_of_lt (h.older_of_ne_newest he hne).2)
  simp only [absorb, if_neg hle, hdirect e he, if_true]

theorem absorb_cases (current : Option (Status × Int)) (e : Event) :
    absorb current e = some (e.targetStatus, e.subscription.providerUpdatedAt) ∨
      (absorb current e = current ∧ current ≠ none) := by
  unfold absorb
  split
  · exact .inl rfl
  split
  · exact .inr ⟨rfl, Option.some_ne_none _⟩
  split
  · exact .inl rfl
  · exact .inr ⟨rfl, Option.some_ne_none _⟩

theorem tracks_handleEvent
    (hdirect : ∀ e ∈ h.events, canTransition e.targetStatus h.newest.targetStatus = true)
    (hw : Tracks h w) (he : e ∈ h.events) :
    Tracks h (handleEvent .none w e).1 := by
  obtain ⟨hkeyed, hstored⟩ := stored_handleEvent hw.keyed (h.sameSub e he)
  by_cases hnew : e = h.newest
  · subst hnew
    refine ⟨hkeyed, fun _ => ?_, fun hfalse => ?_⟩
    · rw [hstored]
      cases hm : w.store.marked h.newest.providerEventID with
      | true => exact hw.seen hm
      | false => exact absorb_newest hdirect (hw.unseen hm)
    · rw [show (handleEvent .none w h.newest).1.store.marked h.newest.providerEventID = true by
        rw [marked_handleEvent]; simp [Faults.none]] at hfalse
      cases hfalse
  obtain ⟨hid, htime⟩ := h.older_of_ne_newest he hnew
  have hsame : (handleEvent .none w e).1.store.marked h.newest.providerEventID =
      w.store.marked h.newest.providerEventID := by
    rw [marked_handleEvent, decide_eq_false (Ne.symm hid), Bool.and_false, Bool.or_false]
  refine ⟨hkeyed, fun hm => ?_, fun hm => ?_⟩
  · -- the newest event was handled, so `e` is below the watermark
    rw [hsame] at hm
    rw [hstored, hw.seen hm, absorb]
    simp only [if_pos htime, ite_self]
  rw [hsame] at hm
  rw [hstored]
  split
  · exact hw.unseen hm
  rcases absorb_cases (stored w h.sub) e with heq | ⟨heq, -⟩
  · exact .inr ⟨e, he, heq⟩
  · rw [heq]
    exact hw.unseen hm

theorem stored_handleAll_refused {status : Status} {updatedAt : Int}
    (hcan : canTransition status target = false)
    (hes : ∀ e ∈ es, e.subscription.providerSubID = sub ∧ e.targetStatus = target)
    (hw : Keyed w sub ∧ stored w sub = some (status, updatedAt)) :
    Keyed (handleAll w es) sub ∧ stored (handleAll w es) sub = some (status, updatedAt) := by
  refine handleAll_invariant (P := fun w => Keyed w sub ∧ stored w sub = some (status, updatedAt))
    (fun w e he hw => ?_) hw
  obtain ⟨hsub, htarget⟩ := hes e he
  obtain ⟨hkeyed, hstored⟩ := stored_handleEvent hw.1 hsub
  refine ⟨hkeyed, ?_⟩
  rw [hstored, hw.2, absorb]
  simp only [htarget, hcan, Bool.false_eq_true, if_false, ite_self]

theorem stored_handleAll_ne (hes : ∀ e ∈ es, e.subscription.providerSubID = sub)
    (hkeyed : Keyed w sub)
    (hmarked : ∀ e ∈ es, e.targetStatus = target → w.store.marked e.providerEventID = true)
    (hstored : ∃ status updatedAt, stored w sub = some (status, updatedAt) ∧ status ≠ target) :
    ∃ status updatedAt, stored (handleAll w es) sub = some (status, updatedAt) ∧
      status ≠ target := by
  refine (handleAll_invariant (P := fun w => Keyed w sub ∧
    (∀ e ∈ es, e.targetStatus = target → w.store.marked e.providerEventID = true) ∧
    ∃ status updatedAt, stored w sub = some (status, updatedAt) ∧ status ≠ target)
    (fun w e he hw => ?_) ⟨hkeyed, hmarked, hstored⟩).2.2
  obtain ⟨hkeyed, hmarked, status, updatedAt, hcur, hne⟩ := hw
  obtain ⟨hkeyed', hstored'⟩ := stored_handleEvent hkeyed (hes e he)
  refine ⟨hkeyed', fun f hf htarget => ?_, ?_⟩
  · rw [marked_handleEvent, hmarked f hf htarget, Bool.true_or]
  rw [hstored', hcur]
  cases hm : w.store.marked e.providerEventID with
  | true => exact ⟨status, updatedAt, rfl, hne⟩
  | false =>
    have htarget : e.targetStatus ≠ target := fun htarget => by
      rw [hmarked e he htarget] at hm
      cases hm
    rcases absorb_cases (some (status, updatedAt)) e with heq | ⟨heq, -⟩
    · exact ⟨_, _, heq, htarget⟩
    · exact ⟨_, _, heq, hne⟩

theorem stored_handleAll_lost (he : e ∈ h.events) (hfresh : w.store.byProv.get? h.sub = none)
    (hmarks : w.store.marked e.providerEventID = false)
    (hcan : canTransition e.targetStatus h.newest.targetStatus = false) :
    ∃ status updatedAt,
      stored (handleAll w (e :: (h.events.filter fun f =>
        f.targetStatus = h.newest.targetStatus) ++ h.events)) h.sub = some (status, updatedAt) ∧
      status ≠ h.newest.targetStatus := by
  have hkeyed : Keyed w h.sub := fun s hs => by
    rw [hfresh] at hs
    cases hs
  obtain ⟨hkeyed₁, hstored₁⟩ := stored_handleEvent hkeyed (h.sameSub e he)
  have hnone : stored w h.sub = none := by
    rw [stored, hfresh]
    rfl
  rw [hmarks, hnone] at hstored₁
  have hfilter : ∀ f ∈ h.events.filter fun f => f.targetStatus = h.newest.targetStatus,
      f ∈ h.events ∧ f.targetStatus = h.newest.targetStatus := by
    intro f hf
    simpa only [mem_filter, decide_eq_true_eq] using hf
  obtain ⟨hkeyed₂, hstored₂⟩ := stored_handleAll_refused hcan
    (fun f hf => ⟨h.sameSub f (hfilter f hf).1, (hfilter f hf).2⟩) ⟨hkeyed₁, hstored₁⟩
  rw [handleAll_append]
  refine stored_handleAll_ne h.sameSub hkeyed₂ (fun f hf htarget => ?_) ⟨_, _, hstored₂, ?_⟩
  · have hmem : f ∈ h.events.filter fun f => f.targetStatus = h.newest.targetStatus :=
      mem_filter.mpr ⟨hf, decide_eq_true htarget⟩
    exact marked_handleAll (.inr ⟨f, mem_cons_of_mem _ hmem, rfl⟩)
  intro heq
  rw [heq, canTransition_self] at hcan
  cases hcan

/-- For a history that is new to the store: whatever the order of the deliveries,
with any repetitions, the stored status ends as that of the newest event, exactly
when every status of the history can go to the newest one in one transition. -/
theorem newest_status_iff {p : Provider} {h : History} {w : World}
    (hfresh : w.store.byProv.get? h.sub = none)
    (hmarks : ∀ e ∈ h.events, w.store.marked e.providerEventID = false)
    (hrequests : ∀ e ∈ h.events, ∃ payload signature, p.verifyAndParse payload signature = .ok e) :
    (∀ ds, Delivers p h ds → ((deliverAll p w ds).store.byProv.get? h.sub).map (·.status) =
        some h.newest.targetStatus) ↔
    ∀ e ∈ h.events, canTransition e.targetStatus h.newest.targetStatus = true := by
  have hstatus : ∀ v : World, (v.store.byProv.get? h.sub).map (·.status) =
      (stored v h.sub).map Prod.fst := fun v => by
    rw [stored, Option.map_map]
    rfl
  constructor
  · intro hall e he
    by_contra hcan
    rw [Bool.not_eq_true] at hcan
    choose! payload signature hreq using hrequests
    let request : Event → Delivery := fun f =>
      { faults := .none, payload := payload f, signature := signature f }
    let order := e :: (h.events.filter fun f => f.targetStatus = h.newest.targetStatus) ++ h.events
    have horder : ∀ f ∈ order, f ∈ h.events := by
      intro f hf
      rcases mem_append.mp hf with hf | hf
      · rcases mem_cons.mp hf with rfl | hf
        · exact he
        · exact (mem_filter.mp hf).1
      · exact hf
    have hevents : (order.map request).map (Delivery.event p) = order.map .ok := by
      rw [map_map]
      exact map_congr_left fun f hf => hreq f (horder f hf)
    have hworks : ∀ d ∈ order.map request, d.faults = .none := by
      intro d hd
      obtain ⟨f, -, rfl⟩ := mem_map.mp hd
      rfl
    have hdelivers : Delivers p h (order.map request) := by
      refine ⟨hworks, fun d hd => ?_, fun f hf => ?_⟩
      · obtain ⟨f, hf, rfl⟩ := mem_map.mp hd
        exact ⟨f, horder f hf, hreq f (horder f hf)⟩
      · exact ⟨request f, mem_map.mpr ⟨f, mem_append_right _ hf, rfl⟩, hreq f hf⟩
    have hfinal := hall _ hdelivers
    obtain ⟨status, updatedAt, hlost, hne⟩ := stored_handleAll_lost he hfresh (hmarks e he) hcan
    rw [hstatus, deliverAll_eq_handleAll hworks hevents, hlost] at hfinal
    exact hne (Option.some.inj hfinal)
  · intro hdirect ds hds
    obtain ⟨es, hevents, hes⟩ := hds.events
    rw [hstatus, deliverAll_eq_handleAll hds.works hevents]
    have hstart : Tracks h w := by
      refine ⟨fun s hs => ?_, fun hm => ?_, fun _ => .inl ?_⟩
      · rw [hfresh] at hs
        cases hs
      · rw [hmarks _ h.newest_mem] at hm
        cases hm
      · rw [stored, hfresh]
        rfl
    have htracks : Tracks h (handleAll w es) := handleAll_invariant (P := Tracks h)
      (fun v e he hv => tracks_handleEvent hdirect hv ((hes e).mp he)) hstart
    have hseen := marked_handleAll (w := w) (.inr ⟨h.newest, (hes _).mpr h.newest_mem, rfl⟩)
    rw [htracks.seen hseen]
    rfl

/-- An event of the subscription `psub` that carries its status in the snapshot. -/
def updatedEvent (id : String) (status : Status) (updatedAt : Int) : Event where
  providerEventID := id
  type := .updated
  subscription :=
    { id := "s1", customerID := "u1", providerSubID := "psub", planID := "pro", status := status,
      seatCount := 1, currentPeriodStart := 0, currentPeriodEnd := 30, cancelAtPeriodEnd := false,
      trialEnd := 0, providerUpdatedAt := updatedAt }
  occurredAt := updatedAt

/-- Past due, then active, then the status. -/
def afterRecovery (status : Status) : List Event :=
  [updatedEvent "evt_1" .pastDue 1, updatedEvent "evt_2" .active 2, updatedEvent "evt_3" status 3]

def signedRecovery (status : Status) : Provider :=
  .fake (((Table.empty.set "sig1" (updatedEvent "evt_1" .pastDue 1)).set
    "sig2" (updatedEvent "evt_2" .active 2)).set "sig3" (updatedEvent "evt_3" status 3))

/-- The last event comes before the recovery, and once more after it. -/
def lastComesEarly : List Delivery :=
  ["sig1", "sig3", "sig2", "sig3"].map fun signature => ⟨.none, [], signature⟩

def canceledAfterRecovery : History where
  sub := "psub"
  events := afterRecovery .canceled
  nonempty := by decide
  sameSub := by decide
  ids := by decide
  times := by decide
  legal := by decide

theorem newest_status_iff_recovered :
    ((deliverAll (signedRecovery .canceled) .new lastComesEarly).store.byProv.get? "psub").map
      (·.status) = some .canceled := by
  have hrequests : ∀ e ∈ canceledAfterRecovery.events, ∃ payload signature,
      (signedRecovery .canceled).verifyAndParse payload signature = .ok e := by
    intro e he
    simp only [canceledAfterRecovery, afterRecovery, mem_cons, not_mem_nil, or_false] at he
    rcases he with rfl | rfl | rfl
    · exact ⟨[], "sig1", by decide⟩
    · exact ⟨[], "sig2", by decide⟩
    · exact ⟨[], "sig3", by decide⟩
  refine (newest_status_iff (h := canceledAfterRecovery) (w := .new) (by decide) (by decide)
    hrequests).mpr (by decide) _ ⟨by decide, by decide, by decide⟩

/-- Each step is legal, but `past_due` cannot go to `paused`. -/
def pausedAfterRecovery : History where
  sub := "psub"
  events := afterRecovery .paused
  nonempty := by decide
  sameSub := by decide
  ids := by decide
  times := by decide
  legal := by decide

/-- The pause is delivered before the recovery, is refused and is lost: the stored
status stays `active`. -/
theorem paused_status_lost :
    Delivers (signedRecovery .paused) pausedAfterRecovery lastComesEarly ∧
    pausedAfterRecovery.newest.targetStatus = .paused ∧
    ((deliverAll (signedRecovery .paused) .new lastComesEarly).store.byProv.get? "psub").map
      (·.status) = some .active := by
  exact ⟨⟨by decide, by decide, by decide⟩, by decide, by decide⟩

end GoServices.SubscriptionCore
