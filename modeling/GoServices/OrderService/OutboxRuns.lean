/-
One outbox event at a time: what every run of the order service keeps.

`dueKind` reads off an order which event it waits for.
-/
import GoServices.OrderService.Dispatcher

namespace GoServices.OrderService

open List Table Option Store

/-! ## What an order waits for -/

def OutboxEvent.active (e : OutboxEvent) : Bool :=
  e.state = .pending || e.state = .retry || e.state = .processing

def dueKind (o : Order) : Option EventKind :=
  match o.status, o.margin with
  | .pendingMargin, .none => some .reserveMargin
  | .pendingRoute, .reserved => some .routeExchange
  | .rejected, .releasePending => some .releaseMargin
  | _, _ => none

def Settled (o : Order) : Prop :=
  (o.status = .accepted ∧ o.margin = .reserved) ∨
  (o.status = .rejected ∧ (o.margin = .none ∨ o.margin = .released)) ∨
  o.status = .reconciliationRequired

def ReleaseStatus (o : Order) : Prop :=
  o.status = .rejected ∨ o.status = .reconciliationRequired

/-- Orders and events agree; `rejections` are the orders the exchange has definitively
rejected. -/
structure Good (rejections : List String) (st : Store) : Prop where
  order_id : ∀ {i o}, st.orders.get? i = some o → o.id = i
  event_id : ∀ {i e}, st.events.get? i = some e → e.id = i
  event_order : ∀ {i e}, st.events.get? i = some e → ∃ o, st.orders.get? e.orderID = some o
  legal : ∀ {i o}, st.orders.get? i = some o → dueKind o ≠ none ∨ Settled o
  due : ∀ {i e o}, st.events.get? i = some e → e.active = true →
    st.orders.get? e.orderID = some o → dueKind o = some e.kind
  one : ∀ {i j e f}, st.events.get? i = some e → st.events.get? j = some f →
    e.active = true → f.active = true → e.orderID = f.orderID → i = j
  has : ∀ {i o k}, st.orders.get? i = some o → dueKind o = some k →
    ∃ j e, st.events.get? j = some e ∧ e.active = true ∧ e.orderID = i
  release_status : ∀ {i e o}, st.events.get? i = some e → e.kind = .releaseMargin →
    st.orders.get? e.orderID = some o → ReleaseStatus o
  release_rejected : ∀ {i e}, st.events.get? i = some e → e.kind = .releaseMargin →
    e.orderID ∈ rejections

theorem good_new : Good [] new where
  order_id h := by cases h
  event_id h := by cases h
  event_order h := by cases h
  legal h := by cases h
  due h := by cases h
  one h := by cases h
  has h := by cases h
  release_status h := by cases h
  release_rejected h := by cases h

variable {r : List String} {st : Store}

theorem Good.mono {r' : List String} (h : Good r st) (hr : ∀ i ∈ r, i ∈ r') :
    Good r' st :=
  { h with release_rejected := fun he hk => hr _ (h.release_rejected he hk) }

/-! ## Moves of the store -/

def OutboxEvent.face (e : OutboxEvent) : String × String × EventKind × Bool :=
  (e.id, e.orderID, e.kind, e.active)

structure Quiet (st st' : Store) : Prop where
  orders : st'.orders = st.orders
  events : ∀ i, (st'.events.get? i).map OutboxEvent.face = (st.events.get? i).map OutboxEvent.face

structure Placed (st st' : Store) (o : Order) (e : OutboxEvent) : Prop where
  new_order : st.orders.get? o.id = none
  new_event : st.events.get? e.id = none
  order_due : dueKind o = some .reserveMargin
  event : e.orderID = o.id ∧ e.kind = .reserveMargin ∧ e.active = true
  orders : ∀ i, st'.orders.get? i = if i = o.id then some o else st.orders.get? i
  events : ∀ i, st'.events.get? i = if i = e.id then some e else st.events.get? i

/-- The active event `e` is closed, its order moves from `o` to `o'`, and `new` is
enqueued. -/
structure Closes (rejections : List String) (st st' : Store) (e closed : OutboxEvent)
    (o o' : Order) (new : Option OutboxEvent) : Prop where
  event : st.events.get? e.id = some e
  active : e.active = true
  order : st.orders.get? e.orderID = some o
  order_id : o'.id = o.id
  closed_id : closed.id = e.id
  closed_order : closed.orderID = e.orderID
  closed_kind : closed.kind = e.kind
  inactive : closed.active = false
  due : dueKind o' = new.map OutboxEvent.kind
  legal : dueKind o' ≠ none ∨ Settled o'
  status : e.kind = .releaseMargin ∨ dueKind o' = some .releaseMargin → ReleaseStatus o'
  rejected : dueKind o' = some .releaseMargin → e.orderID ∈ rejections
  new_order : ∀ n, new = some n → n.orderID = e.orderID
  new_active : ∀ n, new = some n → n.active = true
  new_event : ∀ n, new = some n → st.events.get? n.id = none
  orders : ∀ i, st'.orders.get? i = if i = e.orderID then some o' else st.orders.get? i
  events : ∀ i, st'.events.get? i = if i = e.id then some closed
    else if new.map OutboxEvent.id = some i then new else st.events.get? i

inductive StoreMove (rejections : List String) (st st' : Store) : Prop
  | quiet (h : Quiet st st')
  | placed (o e : _) (h : Placed st st' o e)
  | closes (e closed o o' new : _) (h : Closes rejections st st' e closed o o' new)

theorem StoreMove.same (rejections : List String) (st : Store) : StoreMove rejections st st :=
  .quiet ⟨rfl, fun _ => rfl⟩

structure Keeps (st st' : Store) : Prop where
  event : ∀ {i e}, st.events.get? i = some e →
    ∃ e', st'.events.get? i = some e' ∧ e'.orderID = e.orderID ∧ e'.kind = e.kind

variable {st' : Store}

theorem Quiet.event (h : Quiet st st') {i : String} {e' : OutboxEvent}
    (he : st'.events.get? i = some e') :
    ∃ e, st.events.get? i = some e ∧ e.id = e'.id ∧ e.orderID = e'.orderID ∧ e.kind = e'.kind ∧
      e.active = e'.active := by
  have hface := h.events i
  rw [he, map_some, eq_comm, map_eq_some_iff] at hface
  obtain ⟨e, he, heq⟩ := hface
  simp only [OutboxEvent.face, Prod.mk.injEq] at heq
  exact ⟨e, he, heq⟩

theorem Quiet.symm (h : Quiet st st') : Quiet st' st := ⟨h.orders.symm, fun i => (h.events i).symm⟩

theorem Closes.new_ne {e closed : OutboxEvent} {o o' : Order} {new : Option OutboxEvent}
    (h : Closes r st st' e closed o o' new) {i : String} {x : OutboxEvent}
    (hx : st.events.get? i = some x) : new.map OutboxEvent.id ≠ some i := by
  intro hmap
  obtain ⟨n, hn, rfl⟩ := map_eq_some_iff.mp hmap
  rw [h.new_event n hn] at hx
  cases hx

theorem StoreMove.keeps (h : StoreMove r st st') :
    Keeps st st' := by
  cases h with
  | quiet h =>
    refine ⟨fun {i e} he => ?_⟩
    obtain ⟨e', he', -, horder, hkind, -⟩ := h.symm.event he
    exact ⟨e', he', horder, hkind⟩
  | placed o n h =>
    refine ⟨fun {i e} he => ⟨e, ?_, rfl, rfl⟩⟩
    have hne : i ≠ n.id := by
      rintro rfl
      rw [h.new_event] at he
      cases he
    rw [h.events, if_neg hne, he]
  | closes c closed o o' new h =>
    refine ⟨fun {i e} he => ?_⟩
    rw [h.events]
    by_cases hi : i = c.id
    · have hec : e = c := by
        rw [hi, h.event] at he
        exact (some.inj he).symm
      rw [if_pos hi, hec]
      exact ⟨closed, rfl, h.closed_order, h.closed_kind⟩
    · rw [if_neg hi, if_neg (h.new_ne he)]
      exact ⟨e, he, rfl, rfl⟩

theorem good_quiet (hst : Good r st) (h : Quiet st st') :
    Good r st' := by
  refine ⟨?_, ?_, ?_, ?_, ?_, ?_, ?_, ?_, ?_⟩
  · intro i o ho
    rw [h.orders] at ho
    exact hst.order_id ho
  · intro i e' he'
    obtain ⟨e, he, hid, -⟩ := h.event he'
    exact hid.symm.trans (hst.event_id he)
  · intro i e' he'
    obtain ⟨e, he, -, horder, -⟩ := h.event he'
    rw [h.orders, ← horder]
    exact hst.event_order he
  · intro i o ho
    rw [h.orders] at ho
    exact hst.legal ho
  · intro i e' o he' hactive ho
    obtain ⟨e, he, -, horder, hkind, hact⟩ := h.event he'
    rw [h.orders, ← horder] at ho
    rw [← hkind]
    exact hst.due he (hact.trans hactive) ho
  · intro i j e' f' he' hf' hae haf horder
    obtain ⟨e, he, -, hoe, -, hacte⟩ := h.event he'
    obtain ⟨f, hf, -, hof, -, hactf⟩ := h.event hf'
    exact hst.one he hf (hacte.trans hae) (hactf.trans haf) (hoe.trans (horder.trans hof.symm))
  · intro i o k ho hk
    rw [h.orders] at ho
    obtain ⟨j, e, he, hactive, horder⟩ := hst.has ho hk
    obtain ⟨e', he', -, hoe, -, hact⟩ := h.symm.event he
    exact ⟨j, e', he', hact.trans hactive, hoe.trans horder⟩
  · intro i e' o he' hk ho
    obtain ⟨e, he, -, horder, hkind, -⟩ := h.event he'
    rw [h.orders, ← horder] at ho
    exact hst.release_status he (hkind.trans hk) ho
  intro i e' he' hk
  obtain ⟨e, he, -, horder, hkind, -⟩ := h.event he'
  rw [← horder]
  exact hst.release_rejected he (hkind.trans hk)

theorem good_placed {o : Order} {e : OutboxEvent} (hst : Good r st) (h : Placed st st' o e) :
    Good r st' := by
  obtain ⟨horder, hkind, hactive⟩ := h.event
  have hev : ∀ {i x}, st'.events.get? i = some x →
      (i = e.id ∧ x = e) ∨ (i ≠ e.id ∧ st.events.get? i = some x) := update_cases h.events
  have hord : ∀ {i x}, st'.orders.get? i = some x →
      (i = o.id ∧ x = o) ∨ (i ≠ o.id ∧ st.orders.get? i = some x) := update_cases h.orders
  -- an event that was there before belongs to another order
  have hother : ∀ {i x}, st.events.get? i = some x → x.orderID ≠ o.id := by
    intro i x hx heq
    obtain ⟨y, hy⟩ := hst.event_order hx
    rw [heq, h.new_order] at hy
    cases hy
  have hself : st'.orders.get? o.id = some o := by
    rw [h.orders, if_pos rfl]
  refine ⟨?_, ?_, ?_, ?_, ?_, ?_, ?_, ?_, ?_⟩
  · intro i x hx
    rcases hord hx with ⟨rfl, rfl⟩ | ⟨-, hx⟩
    · rfl
    · exact hst.order_id hx
  · intro i x hx
    rcases hev hx with ⟨rfl, rfl⟩ | ⟨-, hx⟩
    · rfl
    · exact hst.event_id hx
  · intro i x hx
    rcases hev hx with ⟨-, rfl⟩ | ⟨-, hx⟩
    · exact ⟨o, by rw [horder, hself]⟩
    · rw [h.orders, if_neg (hother hx)]
      exact hst.event_order hx
  · intro i x hx
    rcases hord hx with ⟨-, rfl⟩ | ⟨-, hx⟩
    · exact .inl (by rw [h.order_due]; exact some_ne_none _)
    · exact hst.legal hx
  · intro i x y hx hactx hy
    rcases hev hx with ⟨-, rfl⟩ | ⟨-, hx⟩
    · rw [horder, hself] at hy
      rw [← some.inj hy, h.order_due, hkind]
    · rw [h.orders, if_neg (hother hx)] at hy
      exact hst.due hx hactx hy
  · intro i j x y hx hy hactx hacty hsame
    rcases hev hx with ⟨rfl, rfl⟩ | ⟨-, hx⟩ <;> rcases hev hy with ⟨rfl, rfl⟩ | ⟨-, hy⟩
    · rfl
    · exact absurd (hsame.symm.trans horder) (hother hy)
    · exact absurd (hsame.trans horder) (hother hx)
    · exact hst.one hx hy hactx hacty hsame
  · intro i x k hx hk
    rcases hord hx with ⟨rfl, rfl⟩ | ⟨-, hx⟩
    · exact ⟨e.id, e, by rw [h.events, if_pos rfl], hactive, horder⟩
    obtain ⟨j, f, hf, hactf, hof⟩ := hst.has hx hk
    have hj : j ≠ e.id := by
      rintro rfl
      rw [h.new_event] at hf
      cases hf
    exact ⟨j, f, by rw [h.events, if_neg hj, hf], hactf, hof⟩
  · intro i x y hx hk hy
    rcases hev hx with ⟨-, rfl⟩ | ⟨-, hx⟩
    · rw [hkind] at hk
      cases hk
    · rw [h.orders, if_neg (hother hx)] at hy
      exact hst.release_status hx hk hy
  · intro i x hx hk
    rcases hev hx with ⟨-, rfl⟩ | ⟨-, hx⟩
    · rw [hkind] at hk
      cases hk
    · exact hst.release_rejected hx hk

section Closes
variable {r : List String} {st st' : Store} {e closed : OutboxEvent} {o o' : Order}
  {new : Option OutboxEvent} {i : String} {x : OutboxEvent}

section
variable (h : Closes r st st' e closed o o' new)
include h

theorem Closes.event_cases (hx : st'.events.get? i = some x) :
    (i = e.id ∧ x = closed) ∨ (new = some x ∧ i = x.id) ∨
      (i ≠ e.id ∧ st.events.get? i = some x) := by
  rw [h.events] at hx
  split at hx
  · rename_i hi
    exact .inl ⟨hi, (some.inj hx).symm⟩
  rename_i hi
  split at hx
  · rename_i hid
    rw [hx, map_some, some.injEq] at hid
    exact .inr (.inl ⟨hx, hid.symm⟩)
  · exact .inr (.inr ⟨hi, hx⟩)

theorem Closes.order_self : st'.orders.get? e.orderID = some o' := by
  rw [h.orders, if_pos rfl]

theorem Closes.get?_new {n : OutboxEvent} (hn : new = some n) : st'.events.get? n.id = some n := by
  have hne : n.id ≠ e.id := by
    intro heq
    have hfresh := h.new_event n hn
    rw [heq, h.event] at hfresh
    cases hfresh
  rw [h.events, if_neg hne, hn]
  exact if_pos rfl

theorem Closes.other_order (hst : Good r st) (hi : i ≠ e.id) (hx : st.events.get? i = some x)
    (hactx : x.active = true) : x.orderID ≠ e.orderID :=
  fun hsame => hi (hst.one hx h.event hactx h.active hsame)

theorem Closes.active_cases (hst : Good r st) (hx : st'.events.get? i = some x)
    (hactx : x.active = true) :
    (new = some x ∧ i = x.id ∧ x.orderID = e.orderID) ∨
      (st.events.get? i = some x ∧ x.orderID ≠ e.orderID) := by
  rcases h.event_cases hx with ⟨-, rfl⟩ | ⟨hn, hi⟩ | ⟨hi, hx⟩
  · rw [h.inactive] at hactx
    cases hactx
  · exact .inl ⟨hn, hi, h.new_order x hn⟩
  · exact .inr ⟨hx, h.other_order hst hi hx hactx⟩

theorem Closes.one (hst : Good r st) {j : String} {y : OutboxEvent}
    (hx : st'.events.get? i = some x) (hy : st'.events.get? j = some y) (hactx : x.active = true)
    (hacty : y.active = true) (hsame : x.orderID = y.orderID) : i = j := by
  rcases h.active_cases hst hx hactx with ⟨hn, hi, horder⟩ | ⟨hx, hother⟩
  · rcases h.active_cases hst hy hacty with ⟨hn', hj, -⟩ | ⟨-, hother⟩
    · rw [hn] at hn'
      rw [hi, hj, some.inj hn']
    · exact absurd (hsame.symm.trans horder) hother
  · rcases h.active_cases hst hy hacty with ⟨-, -, horder⟩ | ⟨hy, -⟩
    · exact absurd (hsame.trans horder) hother
    · exact hst.one hx hy hactx hacty hsame

theorem Closes.has (hst : Good r st) {x : Order} {k : EventKind} (hx : st'.orders.get? i = some x)
    (hk : dueKind x = some k) :
    ∃ j f, st'.events.get? j = some f ∧ f.active = true ∧ f.orderID = i := by
  rcases update_cases h.orders hx with ⟨rfl, rfl⟩ | ⟨hi, hx⟩
  · rw [h.due, map_eq_some_iff] at hk
    obtain ⟨n, hn, -⟩ := hk
    exact ⟨n.id, n, h.get?_new hn, h.new_active n hn, h.new_order n hn⟩
  obtain ⟨j, f, hf, hactf, hof⟩ := hst.has hx hk
  have hj : j ≠ e.id := by
    rintro rfl
    rw [h.event] at hf
    rw [← some.inj hf] at hof
    exact hi hof.symm
  exact ⟨j, f, by rw [h.events, if_neg hj, if_neg (h.new_ne hf), hf], hactf, hof⟩

end

theorem kind_of_releaseStatus {x : Order} {k : EventKind} (hdue : dueKind x = some k)
    (hstatus : ReleaseStatus x) : k = .releaseMargin := by
  unfold dueKind at hdue
  split at hdue <;> rename_i hs _ <;> simp_all [ReleaseStatus]

theorem Closes.release_status (h : Closes r st st' e closed o o' new) (hst : Good r st) {y : Order}
    (hx : st'.events.get? i = some x) (hk : x.kind = .releaseMargin)
    (hy : st'.orders.get? x.orderID = some y) :
    ReleaseStatus y := by
  -- the events of the order that moved, and then the others
  by_cases hsame : x.orderID = e.orderID
  · rw [hsame, h.order_self] at hy
    rw [← some.inj hy]
    rcases h.event_cases hx with ⟨-, rfl⟩ | ⟨hn, -⟩ | ⟨-, hx⟩
    · exact h.status (.inl (h.closed_kind.symm.trans hk))
    · refine h.status (.inr ?_)
      rw [h.due, hn, map_some, hk]
    -- an older release event: the order waited for `e` in a release status
    have hstatus := hst.release_status hx hk (hsame ▸ h.order)
    exact h.status (.inl (kind_of_releaseStatus (hst.due h.event h.active h.order) hstatus))
  · rcases h.event_cases hx with ⟨-, rfl⟩ | ⟨hn, -⟩ | ⟨-, hx⟩
    · exact absurd h.closed_order hsame
    · exact absurd (h.new_order x hn) hsame
    · rw [h.orders, if_neg hsame] at hy
      exact hst.release_status hx hk hy

theorem good_closes (hst : Good r st) (h : Closes r st st' e closed o o' new) : Good r st' := by
  have hself := h.order_self
  refine ⟨?_, ?_, ?_, ?_, ?_, h.one hst, h.has hst, h.release_status hst, ?_⟩
  · intro i x hx
    rcases update_cases h.orders hx with ⟨rfl, rfl⟩ | ⟨-, hx⟩
    · exact h.order_id.trans (hst.order_id h.order)
    · exact hst.order_id hx
  · intro i x hx
    rcases h.event_cases hx with ⟨rfl, rfl⟩ | ⟨-, hi⟩ | ⟨-, hx⟩
    · exact h.closed_id
    · exact hi.symm
    · exact hst.event_id hx
  · intro i x hx
    by_cases hsame : x.orderID = e.orderID
    · exact ⟨o', by rw [hsame, hself]⟩
    rcases h.event_cases hx with ⟨-, rfl⟩ | ⟨hn, -⟩ | ⟨-, hx⟩
    · exact absurd h.closed_order hsame
    · exact absurd (h.new_order x hn) hsame
    · rw [h.orders, if_neg hsame]
      exact hst.event_order hx
  · intro i x hx
    rcases update_cases h.orders hx with ⟨-, rfl⟩ | ⟨-, hx⟩
    · exact h.legal
    · exact hst.legal hx
  · intro i x y hx hactx hy
    rcases h.active_cases hst hx hactx with ⟨hn, -, horder⟩ | ⟨hx, hother⟩
    · rw [horder, hself] at hy
      rw [← some.inj hy, h.due, hn]
      rfl
    · rw [h.orders, if_neg hother] at hy
      exact hst.due hx hactx hy
  intro i x hx hk
  rcases h.event_cases hx with ⟨-, rfl⟩ | ⟨hn, -⟩ | ⟨-, hx⟩
  · rw [h.closed_order]
    exact hst.release_rejected h.event (h.closed_kind.symm.trans hk)
  · rw [h.new_order x hn]
    refine h.rejected ?_
    rw [h.due, hn, map_some, hk]
  · exact hst.release_rejected hx hk

end Closes

variable {r : List String} {st st' : Store}

theorem good_move (hst : Good r st) (h : StoreMove r st st') : Good r st' := by
  cases h with
  | quiet h => exact good_quiet hst h
  | placed o e h => exact good_placed hst h
  | closes e closed o o' new h => exact good_closes hst h

/-! ## The store methods are moves -/

theorem except_bind_eq_ok {ε α β : Type} {x : Except ε α} {f : α → Except ε β} {b : β} :
    (x >>= f) = .ok b ↔ ∃ a, x = .ok a ∧ f a = .ok b := by
  cases x with
  | error e =>
    constructor
    · intro h
      cases h
    · rintro ⟨a, ha, -⟩
      cases ha
  | ok a =>
    constructor
    · exact fun h => ⟨a, rfl, h⟩
    rintro ⟨a', ha, h⟩
    cases ha
    exact h

variable {orderID : String} {availableAt : Int}

theorem enqueue_ok {id : Option String} {kind : EventKind}
    (h : st.enqueue id orderID kind availableAt = .ok st') :
    ∃ n : OutboxEvent, id = some n.id ∧ n.orderID = orderID ∧ n.kind = kind ∧ n.active = true ∧
      st' = { st with events := st.events.set n.id n } := by
  cases id with
  | none => cases h
  | some id =>
    cases h
    exact ⟨newEvent id orderID kind availableAt, rfl, rfl, rfl, rfl, rfl⟩

theorem putOrder_ok {o : Order} (h : st.putOrder o = .ok st') :
    st'.orders = st.orders.set o.id o ∧ st'.events = st.events := by
  unfold putOrder at h
  dsimp only at h
  split at h
  · cases h
    exact ⟨rfl, rfl⟩
  split at h <;> cases h
  exact ⟨rfl, rfl⟩

variable {now : Int}

theorem placeTx_move (r : List String) {request : PlaceOrderRequest} {fingerprint : String}
    {orderID eventID : Option String} {result : PlaceOrderResult} (ho : Fresh st.orders orderID)
    (he : Fresh st.events eventID)
    (h : placeTx st request fingerprint orderID eventID now = .ok (st', result)) :
    StoreMove r st st' := by
  unfold placeTx at h
  split at h
  · split at h <;> cases h
    exact .same r st
  cases orderID with
  | none => cases h
  | some id =>
    obtain ⟨st₁, hput, h⟩ := except_bind_eq_ok.mp h
    obtain ⟨st₂, hen, h⟩ := except_bind_eq_ok.mp h
    cases h
    obtain ⟨n, rfl, hno, hnk, hna, rfl⟩ := enqueue_ok hen
    obtain ⟨horders, hevents⟩ := putOrder_ok hput
    refine .placed _ n ⟨ho id rfl, he n.id rfl, rfl, ⟨hno, hnk, hna⟩, fun i => ?_, fun i => ?_⟩
    · rw [horders]
      exact get?_set ..
    · rw [hevents]
      exact get?_set ..

theorem Quiet.refl (st : Store) : Quiet st st := ⟨rfl, fun _ => rfl⟩

theorem Quiet.trans {st₁ st₂ : Store} (h₁ : Quiet st st₁) (h₂ : Quiet st₁ st₂) :
    Quiet st st₂ :=
  ⟨h₂.orders.trans h₁.orders, fun i => (h₂.events i).trans (h₁.events i)⟩

variable {e : OutboxEvent}

theorem quiet_set {i : String} {e' : OutboxEvent} (he : st.events.get? i = some e)
    (hface : e'.face = e.face) :
    Quiet st { st with events := st.events.set i e' } := by
  refine ⟨rfl, fun j => ?_⟩
  rw [get?_set]
  split
  · rename_i hj
    rw [hj, he, map_some, map_some, hface]
  · rfl

def Known (st : Store) (c : OutboxEvent) : Prop :=
  ∃ e, st.events.get? c.id = some e ∧ e.orderID = c.orderID ∧ e.kind = c.kind

variable {c : OutboxEvent}

theorem Known.keeps (h : Known st c) (hk : Keeps st st') :
    Known st' c := by
  obtain ⟨e, he, horder, hkind⟩ := h
  obtain ⟨e', he', horder', hkind'⟩ := hk.event he
  exact ⟨e', he', horder'.trans horder, hkind'.trans hkind⟩

theorem claimLoop_quiet (hst : Good r st) (leaseUntil : Int) {ids : List String}
    (hids : ∀ i ∈ ids, ∃ e, st.events.get? i = some e ∧ e.active = true)
    (tokens : List (Option String)) :
    Quiet st (st.claimLoop leaseUntil ids tokens).1 ∧
      ∀ cs, (st.claimLoop leaseUntil ids tokens).2 = .ok cs →
        ∀ c ∈ cs, Known (st.claimLoop leaseUntil ids tokens).1 c := by
  induction ids generalizing st tokens with
  | nil =>
    refine ⟨.refl st, fun cs hcs c hc => ?_⟩
    cases hcs
    cases hc
  | cons i ids ih =>
    match tokens with
    | [] | none :: _ => exact ⟨.refl st, nofun⟩
    | some token :: tokens =>
      obtain ⟨e, he, hactive⟩ := hids i (mem_cons_self ..)
      simp only [claimLoop, he]
      generalize hclaimed : lease e token leaseUntil = claimed
      have hface : claimed.face = e.face := by
        rw [← hclaimed, OutboxEvent.face, OutboxEvent.face, hactive]
        rfl
      have hquiet := quiet_set he hface
      have hrest : ∀ j ∈ ids, ∃ f,
          ({ st with events := st.events.set i claimed } : Store).events.get? j = some f ∧
            f.active = true := by
        intro j hj
        obtain ⟨f, hf, hactf⟩ := hids j (mem_cons_of_mem _ hj)
        obtain ⟨f', hf', -, -, -, hact⟩ := hquiet.symm.event hf
        exact ⟨f', hf', hact.trans hactf⟩
      obtain ⟨hq, hknown⟩ := ih (good_quiet hst hquiet) hrest tokens
      have hkeep : Known (claimLoop { st with events := st.events.set i claimed }
          leaseUntil ids tokens).1 claimed := by
        have hid : claimed.id = i := by
          rw [← hclaimed, ← hst.event_id he]
          rfl
        refine Known.keeps ⟨claimed, ?_, rfl, rfl⟩ (StoreMove.keeps (r := r) (.quiet hq))
        rw [hid]
        exact get?_set_self ..
      split
      · rename_i st₂ more hloop
        rw [hloop] at hq hknown hkeep
        refine ⟨hquiet.trans hq, fun cs hcs c hc => ?_⟩
        cases hcs
        rcases mem_cons.mp hc with rfl | hc
        · exact hkeep
        · exact hknown more rfl c hc
      · rename_i st₂ e hloop
        rw [hloop] at hq
        exact ⟨hquiet.trans hq, nofun⟩

theorem claimDue_quiet (hst : Good r st) (now lease limit : Int) (tokens : List (Option String)) :
    Quiet st (st.claimDue now lease limit tokens).1 ∧
      ∀ cs, (st.claimDue now lease limit tokens).2 = .ok cs →
        ∀ c ∈ cs, Known (st.claimDue now lease limit tokens).1 c := by
  unfold claimDue
  split
  · refine ⟨.refl st, fun cs hcs c hc => ?_⟩
    cases hcs
    cases hc
  refine claimLoop_quiet hst _ (fun i hi => ?_) tokens
  obtain ⟨⟨i, e⟩, hmem, rfl⟩ := mem_map.mp hi
  have hdue := mem_of_mem_take hmem
  rw [mem_insertionSort, mem_filter] at hdue
  refine ⟨e, mem_toList.mp hdue.1, ?_⟩
  have hclaim := hdue.2
  simp only [claimable, Bool.or_eq_true, Bool.and_eq_true, decide_eq_true_eq] at hclaim
  unfold OutboxEvent.active
  rcases hclaim with ⟨hs | hs, -⟩ | ⟨hs, -⟩ <;> simp [hs]

variable {eventID leaseToken : String}

theorem leased_eq_ok (h : st.leased eventID leaseToken = .ok e) :
    st.events.get? eventID = some e ∧ e.state = .processing ∧ e.leaseToken = leaseToken := by
  unfold leased at h
  split at h <;> try cases h
  rename_i event hevent
  split at h <;> cases h
  rename_i hlease
  rw [not_or, not_not, not_not] at hlease
  exact ⟨hevent, hlease⟩

theorem leased_ok (h : st.leased eventID leaseToken = .ok e) :
    st.events.get? eventID = some e ∧ e.active = true := by
  obtain ⟨he, hstate, -⟩ := leased_eq_ok h
  exact ⟨he, by simp [OutboxEvent.active, hstate]⟩

structure Enqueues (st next : Store) (orderID : String) (kind : Option EventKind)
    (new : Option OutboxEvent) : Prop where
  orders : next.orders = st.orders
  events : ∀ i, next.events.get? i =
    if new.map OutboxEvent.id = some i then new else st.events.get? i
  kind : new.map OutboxEvent.kind = kind
  order : ∀ n, new = some n → n.orderID = orderID
  active : ∀ n, new = some n → n.active = true
  fresh : ∀ n, new = some n → st.events.get? n.id = none

theorem enqueues_none (st : Store) (orderID : String) : Enqueues st st orderID none none where
  orders := rfl
  events _ := rfl
  kind := rfl
  order n hn := by cases hn
  active n hn := by cases hn
  fresh n hn := by cases hn

theorem enqueues_some {next : Store} {id : Option String} {kind : EventKind}
    (hfresh : Fresh st.events id) (h : st.enqueue id orderID kind availableAt = .ok next) :
    ∃ new, Enqueues st next orderID (some kind) new := by
  obtain ⟨n, rfl, horder, hkind, hactive, rfl⟩ := enqueue_ok h
  refine ⟨some n, rfl, fun i => ?_, ?_, fun m hm => ?_, fun m hm => ?_, fun m hm => ?_⟩
  · rw [get?_set, map_some]
    by_cases hi : i = n.id
    · rw [if_pos hi, if_pos (congrArg some hi.symm)]
    · rw [if_neg hi, if_neg fun h => hi (some.inj h).symm]
  · rw [map_some, hkind]
  · rw [← some.inj hm, horder]
  · rw [← some.inj hm, hactive]
  · rw [← some.inj hm]
    exact hfresh n.id rfl

/-- How a handler changes the order that waits for an event of kind `kind`, and the
event the order waits for next. -/
structure Advances (kind : EventKind) (change : Order → Order) (next : Option EventKind) :
    Prop where
  id : ∀ o, (change o).id = o.id
  due : ∀ o, dueKind o = some kind → dueKind (change o) = next
  legal : ∀ o, dueKind o = some kind → dueKind (change o) ≠ none ∨ Settled (change o)
  status : ∀ o, dueKind o = some kind →
    kind = .releaseMargin ∨ next = some .releaseMargin → ReleaseStatus (change o)

structure Closing (close : OutboxEvent → OutboxEvent) : Prop where
  id : ∀ e, (close e).id = e.id
  order : ∀ e, (close e).orderID = e.orderID
  kind : ∀ e, (close e).kind = e.kind
  inactive : ∀ e, (close e).active = false

variable {next : Option EventKind} {change : Order → Order}
  {andThen : Store → Except OrderError Store}

theorem move_of_closing {close : OutboxEvent → OutboxEvent} (hst : Good r st)
    (he : st.events.get? eventID = some e) (hactive : e.active = true)
    (horder : e.orderID = orderID) (hadv : Advances e.kind change next) (hclose : Closing close)
    (hthen : ∀ mid st₂, mid.events = st.events → andThen mid = .ok st₂ →
      ∃ new, Enqueues mid st₂ orderID next new)
    (hrej : next = some .releaseMargin → orderID ∈ r)
    (h : st.closing eventID e (withOrder orderID change andThen) close = .ok st') :
    StoreMove r st st' := by
  obtain ⟨st₂, happly, h⟩ := except_bind_eq_ok.mp h
  cases h
  unfold withOrder at happly
  split at happly
  · cases happly
  rename_i o ho
  obtain ⟨mid, hput, hand⟩ := except_bind_eq_ok.mp happly
  obtain ⟨hmidOrders, hmidEvents⟩ := putOrder_ok hput
  obtain ⟨new, hnew⟩ := hthen mid st₂ hmidEvents hand
  have heid : e.id = eventID := hst.event_id he
  have hoid : (change o).id = orderID := (hadv.id o).trans (hst.order_id ho)
  rw [← horder] at ho
  have hdue := hst.due he hactive ho
  -- the enqueued event is a new one, so the closure left `e` as it was
  have hcurrent : st₂.events.get? eventID = some e := by
    rw [hnew.events, hmidEvents]
    split
    · rename_i hid
      obtain ⟨n, hn, hnid⟩ := map_eq_some_iff.mp hid
      have hfresh := hnew.fresh n hn
      rw [hmidEvents, hnid, he] at hfresh
      cases hfresh
    · exact he
  have heid' : st.events.get? e.id = some e := by rw [heid, he]
  refine .closes e (close e) o (change o) new ?_
  refine ⟨heid', hactive, ho, hadv.id o, hclose.id e, hclose.order e, hclose.kind e,
    hclose.inactive e, ?_, hadv.legal o hdue, ?_, ?_, ?_, hnew.active, ?_, fun i => ?_,
    fun i => ?_⟩
  · rw [hadv.due o hdue, hnew.kind]
  · rw [hadv.due o hdue]
    exact hadv.status o hdue
  · rw [hadv.due o hdue, horder]
    exact hrej
  · rw [horder]
    exact hnew.order
  · rw [← hmidEvents]
    exact hnew.fresh
  · rw [hnew.orders, hmidOrders, hoid, horder]
    exact get?_set ..
  · rw [get?_set, hcurrent, getD_some, heid, hnew.events, hmidEvents]

/-! ## The handlers -/

def Fits (kind : EventKind) : Action → Prop
  | .reserved _ | .refused _ => kind = .reserveMargin
  | .accepted _ | .rejected _ => kind = .routeExchange
  | .released => kind = .releaseMargin
  | .retry _ | .abandon _ => True

theorem dueKind_cases {o : Order} {k : EventKind} (h : dueKind o = some k) :
    (o.status = .pendingMargin ∧ o.margin = .none ∧ k = .reserveMargin) ∨
    (o.status = .pendingRoute ∧ o.margin = .reserved ∧ k = .routeExchange) ∨
    (o.status = .rejected ∧ o.margin = .releasePending ∧ k = .releaseMargin) := by
  unfold dueKind at h
  split at h <;> cases h
  · rename_i hs hm
    exact .inl ⟨hs, hm, rfl⟩
  · rename_i hs hm
    exact .inr (.inl ⟨hs, hm, rfl⟩)
  · rename_i hs hm
    exact .inr (.inr ⟨hs, hm, rfl⟩)

theorem advances_reserved (reservationID : String) (now : Int) :
    Advances .reserveMargin
      (fun o => { o with
        status := .pendingRoute, margin := .reserved, reservationID := reservationID,
        updatedAt := now })
      (some .routeExchange) where
  id _ := rfl
  due _ _ := rfl
  legal _ _ := .inl (some_ne_none _)
  status _ _ h := by rcases h with h | h <;> cases h

theorem advances_refused (reason : String) (now : Int) :
    Advances .reserveMargin
      (fun o => { o with status := .rejected, failureReason := reason, updatedAt := now })
      none where
  id _ := rfl
  due o h := by
    rcases dueKind_cases h with ⟨-, hm, -⟩ | ⟨-, -, hk⟩ | ⟨-, -, hk⟩
    · simp [dueKind, hm]
    · cases hk
    · cases hk
  legal o h := by
    rcases dueKind_cases h with ⟨-, hm, -⟩ | ⟨-, -, hk⟩ | ⟨-, -, hk⟩
    · exact .inr (.inr (.inl ⟨rfl, .inl hm⟩))
    · cases hk
    · cases hk
  status _ _ h := by rcases h with h | h <;> cases h

theorem advances_accepted (exchangeOrderID : String) (now : Int) :
    Advances .routeExchange
      (fun o => { o with
        status := .accepted, exchangeOrderID := exchangeOrderID, updatedAt := now })
      none where
  id _ := rfl
  due o _ := by simp [dueKind]
  legal o h := by
    rcases dueKind_cases h with ⟨-, -, hk⟩ | ⟨-, hm, -⟩ | ⟨-, -, hk⟩
    · cases hk
    · exact .inr (.inl ⟨rfl, hm⟩)
    · cases hk
  status _ _ h := by rcases h with h | h <;> cases h

theorem advances_rejected (reason : String) (now : Int) :
    Advances .routeExchange
      (fun o => { o with
        status := .rejected, margin := .releasePending, failureReason := reason,
        updatedAt := now })
      (some .releaseMargin) where
  id _ := rfl
  due _ _ := rfl
  legal _ _ := .inl (some_ne_none _)
  status _ _ _ := .inl rfl

theorem advances_released (now : Int) :
    Advances .releaseMargin (fun o => { o with margin := .released, updatedAt := now }) none where
  id _ := rfl
  due o h := by
    rcases dueKind_cases h with ⟨-, -, hk⟩ | ⟨-, -, hk⟩ | ⟨hs, -, -⟩
    · cases hk
    · cases hk
    · simp [dueKind, hs]
  legal o h := by
    rcases dueKind_cases h with ⟨-, -, hk⟩ | ⟨-, -, hk⟩ | ⟨hs, -, -⟩
    · cases hk
    · cases hk
    · exact .inr (.inr (.inl ⟨hs, .inr rfl⟩))
  status o h _ := by
    rcases dueKind_cases h with ⟨-, -, hk⟩ | ⟨-, -, hk⟩ | ⟨hs, -, -⟩
    · cases hk
    · cases hk
    · exact .inl hs

theorem advances_abandon (kind : EventKind) (reason : String) (now : Int) :
    Advances kind
      (fun o => { o with
        status := .reconciliationRequired, failureReason := reason, updatedAt := now })
      none where
  id _ := rfl
  due _ _ := by simp [dueKind]
  legal _ _ := .inr (.inr (.inr rfl))
  status _ _ _ := .inr rfl

theorem move_of_finalize {deliveredAt : Int} (hst : Good r st) (hc : Known st c)
    (horder : c.orderID = orderID) (hadv : Advances c.kind change next)
    (hthen : ∀ mid st₂, mid.events = st.events → andThen mid = .ok st₂ →
      ∃ new, Enqueues mid st₂ orderID next new)
    (hrej : next = some .releaseMargin → orderID ∈ r)
    (h : st.finalize c.id c.leaseToken deliveredAt (withOrder orderID change andThen) = .ok st') :
    StoreMove r st st' := by
  obtain ⟨e, hlease, h⟩ := except_bind_eq_ok.mp h
  obtain ⟨he, hactive⟩ := leased_ok hlease
  obtain ⟨e', he', horder', hkind'⟩ := hc
  rw [he] at he'
  cases he'
  rw [← hkind'] at hadv
  refine move_of_closing hst he hactive (horder'.trans horder) hadv ?_ hthen hrej h
  exact ⟨fun _ => rfl, fun _ => rfl, fun _ => rfl, fun _ => rfl⟩

variable {reason : String}

theorem move_of_abandon (hst : Good r st) (hc : Known st c) (h : st.abandon c.id c.leaseToken reason
      (withOrder c.orderID
        (fun o => { o with
          status := .reconciliationRequired, failureReason := reason, updatedAt := now })
        .ok) = .ok st') :
    StoreMove r st st' := by
  obtain ⟨e, hlease, h⟩ := except_bind_eq_ok.mp h
  obtain ⟨he, hactive⟩ := leased_ok hlease
  obtain ⟨e', he', horder', -⟩ := hc
  rw [he] at he'
  cases he'
  refine move_of_closing hst he hactive horder' (advances_abandon e.kind reason now) ?_
    (fun mid st₂ _ hok => ?_) nofun h
  · exact ⟨fun _ => rfl, fun _ => rfl, fun _ => rfl, fun _ => rfl⟩
  · cases hok
    exact ⟨none, enqueues_none mid _⟩

theorem quiet_of_retry (h : st.retry eventID leaseToken availableAt reason = .ok st') :
    Quiet st st' := by
  obtain ⟨e, hlease, h⟩ := except_bind_eq_ok.mp h
  obtain ⟨he, hactive⟩ := leased_ok hlease
  cases h
  refine quiet_set he ?_
  rw [OutboxEvent.face, OutboxEvent.face, hactive]
  rfl

variable {policy : RetryPolicy}

theorem perform_move {newEvent : Option String} {a : Action} (hst : Good r st) (hc : Known st c)
    (horder : c.orderID = orderID) (hfits : Fits c.kind a)
    (hrej : ∀ reason, a = .rejected reason → orderID ∈ r) (hfresh : Fresh st.events newEvent)
    (h : perform policy st c orderID now newEvent a = .ok st') : StoreMove r st st' := by
  have hplain : ∀ mid st₂ : Store, mid.events = st.events →
      (Except.ok mid : Except OrderError Store) = .ok st₂ →
      ∃ new, Enqueues mid st₂ orderID none new := by
    intro mid st₂ _ hok
    cases hok
    exact ⟨none, enqueues_none mid orderID⟩
  have henqueue : ∀ (kind : EventKind) (mid st₂ : Store), mid.events = st.events →
      mid.enqueue newEvent orderID kind now = .ok st₂ →
      ∃ new, Enqueues mid st₂ orderID (some kind) new := by
    intro kind mid st₂ hevents hok
    refine enqueues_some ?_ hok
    rw [hevents]
    exact hfresh
  cases a with
  | reserved reservationID =>
    exact move_of_finalize hst hc horder (hfits ▸ advances_reserved reservationID now)
      (henqueue .routeExchange) nofun h
  | refused reason =>
    exact move_of_finalize hst hc horder (hfits ▸ advances_refused reason now) hplain
      nofun h
  | accepted exchangeOrderID =>
    exact move_of_finalize hst hc horder (hfits ▸ advances_accepted exchangeOrderID now) hplain
      nofun h
  | rejected reason =>
    exact move_of_finalize hst hc horder (hfits ▸ advances_rejected reason now)
      (henqueue .releaseMargin) (fun _ => hrej reason rfl) h
  | released =>
    exact move_of_finalize hst hc horder (hfits ▸ advances_released now) hplain
      nofun h
  | retry reason => exact .quiet (quiet_of_retry h)
  | abandon reason => exact move_of_abandon hst hc h

/-! ## Runs -/

def PcOk (r : List String) (st : Store) : Pc → Prop
  | .next queue => ∀ c ∈ queue, Known st c
  | .calling c order queue => Known st c ∧ order.id = c.orderID ∧ ∀ d ∈ queue, Known st d
  | .finishing c orderID a queue => Known st c ∧ c.orderID = orderID ∧ Fits c.kind a ∧
      (∀ reason, a = .rejected reason → orderID ∈ r) ∧ ∀ d ∈ queue, Known st d

theorem PcOk.keeps {r' : List String} {pc : Pc} (h : PcOk r st pc) (hk : Keeps st st')
    (hr : ∀ i ∈ r, i ∈ r') : PcOk r' st' pc := by
  cases pc with
  | next queue => exact fun c hc => (h c hc).keeps hk
  | calling c order queue =>
    exact ⟨h.1.keeps hk, h.2.1, fun d hd => (h.2.2 d hd).keeps hk⟩
  | finishing c orderID a queue =>
    obtain ⟨hc, horder, hfits, hrej, hqueue⟩ := h
    exact ⟨hc.keeps hk, horder, hfits, fun reason ha => hr _ (hrej reason ha),
      fun d hd => (hqueue d hd).keeps hk⟩

structure Inv (p : State × List String) : Prop where
  good : Good p.2 p.1.store
  workers : ∀ w pc, p.1.workers.get? w = some pc → PcOk p.2 p.1.store pc

variable {s : State}

section
variable (hs : Inv (s, r))
include hs

theorem inv_set (hmove : StoreMove r s.store st') {w : Nat} {pc : Pc} (hpc : PcOk r st' pc) :
    Inv ({ store := st', workers := s.workers.set w pc }, r) := by
  refine ⟨good_move hs.good hmove, fun v pc' hv => ?_⟩
  rw [get?_set] at hv
  split at hv
  · rw [← some.inj hv]
    exact hpc
  · exact (hs.workers v pc' hv).keeps hmove.keeps fun _ hi => hi

theorem inv_store (hmove : StoreMove r s.store st') : Inv ({ s with store := st' }, r) :=
  ⟨good_move hs.good hmove, fun v pc hv => (hs.workers v pc hv).keeps hmove.keeps fun _ hi => hi⟩

theorem inv_erase (w : Nat) : Inv ({ s with workers := s.workers.erase w }, r) := by
  refine ⟨hs.good, fun v pc hv => ?_⟩
  rw [get?_erase] at hv
  split at hv
  · cases hv
  · exact hs.workers v pc hv

theorem inv_log (l : List String) : Inv (s, r ++ l) := by
  have hr : ∀ i ∈ r, i ∈ r ++ l := fun i hi => mem_append_left l hi
  exact ⟨hs.good.mono hr, fun v pc hv =>
    (hs.workers v pc hv).keeps (StoreMove.same r s.store).keeps hr⟩

end

/-- The action fits the event, and only a refusal of the exchange rejects. -/
theorem fits_actionFor {event : OutboxEvent} {remote : Remote} {a : Action}
    (h : actionFor policy event remote = some a) : Fits event.kind a ∧
      ∀ reason, a = .rejected reason →
        ∃ exchangeOrderID, remote = .route exchangeOrderID false reason := by
  cases remote with
  | failed transient text =>
    cases h
    unfold handleRemoteError
    split
    · exact ⟨trivial, nofun⟩
    · split <;> exact ⟨trivial, nofun⟩
  | reserve reservationID approved reason =>
    obtain ⟨hkind, ⟨⟩⟩ := ite_none_right_eq_some.mp h
    cases approved <;> exact ⟨hkind, nofun⟩
  | route exchangeOrderID accepted reason =>
    obtain ⟨hkind, ⟨⟩⟩ := ite_none_right_eq_some.mp h
    cases accepted with
    | true => exact ⟨hkind, nofun⟩
    | false =>
      refine ⟨hkind, fun _ hrej => ?_⟩
      cases hrej
      exact ⟨exchangeOrderID, rfl⟩
  | release =>
    obtain ⟨hkind, ⟨⟩⟩ := ite_none_right_eq_some.mp h
    exact ⟨hkind, nofun⟩

theorem inv_load (hs : Inv (s, r)) {w : Nat} {queue : List OutboxEvent} (hc : Known s.store c)
    (hqueue : ∀ d ∈ queue, Known s.store d) :
    Inv (load s w c queue, r) := by
  unfold load
  split
  · exact inv_set hs (.same r _) ⟨hc, rfl, trivial, fun _ => Action.noConfusion, hqueue⟩
  split
  · rename_i order horder
    exact inv_set hs (.same r _) ⟨hc, hs.good.order_id horder, hqueue⟩
  · exact inv_erase hs w

section
variable {digest : String → String} {policy : Nat → RetryPolicy}

theorem inv_step {p q : State × List String} {a : Label} (hp : Inv p)
    (h : logged (step digest policy) emit p a = some q) : Inv q := by
  obtain ⟨hstep, hlog⟩ := logged_eq_some.mp h
  obtain ⟨s, r⟩ := p
  obtain ⟨s', r'⟩ := q
  subst hlog
  cases stepped_of_step hstep with
  | placed hfresh =>
    refine inv_log (inv_store hp ?_) _
    unfold place
    split
    · exact .same r _
    split
    · exact .same r _
    · rename_i hplace
      exact placeTx_move r hfresh.1 hfresh.2 hplace
  | @claimed worker now limit tokens st events hclaim =>
    obtain ⟨hquiet, hknown⟩ := claimDue_quiet hp.good now leaseFor limit tokens
    rw [hclaim] at hquiet hknown
    refine inv_log ?_ _
    exact inv_set hp (.quiet hquiet) (hknown _ rfl)
  | @claimFailed worker now limit tokens st e hclaim =>
    obtain ⟨hquiet, -⟩ := claimDue_quiet hp.good now leaseFor limit tokens
    rw [hclaim] at hquiet
    exact inv_log (inv_store hp (.quiet hquiet)) _
  | @drained worker hpc => exact inv_log (inv_erase hp worker) _
  | @loaded worker event queue hpc =>
    have hknown : ∀ c ∈ event :: queue, Known s.store c := hp.workers worker _ hpc
    refine inv_log (inv_load hp (hknown event (mem_cons_self ..)) fun d hd => ?_) _
    exact hknown d (mem_cons_of_mem _ hd)
  | @answered worker remote event order queue action hpc haction =>
    obtain ⟨hc, horder, hqueue⟩ := hp.workers worker _ hpc
    obtain ⟨hfits, hrejects⟩ := fits_actionFor haction
    refine inv_set (inv_log hp _) (.same _ _)
      ⟨hc, horder.symm, hfits, fun reason hrej => ?_, hqueue⟩
    obtain ⟨exchangeOrderID, rfl⟩ := hrejects reason hrej
    simp only [emit, hpc]
    exact mem_concat_self
  | @finished worker now newEvent event orderID action queue st hpc hfresh hperform =>
    obtain ⟨hc, horder, hfits, hrej, hqueue⟩ := hp.workers worker _ hpc
    have hmove := perform_move hp.good hc horder hfits hrej hfresh hperform
    refine inv_log ?_ _
    exact inv_set hp hmove fun d hd => (hqueue d hd).keeps hmove.keeps
  | @leaseLost worker now newEvent event orderID action queue hpc =>
    obtain ⟨-, -, -, -, hqueue⟩ := hp.workers worker _ hpc
    refine inv_log ?_ _
    exact inv_set hp (.same r _) hqueue
  | @stopped worker now newEvent | @crashed worker => exact inv_log (inv_erase hp worker) _

theorem inv_run {as : List Label} {p : State × List String}
    (h : run (logged (step digest policy) emit) (initial, []) as = some p) : Inv p := by
  refine run_invariant (fun _ _ _ hp hstep => inv_step hp hstep) ⟨good_new, ?_⟩ h
  intro w pc hw
  cases hw

/-- In every state that a run reaches: an order that waits has exactly one active
event, of the kind it waits for, and every other order is terminal or dead-lettered
and has none; a release event exists only for an order that the exchange has
definitively rejected; and an accepted order has its margin reserved and no release
event. -/
theorem one_active_event {as : List Label} {p : State × List String}
    (h : run (logged (step digest policy) emit) (initial, []) as = some p) {id : String}
    {o : Order} (ho : p.1.store.orders.get? id = some o) :
    ((∃ kind, dueKind o = some kind ∧ ∃ i e, p.1.store.events.get? i = some e ∧
        e.active = true ∧ e.orderID = id ∧ e.kind = kind ∧
        ∀ j f, p.1.store.events.get? j = some f → f.active = true → f.orderID = id → j = i) ∨
      (Settled o ∧ ∀ j f, p.1.store.events.get? j = some f → f.active = true → f.orderID ≠ id)) ∧
    (∀ j f, p.1.store.events.get? j = some f → f.orderID = id → f.kind = .releaseMargin →
      id ∈ p.2) ∧
    (o.status = .accepted → o.margin = .reserved ∧
      ∀ j f, p.1.store.events.get? j = some f → f.orderID = id → f.kind ≠ .releaseMargin) := by
  have hgood := (inv_run h).good
  have hnot_due : dueKind o = none → ∀ j f, p.1.store.events.get? j = some f →
      f.active = true → f.orderID ≠ id := by
    rintro hdue j f hf hactive rfl
    rw [hgood.due hf hactive ho] at hdue
    cases hdue
  refine ⟨?_, fun j f hf horder hkind => ?_, fun hacc => ⟨?_, fun j f hf horder hkind => ?_⟩⟩
  · cases hdue : dueKind o with
    | some kind =>
      obtain ⟨i, e, he, hactive, horder⟩ := hgood.has ho hdue
      have hkind := hgood.due he hactive (horder ▸ ho)
      rw [hdue, some.injEq] at hkind
      exact .inl ⟨kind, rfl, i, e, he, hactive, horder, hkind.symm, fun j f hf hact horder' =>
        hgood.one hf he hact hactive (horder'.trans horder.symm)⟩
    | none =>
      refine .inr ⟨?_, hnot_due hdue⟩
      exact (hgood.legal ho).resolve_left fun hne => hne hdue
  · rw [← horder]
    exact hgood.release_rejected hf hkind
  · rcases hgood.legal ho with hdue | hsettled
    · exact absurd (by simp [dueKind, hacc]) hdue
    rcases hsettled with ⟨-, hm⟩ | ⟨hs, -⟩ | hs
    · exact hm
    all_goals
      rw [hacc] at hs
      cases hs
  · rcases hgood.release_status hf hkind (horder ▸ ho) with hs | hs
    all_goals
      rw [hacc] at hs
      cases hs

end

def takenOver : List Label :=
  [.place ⟨"acct", "key-1", "INFY", .buy, 10, 150000⟩ (some "o1") (some "e1") 0,
   .claim 1 0 10 [some "t1"], .load 1, .answer 1 (.reserve "r1" true ""),
   .claim 2 30000000000 10 [some "t2"], .load 2, .answer 2 (.reserve "r1" true ""),
   .finish 1 30000000001 (some "e2"), .finish 2 30000000002 (some "e2"), .load 2,
   .claim 2 30000000003 10 [some "t3"], .load 2, .answer 2 (.route "" false "price band"),
   .finish 2 30000000004 (some "e3")]

theorem one_active_event_takenOver :
    ∃ p ∈ run (logged (step (fun text => text) fun _ => RetryPolicy.withDefaults ⟨0, 0, 0⟩) emit)
        (initial, []) takenOver,
      ∃ o ∈ p.1.store.orders.get? "o1", dueKind o = some .releaseMargin ∧
        (∃ i e, p.1.store.events.get? i = some e ∧ e.active = true ∧ e.orderID = "o1" ∧
          e.kind = .releaseMargin) ∧ "o1" ∈ p.2 := by
  refine exists_some_imp (A := fun p => ∃ o ∈ p.1.store.orders.get? "o1", dueKind o =
    some .releaseMargin ∧ ∃ f ∈ p.1.store.events.get? "e3", f.orderID = "o1" ∧
      f.kind = .releaseMargin ∧ f.active = true)
    (by decide) fun p hp ⟨o, ho, hdue, f, hf, hfo, hfk, hfa⟩ => ?_
  obtain ⟨hactive, hreject, -⟩ := one_active_event hp ho
  refine ⟨o, ho, hdue, ?_, hreject "e3" f hf hfo hfk⟩
  rcases hactive with ⟨kind, hkind, i, e, he, hact, horder, hek, -⟩ | ⟨-, hnone⟩
  · rw [hdue, some.injEq] at hkind
    exact ⟨i, e, he, hact, horder, hek.trans hkind.symm⟩
  · exact absurd hfo (hnone "e3" f hf hfa)

end GoServices.OrderService
