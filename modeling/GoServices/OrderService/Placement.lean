/-
What `Place` answers, over whole runs of the order service.

An order keeps the request it was placed for (`Order.request`); dispatchers change the rest of
it.
-/
import GoServices.Base.Decimal
import GoServices.Base.Separator
import GoServices.OrderService.OutboxRuns
import Mathlib

namespace GoServices.OrderService

open List Table Option Store PlaceOrderRequest

/-! ## The fingerprint -/

def PlaceOrderRequest.body (r : PlaceOrderRequest) : String × Side × Int × Int :=
  (r.instrument, r.side, r.quantity, r.limitPrice)

def PlaceOrderRequest.index (r : PlaceOrderRequest) : String :=
  idempotencyIndex r.accountID r.idempotencyKey

variable {r : PlaceOrderRequest} {s : Side} {i eventID : String}

theorem side_of_validate (h : validate r = .ok ()) :
    r.side = .buy ∨ r.side = .sell := by
  unfold validate at h
  split at h
  · cases h
  split at h
  · cases h
  split at h
  · cases h
  split at h
  · cases h
  rename_i hside
  by_contra hne
  exact hside (not_or.mp hne)

theorem bar_notMem_toString (n : Int) : '|' ∉ (toString n).toList :=
  notMem_toString (by decide) (by decide) n

theorem bar_notMem_side (h : s = .buy ∨ s = .sell) : '|' ∉ s.text.toList := by
  rcases h with rfl | rfl <;> decide

theorem side_text_inj {t : Side} (hs : s = .buy ∨ s = .sell) (ht : t = .buy ∨ t = .sell)
    (h : s.text = t.text) : s = t := by
  rcases hs with rfl | rfl <;> rcases ht with rfl | rfl <;> first | rfl | (revert h; decide)

variable {digest : String → String}

theorem body_eq_of_fingerprint (hdigest : Function.Injective digest) {r' : PlaceOrderRequest}
    (hr : validate r = .ok ()) (hr' : validate r' = .ok ())
    (h : requestFingerprint digest r = requestFingerprint digest r') : r.body = r'.body := by
  have hside := side_of_validate hr
  have hside' := side_of_validate hr'
  have htext := hdigest h
  obtain ⟨htext, hp⟩ := text_separator_inj '|' (bar_notMem_toString _) (bar_notMem_toString _) htext
  obtain ⟨htext, hq⟩ := text_separator_inj '|' (bar_notMem_toString _) (bar_notMem_toString _) htext
  obtain ⟨hi, hs⟩ := text_separator_inj '|' (bar_notMem_side hside)
    (bar_notMem_side hside') htext
  rw [body, body, hi, side_text_inj hside hside' hs,
    Int.repr_inj.mp hq, Int.repr_inj.mp hp]

/-- The text that is hashed tells the requests apart, also when an instrument has bars. -/
theorem fingerprint_text_inj {r r' : PlaceOrderRequest} (hr : validate r = .ok ())
    (hr' : validate r' = .ok ()) (h : requestFingerprint id r = requestFingerprint id r') :
    r.instrument = r'.instrument ∧ r.side = r'.side ∧ r.quantity = r'.quantity ∧
      r.limitPrice = r'.limitPrice := by
  have hbody := body_eq_of_fingerprint Function.injective_id hr hr' h
  simp only [body, Prod.mk.injEq] at hbody
  exact hbody

def demoBarred (key : String) : PlaceOrderRequest := ⟨"acct-1", key, "A|BUY|7", .sell, 7, 120⟩

theorem fingerprint_text_inj_barred :
    requestFingerprint id (demoBarred "k1") = "A|BUY|7|SELL|7|120" ∧
      (demoBarred "k1").instrument = (demoBarred "k2").instrument := by
  have hsame : requestFingerprint id (demoBarred "k1") = requestFingerprint id (demoBarred "k2") :=
    rfl
  exact ⟨by decide, (fingerprint_text_inj (by decide) (by decide) hsame).1⟩

/-! ## Orders and their index -/

def Order.request (o : Order) : PlaceOrderRequest where
  accountID := o.accountID
  idempotencyKey := o.idempotencyKey
  instrument := o.instrument
  side := o.side
  quantity := o.quantity
  limitPrice := o.limitPrice

def Order.identity (o : Order) : String × String × PlaceOrderRequest :=
  (o.id, o.requestHash, o.request)

structure Indexed (digest : String → String) (st : Store) : Prop where
  order_id : ∀ {i o}, st.orders.get? i = some o → o.id = i
  entry : ∀ {k i}, st.byIdempotency.get? k = some i →
    ∃ o, st.orders.get? i = some o ∧ o.request.index = k
  indexed : ∀ {i o}, st.orders.get? i = some o → st.byIdempotency.get? o.request.index = some i
  hash : ∀ {i o}, st.orders.get? i = some o →
    o.requestHash = requestFingerprint digest o.request ∧ validate o.request = .ok ()

theorem indexed_new (digest : String → String) : Indexed digest .new where
  order_id h := by cases h
  entry h := by cases h
  indexed h := by cases h
  hash h := by cases h

structure SameOrders (st st' : Store) : Prop where
  index : st'.byIdempotency = st.byIdempotency
  orders : ∀ i, (st'.orders.get? i).map Order.identity = (st.orders.get? i).map Order.identity

theorem SameOrders.refl (st : Store) : SameOrders st st := ⟨rfl, fun _ => rfl⟩

variable {st st' : Store}

theorem sameOrders_of_eq (hindex : st'.byIdempotency = st.byIdempotency)
    (horders : st'.orders = st.orders) : SameOrders st st' :=
  ⟨hindex, fun i => by rw [horders]⟩

theorem SameOrders.symm (h : SameOrders st st') : SameOrders st' st :=
  ⟨h.index.symm, fun i => (h.orders i).symm⟩

variable {o : Order}

theorem SameOrders.order (h : SameOrders st st') (ho : st'.orders.get? i = some o) :
    ∃ o₀, st.orders.get? i = some o₀ ∧ o₀.id = o.id ∧ o₀.requestHash = o.requestHash ∧
      o₀.request = o.request := by
  have hmap := h.orders i
  rw [ho, map_some, eq_comm, map_eq_some_iff] at hmap
  obtain ⟨o₀, ho₀, heq⟩ := hmap
  simp only [Order.identity, Prod.mk.injEq] at heq
  exact ⟨o₀, ho₀, heq⟩

theorem Indexed.sameOrders (hst : Indexed digest st) (h : SameOrders st st') :
    Indexed digest st' where
  order_id ho := by
    obtain ⟨o₀, ho₀, hid, -⟩ := h.order ho
    exact hid ▸ hst.order_id ho₀
  entry hk := by
    rw [h.index] at hk
    obtain ⟨o₀, ho₀, hindex⟩ := hst.entry hk
    obtain ⟨o, ho, -, -, hreq⟩ := h.symm.order ho₀
    exact ⟨o, ho, hreq ▸ hindex⟩
  indexed ho := by
    obtain ⟨o₀, ho₀, -, -, hreq⟩ := h.order ho
    rw [h.index, ← hreq]
    exact hst.indexed ho₀
  hash ho := by
    obtain ⟨o₀, ho₀, -, hhash, hreq⟩ := h.order ho
    rw [← hhash, ← hreq]
    exact hst.hash ho₀

/-! ## Dispatchers leave the identity of orders alone -/

theorem claimLoop_orders (st : Store) (leaseUntil : Int) (ids : List String)
    (tokens : List (Option String)) :
    (st.claimLoop leaseUntil ids tokens).1.orders = st.orders ∧
      (st.claimLoop leaseUntil ids tokens).1.byIdempotency = st.byIdempotency := by
  induction ids generalizing st tokens with
  | nil => exact ⟨rfl, rfl⟩
  | cons id ids ih =>
    match tokens with
    | [] | none :: _ => exact ⟨rfl, rfl⟩
    | some token :: tokens =>
      rw [claimLoop]
      cases st.events.get? id with
      | none => exact ih st tokens
      | some event =>
        have hrest := ih { st with events := st.events.set id (lease event token leaseUntil) }
          tokens
        dsimp only
        split <;> rename_i hloop <;> rw [hloop] at hrest <;> exact hrest

theorem sameOrders_claimDue (st : Store) (now lease limit : Int) (tokens : List (Option String)) :
    SameOrders st (st.claimDue now lease limit tokens).1 := by
  unfold claimDue
  split
  · exact .refl st
  · exact sameOrders_of_eq (claimLoop_orders ..).2 (claimLoop_orders ..).1

theorem SameOrders.trans {st₁ st₂ : Store} (h₁ : SameOrders st st₁) (h₂ : SameOrders st₁ st₂) :
    SameOrders st st₂ :=
  ⟨h₂.index.trans h₁.index, fun i => (h₂.orders i).trans (h₁.orders i)⟩

theorem sameOrders_putOrder (hst : Indexed digest st) {o' : Order}
    (ho : st.orders.get? i = some o) (hid : o'.identity = o.identity)
    (h : st.putOrder o' = .ok st') : SameOrders st st' := by
  have hi : o'.id = i := (congrArg Prod.fst hid).trans (hst.order_id ho)
  unfold putOrder at h
  rw [hi, ho] at h
  cases h
  refine ⟨rfl, fun j => ?_⟩
  rw [get?_set]
  split
  · rename_i hj
    rw [hj, ho, map_some, map_some, hid]
  · rfl

variable {orderID : String} {change : Order → Order} {andThen : Store → Except OrderError Store}

theorem sameOrders_withOrder (hst : Indexed digest st)
    (h : withOrder orderID change andThen st = .ok st')
    (hchange : ∀ o, (change o).identity = o.identity)
    (hthen : ∀ mid st₂, andThen mid = .ok st₂ → SameOrders mid st₂) : SameOrders st st' := by
  unfold withOrder at h
  split at h
  · cases h
  rename_i o ho
  obtain ⟨mid, hput, hand⟩ := except_bind_eq_ok.mp h
  exact (sameOrders_putOrder hst ho (hchange o) hput).trans (hthen mid st' hand)

theorem sameOrders_enqueue {id : Option String} {kind : EventKind} {availableAt : Int}
    (h : st.enqueue id orderID kind availableAt = .ok st') :
    SameOrders st st' := by
  obtain ⟨n, -, -, -, -, rfl⟩ := enqueue_ok h
  exact sameOrders_of_eq rfl rfl

theorem sameOrders_closing {e : OutboxEvent}
    {apply : Store → Except OrderError Store} {close : OutboxEvent → OutboxEvent}
    (h : st.closing eventID e apply close = .ok st')
    (happly : ∀ st₂, apply st = .ok st₂ → SameOrders st st₂) : SameOrders st st' := by
  obtain ⟨st₂, hst₂, h⟩ := except_bind_eq_ok.mp h
  cases h
  exact (happly st₂ hst₂).trans (sameOrders_of_eq rfl rfl)

theorem sameOrders_finalize (hst : Indexed digest st) {leaseToken : String} {deliveredAt : Int}
    (h : st.finalize eventID leaseToken deliveredAt (withOrder orderID change andThen) = .ok st')
    (hchange : ∀ o, (change o).identity = o.identity)
    (hthen : ∀ mid st₂, andThen mid = .ok st₂ → SameOrders mid st₂) : SameOrders st st' := by
  obtain ⟨e, -, h⟩ := except_bind_eq_ok.mp h
  exact sameOrders_closing h fun _ hok => sameOrders_withOrder hst hok hchange hthen

theorem sameOrders_perform (hst : Indexed digest st) {policy : RetryPolicy} {c : OutboxEvent}
    {now : Int} {newEvent : Option String} {a : Action}
    (h : perform policy st c orderID now newEvent a = .ok st') : SameOrders st st' := by
  have hplain : ∀ mid st₂ : Store, (Except.ok mid : Except OrderError Store) = .ok st₂ →
      SameOrders mid st₂ := by
    intro mid st₂ hok
    cases hok
    exact .refl mid
  cases a with
  | reserved reservationID =>
    exact sameOrders_finalize hst h (fun _ => rfl) fun _ _ => sameOrders_enqueue
  | refused reason | accepted exchangeOrderID =>
    exact sameOrders_finalize hst h (fun _ => rfl) hplain
  | rejected reason =>
    exact sameOrders_finalize hst h (fun _ => rfl) fun _ _ => sameOrders_enqueue
  | released => exact sameOrders_finalize hst h (fun _ => rfl) hplain
  | retry reason =>
    obtain ⟨e, -, h⟩ := except_bind_eq_ok.mp h
    cases h
    exact sameOrders_of_eq rfl rfl
  | abandon reason =>
    obtain ⟨e, -, h⟩ := except_bind_eq_ok.mp h
    exact sameOrders_closing h fun _ hok => sameOrders_withOrder hst hok (fun _ => rfl) hplain

/-! ## What `Place` does -/

/-- The three ways `Place` ends. -/
inductive Places (digest : String → String) (st : Store) (r : PlaceOrderRequest) :
    Store → Except OrderError PlaceOrderResult → Prop
  | rejected (e : OrderError) : Places digest st r st (.error e)
  | replayed {o : Order} (hvalid : validate r = .ok ())
      (ho : st.orderByIdempotency r.accountID r.idempotencyKey = some o)
      (hhash : o.requestHash = requestFingerprint digest r) :
      Places digest st r st (.ok { order := o, replayed := true })
  | created {st' : Store} {o : Order} (hvalid : validate r = .ok ())
      (hnew : st.orders.get? o.id = none) (hentry : st.byIdempotency.get? r.index = none)
      (hreq : o.request = r) (hhash : o.requestHash = requestFingerprint digest r)
      (horders : st'.orders = st.orders.set o.id o)
      (hindex : st'.byIdempotency = st.byIdempotency.set r.index o.id) :
      Places digest st r st' (.ok { order := o, replayed := false })

theorem Indexed.entry_none (hst : Indexed digest st) {accountID key : String}
    (h : st.orderByIdempotency accountID key = none) :
    st.byIdempotency.get? (idempotencyIndex accountID key) = none := by
  by_contra hne
  obtain ⟨i, hi⟩ := ne_none_iff_exists'.mp hne
  obtain ⟨o, ho, -⟩ := hst.entry hi
  rw [orderByIdempotency, hi, bind_some, ho] at h
  cases h

theorem putOrder_new (hnew : st.orders.get? o.id = none) (h : st.putOrder o = .ok st') :
    st'.orders = st.orders.set o.id o ∧
      st'.byIdempotency = st.byIdempotency.set o.request.index o.id := by
  unfold putOrder at h
  rw [hnew] at h
  dsimp only at h
  split at h <;> cases h
  exact ⟨rfl, rfl⟩

theorem places (hst : Indexed digest st) (r : PlaceOrderRequest) {orderID : Option String}
    (hfresh : Fresh st.orders orderID) (eventID : Option String) (now : Int) :
    Places digest st r (place digest st r orderID eventID now).1
      (place digest st r orderID eventID now).2 := by
  unfold place
  cases hvalid : validate r with
  | error e => exact .rejected e
  | ok u =>
    cases htx : placeTx st r (requestFingerprint digest r) orderID eventID now with
    | error e => exact .rejected e
    | ok res =>
      obtain ⟨st', result⟩ := res
      unfold placeTx at htx
      split at htx
      · rename_i o ho
        split at htx <;> cases htx
        rename_i hhash
        exact .replayed hvalid ho (not_not.mp hhash)
      rename_i hnone
      cases orderID with
      | none => cases htx
      | some id =>
        obtain ⟨mid, hput, htx⟩ := except_bind_eq_ok.mp htx
        obtain ⟨st₂, henqueue, htx⟩ := except_bind_eq_ok.mp htx
        cases htx
        obtain ⟨n, -, -, -, -, rfl⟩ := enqueue_ok henqueue
        obtain ⟨horders, hindex⟩ := putOrder_new (hfresh id rfl) hput
        exact .created hvalid (hfresh id rfl) (hst.entry_none hnone) rfl rfl horders hindex

theorem Indexed.created (hst : Indexed digest st) (hvalid : validate o.request = .ok ())
    (hentry : st.byIdempotency.get? o.request.index = none)
    (hhash : o.requestHash = requestFingerprint digest o.request)
    (hnew : st.orders.get? o.id = none) (horders : st'.orders = st.orders.set o.id o)
    (hindex : st'.byIdempotency = st.byIdempotency.set o.request.index o.id) :
    Indexed digest st' := by
  have hord : ∀ {i x}, st'.orders.get? i = some x →
      (i = o.id ∧ x = o) ∨ (i ≠ o.id ∧ st.orders.get? i = some x) := by
    rw [horders]
    exact set_cases
  refine ⟨fun {i x} hx => ?_, fun {k i} hk => ?_, fun {i x} hx => ?_, fun {i x} hx => ?_⟩
  · rcases hord hx with ⟨rfl, rfl⟩ | ⟨-, hx⟩
    · rfl
    · exact hst.order_id hx
  · rw [hindex, get?_set] at hk
    split at hk
    · rename_i heq
      cases hk
      exact ⟨o, by rw [horders, get?_set_self], heq.symm⟩
    obtain ⟨x, hx, hk⟩ := hst.entry hk
    have hi : i ≠ o.id := by
      rintro rfl
      rw [hnew] at hx
      cases hx
    exact ⟨x, by rw [horders, get?_set, if_neg hi, hx], hk⟩
  · rw [hindex, get?_set]
    rcases hord hx with ⟨rfl, rfl⟩ | ⟨-, hx⟩
    · rw [if_pos rfl]
    have hother : x.request.index ≠ o.request.index := by
      intro heq
      have hxi := hst.indexed hx
      rw [heq, hentry] at hxi
      cases hxi
    rw [if_neg hother]
    exact hst.indexed hx
  · rcases hord hx with ⟨-, rfl⟩ | ⟨-, hx⟩
    · exact ⟨hhash, hvalid⟩
    · exact hst.hash hx

/-! ## Runs -/

def successes (r : PlaceOrderRequest) :
    Except OrderError PlaceOrderResult → List (PlaceOrderRequest × Order)
  | .ok result => [(r, result.order)]
  | .error _ => []

def placed (digest : String → String) (s : State) : Label → List (PlaceOrderRequest × Order)
  | .place r orderID eventID now => successes r (place digest s.store r orderID eventID now).2
  | _ => []

structure Answered (digest : String → String) (p : State × List (PlaceOrderRequest × Order)) :
    Prop where
  indexed : Indexed digest p.1.store
  stored : ∀ c ∈ p.2, ∃ o, p.1.store.orders.get? c.2.id = some o ∧ o.request = c.2.request
  asked : ∀ c ∈ p.2, c.2.request.index = c.1.index ∧ c.2.request.body = c.1.body
  origin : ∀ {i o}, p.1.store.orders.get? i = some o → ∃ c ∈ p.2, c.1 = o.request

theorem answered_initial (digest : String → String) : Answered digest (initial, []) where
  indexed := indexed_new digest
  stored _ h := by cases h
  asked _ h := by cases h
  origin h := by cases h

section
variable {digest : String → String} {policy : Nat → RetryPolicy} {s s' : State} {a : Label}
  {log : List (PlaceOrderRequest × Order)}

theorem Answered.sameOrders (hs : Answered digest (s, log)) (h : SameOrders s.store s'.store) :
    Answered digest (s', log) where
  indexed := hs.indexed.sameOrders h
  stored c hc := by
    obtain ⟨o₀, ho₀, hreq₀⟩ := hs.stored c hc
    obtain ⟨o, ho, -, -, hreq⟩ := h.symm.order ho₀
    exact ⟨o, ho, hreq.trans hreq₀⟩
  asked := hs.asked
  origin ho := by
    obtain ⟨o₀, ho₀, -, -, hreq⟩ := h.order ho
    obtain ⟨c, hc, heq⟩ := hs.origin ho₀
    exact ⟨c, hc, heq.trans hreq⟩

variable {r : PlaceOrderRequest}

theorem Answered.reply (hs : Answered digest (s, log)) {o : Order}
    (ho : s.store.orders.get? o.id = some o)
    (hasked : o.request.index = r.index ∧ o.request.body = r.body) :
    Answered digest (s, log ++ [(r, o)]) where
  indexed := hs.indexed
  stored c hc := by
    obtain hc | rfl := mem_concat_cases hc
    · exact hs.stored c hc
    · exact ⟨o, ho, rfl⟩
  asked c hc := by
    obtain hc | rfl := mem_concat_cases hc
    · exact hs.asked c hc
    · exact hasked
  origin hx := by
    obtain ⟨c, hc, heq⟩ := hs.origin hx
    exact ⟨c, mem_append_left _ hc, heq⟩

theorem Indexed.found {st : Store} (hst : Indexed digest st) {o : Order}
    (h : st.orderByIdempotency r.accountID r.idempotencyKey = some o) :
    st.orders.get? o.id = some o ∧ o.request.index = r.index := by
  rw [orderByIdempotency, bind_eq_some_iff] at h
  obtain ⟨i, hi, ho⟩ := h
  obtain ⟨o', ho', hindex⟩ := hst.entry hi
  rw [ho] at ho'
  cases ho'
  exact ⟨by rw [hst.order_id ho, ho], hindex⟩

theorem Answered.places (hdigest : Function.Injective digest) (hs : Answered digest (s, log))
    {st' : Store} {res : Except OrderError PlaceOrderResult} (h : Places digest s.store r st' res) :
    Answered digest ({ s with store := st' }, log ++ successes r res) := by
  cases h with
  | rejected e =>
    rw [successes, append_nil]
    exact hs
  | replayed hvalid ho hhash =>
    obtain ⟨hstored, hindex⟩ := hs.indexed.found ho
    obtain ⟨hown, hownValid⟩ := hs.indexed.hash hstored
    exact hs.reply hstored
      ⟨hindex, body_eq_of_fingerprint hdigest hownValid hvalid (hown.symm.trans hhash)⟩
  | created hvalid hnew hentry hreq hhash horders hindex =>
    rename_i o
    subst hreq
    have hget : ∀ {i x}, st'.orders.get? i = some x →
        (i = o.id ∧ x = o) ∨ (i ≠ o.id ∧ s.store.orders.get? i = some x) := by
      rw [horders]
      exact set_cases
    have hself : st'.orders.get? o.id = some o := by
      rw [horders, get?_set_self]
    refine ⟨hs.indexed.created hvalid hentry hhash hnew horders hindex, fun c hc => ?_,
      fun c hc => ?_, fun {i x} hx => ?_⟩
    · obtain hc | rfl := mem_concat_cases hc
      · obtain ⟨x, hx, hreq⟩ := hs.stored c hc
        have hne : c.2.id ≠ o.id := by
          intro heq
          rw [heq, hnew] at hx
          cases hx
        exact ⟨x, by rw [horders, get?_set, if_neg hne, hx], hreq⟩
      · exact ⟨o, hself, rfl⟩
    · obtain hc | rfl := mem_concat_cases hc
      · exact hs.asked c hc
      · exact ⟨rfl, rfl⟩
    rcases hget hx with ⟨-, rfl⟩ | ⟨-, hx⟩
    · exact ⟨_, mem_concat_self, rfl⟩
    · obtain ⟨c, hc, heq⟩ := hs.origin hx
      exact ⟨c, mem_append_left _ hc, heq⟩

theorem step_sameOrders (hst : Indexed digest s.store) (h : step digest policy s a = some s')
    (ha : ∀ r orderID eventID now, a ≠ .place r orderID eventID now) :
    SameOrders s.store s'.store := by
  cases stepped_of_step h with
  | placed hfresh => exact absurd rfl (ha _ _ _ _)
  | @claimed worker now limit tokens st events hclaim =>
    have hsame := sameOrders_claimDue s.store now leaseFor limit tokens
    rw [hclaim] at hsame
    exact hsame
  | @claimFailed worker now limit tokens st e hclaim =>
    have hsame := sameOrders_claimDue s.store now leaseFor limit tokens
    rw [hclaim] at hsame
    exact hsame
  | drained hpc => exact .refl _
  | loaded hpc =>
    rw [load_store]
    exact .refl _
  | answered hpc haction => exact .refl _
  | finished hpc hfresh hperform => exact sameOrders_perform hst hperform
  | leaseLost hpc | stopped | crashed => exact .refl _

variable {p : State × List (PlaceOrderRequest × Order)}

theorem Answered.step (hdigest : Function.Injective digest)
    {q : State × List (PlaceOrderRequest × Order)} (hp : Answered digest p)
    (h : logged (step digest policy) (placed digest) p a = some q) : Answered digest q := by
  obtain ⟨hstep, hlog⟩ := logged_eq_some.mp h
  obtain ⟨s, log⟩ := p
  obtain ⟨s', log'⟩ := q
  subst hlog
  by_cases ha : ∃ r orderID eventID now, a = .place r orderID eventID now
  · obtain ⟨r, orderID, eventID, now, rfl⟩ := ha
    simp only [OrderService.step] at hstep
    split at hstep <;> cases hstep
    rename_i hfresh
    exact hp.places hdigest (OrderService.places hp.indexed r hfresh.1 eventID now)
  have hnot : ∀ r orderID eventID now, a ≠ .place r orderID eventID now :=
    fun r orderID eventID now heq => ha ⟨r, orderID, eventID, now, heq⟩
  have hnone : placed digest s a = [] := by
    cases a with
    | place r orderID eventID now => exact absurd rfl (hnot r orderID eventID now)
    | _ => rfl
  rw [hnone, append_nil]
  exact hp.sameOrders (step_sameOrders hp.indexed hstep hnot)

def IndexDistinct (calls : List (PlaceOrderRequest × Order)) : Prop :=
  ∀ c ∈ calls, ∀ d ∈ calls, c.1.index = d.1.index →
    c.1.accountID = d.1.accountID ∧ c.1.idempotencyKey = d.1.idempotencyKey

theorem indexDistinct_of_plain {calls : List (PlaceOrderRequest × Order)}
    (h : ∀ c ∈ calls, '\x00' ∉ c.1.idempotencyKey.toList) : IndexDistinct calls :=
  fun c hc d hd heq => text_separator_inj '\x00' (h c hc) (h d hd) heq

theorem Answered.entry (hp : Answered digest p) {c : PlaceOrderRequest × Order} (hc : c ∈ p.2) :
    p.1.store.byIdempotency.get? c.1.index = some c.2.id := by
  obtain ⟨o, ho, hreq⟩ := hp.stored c hc
  rw [← (hp.asked c hc).1, ← hreq]
  exact hp.indexed.indexed ho

theorem Answered.match_iff (hp : Answered digest p) :
    (∀ c ∈ p.2, c.2.request = c.1) ↔ IndexDistinct p.2 := by
  constructor
  · intro hmatch c hc d hd heq
    -- One entry, so one order, and it has both requests.
    have hid : c.2.id = d.2.id := by
      have hentry := hp.entry hc
      rw [heq, hp.entry hd] at hentry
      exact (some.inj hentry).symm
    obtain ⟨o, ho, hreq⟩ := hp.stored c hc
    obtain ⟨o', ho', hreq'⟩ := hp.stored d hd
    rw [hid, ho'] at ho
    cases ho
    have hsame : c.1 = d.1 := by
      rw [← hmatch c hc, ← hmatch d hd, ← hreq, ← hreq']
    rw [hsame]
    exact ⟨rfl, rfl⟩
  · intro hdistinct c hc
    obtain ⟨o, ho, hreq⟩ := hp.stored c hc
    obtain ⟨d, hd, horigin⟩ := hp.origin ho
    obtain ⟨hindex, hbody⟩ := hp.asked c hc
    rw [hreq] at horigin
    obtain ⟨haccount, hkey⟩ := hdistinct d hd c hc (horigin ▸ hindex)
    rw [horigin] at haccount hkey
    simp only [body, Prod.mk.injEq] at hbody
    obtain ⟨hinstrument, hside, hquantity, hprice⟩ := hbody
    calc c.2.request
      _ = ⟨c.2.request.accountID, c.2.request.idempotencyKey, c.2.request.instrument,
            c.2.request.side, c.2.request.quantity, c.2.request.limitPrice⟩ := rfl
      _ = c.1 := by rw [haccount, hkey, hinstrument, hside, hquantity, hprice]

/-- In every run of the service, with SHA-256 free of collisions: the successful results all
carry an order for their own request exactly when no two successful calls with different
pairs share an index entry; then there is exactly one order per pair that succeeded; and a
call that repeats a pair with a different instrument, side, quantity or price is rejected. -/
theorem place_results {as : List Label} {p : State × List (PlaceOrderRequest × Order)}
    (hdigest : Function.Injective digest)
    (hrun : run (logged (step digest policy) (placed digest)) (initial, []) as = some p) :
    ((∀ c ∈ p.2, c.2.request = c.1) ↔ IndexDistinct p.2) ∧
    (IndexDistinct p.2 → ∀ c ∈ p.2, ∃! i, ∃ o, p.1.store.orders.get? i = some o ∧
      o.accountID = c.1.accountID ∧ o.idempotencyKey = c.1.idempotencyKey) ∧
    (∀ c ∈ p.2, ∀ r orderID eventID now, r.accountID = c.1.accountID →
      r.idempotencyKey = c.1.idempotencyKey → r.body ≠ c.1.body →
      Fresh p.1.store.orders orderID →
      ∃ e, (place digest p.1.store r orderID eventID now).2 = .error e) := by
  have hp : Answered digest p :=
    run_invariant (I := Answered digest) (fun _ _ _ hp h => hp.step hdigest h)
      (answered_initial digest) hrun
  refine ⟨hp.match_iff, fun hdistinct c hc => ?_, fun c hc r orderID eventID now ha hk hb hf => ?_⟩
  · obtain ⟨o, ho, hreq⟩ := hp.stored c hc
    have hown : o.request = c.1 := hreq.trans (hp.match_iff.mpr hdistinct c hc)
    refine ⟨c.2.id, ⟨o, ho, congrArg (·.accountID) hown, congrArg (·.idempotencyKey) hown⟩, ?_⟩
    rintro i ⟨x, hx, hxa, hxk⟩
    have hentry := hp.indexed.indexed hx
    have hsame : x.request.index = c.1.index := congrArg₂ idempotencyIndex hxa hxk
    rw [hsame, hp.entry hc] at hentry
    exact (some.inj hentry).symm
  have hindex : r.index = c.1.index := congrArg₂ idempotencyIndex ha hk
  have hplaces := places hp.indexed r hf eventID now
  generalize (place digest p.1.store r orderID eventID now).1 = st' at hplaces
  generalize (place digest p.1.store r orderID eventID now).2 = res at hplaces ⊢
  cases hplaces with
  | rejected e => exact ⟨e, rfl⟩
  | replayed hvalid ho hhash =>
    -- The order found is the one of `c`, whose fingerprint is another one.
    obtain ⟨hstored, hoi⟩ := hp.indexed.found ho
    obtain ⟨hown, hownValid⟩ := hp.indexed.hash hstored
    have hbody := body_eq_of_fingerprint hdigest hownValid hvalid (hown.symm.trans hhash)
    have hentry := hp.indexed.indexed hstored
    rw [hoi, hindex, hp.entry hc] at hentry
    obtain ⟨x, hx, hreq⟩ := hp.stored c hc
    rw [some.inj hentry, hstored] at hx
    cases hx
    rw [hreq, (hp.asked c hc).2] at hbody
    exact absurd hbody.symm hb
  | created hvalid hnew hentry hreq hhash horders hset =>
    rw [hindex, hp.entry hc] at hentry
    cases hentry

end

def demoCalls : List Label :=
  [.place ⟨"acct", "key-1", "INFY", .buy, 10, 150000⟩ (some "o1") (some "e1") 0,
   .place ⟨"acct", "key-1", "INFY", .buy, 10, 150000⟩ (some "o2") (some "e2") 1,
   .place ⟨"acct", "key-1", "INFY", .buy, 20, 150000⟩ (some "o3") (some "e3") 2]

theorem place_results_replayed :
    ∃ p ∈ run (logged (step (fun text => text) fun _ => RetryPolicy.withDefaults ⟨0, 0, 0⟩)
        (placed fun text => text)) (initial, []) demoCalls,
      p.2.length = 2 ∧ ∀ c ∈ p.2, c.2.request = c.1 := by
  refine exists_some_imp (A := fun p => p.2.length = 2 ∧
    ∀ c ∈ p.2, '\x00' ∉ c.1.idempotencyKey.toList)
    (by decide +kernel) fun p hp ⟨hlen, hplain⟩ => ?_
  exact ⟨hlen, (place_results Function.injective_id hp).1.mpr (indexDistinct_of_plain hplain)⟩

/-- Two pairs whose accounts and keys join to one text: the second account is answered with
the order of the first, and has none. -/
theorem nul_answers_with_foreign_order :
    ∃ p ∈ run (logged (step (fun text => text) fun _ => RetryPolicy.withDefaults ⟨0, 0, 0⟩)
        (placed fun text => text)) (initial, [])
        [.place ⟨"a\x00b", "c", "INFY", .buy, 10, 150000⟩ (some "o1") (some "e1") 0,
          .place ⟨"a", "b\x00c", "INFY", .buy, 10, 150000⟩ (some "o2") (some "e2") 1],
      ∃ c ∈ p.2, c.1.accountID = "a" ∧ c.2.accountID = "a\x00b" ∧ p.1.store.orders.len = 1 := by
  decide +kernel

end GoServices.OrderService
