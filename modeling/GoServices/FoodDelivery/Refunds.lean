/-
The amount of a refund, across the consumer groups of the whole system.

An order is placed over HTTP.  Its events reach the groups through the outbox, each group at its
own pace.
-/
import GoServices.FoodDelivery.Consumer

namespace GoServices.FoodDelivery.Refunds

open List Option Database

/-! ## The system -/

def topicsOf : String → List Topic
  | "payment" | "restaurant" => [.paymentEvents]
  | "payment-saga" | "kitchen" | "delivery" | "delivery-lastmile" => [.restaurantEvents]
  | "order-orchestrator" => [.orderEvents]
  | "projection" | "notifications" | "sse-gateway" =>
    [.orderEvents, .paymentEvents, .restaurantEvents, .deliveryEvents]
  | _ => []

/-- The body of `POST /orders`, as far as a consumer reads it. -/
structure OrderBody where
  customerId : Option String
  restaurantId : Option String
  restaurantName : Option String
  amount : Option Int

def orderPlaced (eventId occurredAt orderId : String) (b : OrderBody) : Envelope :=
  makeEvent eventId occurredAt .orderPlaced orderId
    { customerId := some (b.customerId.getD "guest")
      restaurantId := some (b.restaurantId.getD "r1")
      restaurantName := some (b.restaurantName.getD "Unknown")
      amount := some (b.amount.getD 0) }

inductive Action
  /-- `POST /orders`, with what `randomUUID` and the clock return. -/
  | place (eventId occurredAt orderId : String) (b : OrderBody)
  | consume (a : Label)

def reaches (s : State) (group : String) (topic : Topic) (e : Envelope) : Bool :=
  topic ∈ topicsOf group ∧ ∃ row ∈ s.db.outbox, row.topic = topic ∧ row.payload = e

def systemStep (maxAttempts : Nat) (s : State) : Action → Option State
  | .place eventId occurredAt orderId b =>
    if ∃ row ∈ s.db.outbox, row.payload.orderId = orderId then none
    else
      match s.db.emitEvents [orderPlaced eventId occurredAt orderId b] with
      | .ok db => some { s with db := db }
      | .error _ => none
  | .consume (.deliver d process group topic (.event e)) =>
    if reaches s group topic e then
      step handlerOf maxAttempts s (.deliver d process group topic (.event e))
    else none
  | .consume a => step handlerOf maxAttempts s a

def readsAmount (s : State) : Pc → Bool
  | .handling _ _ (.getOrder orderId _) =>
    ((s.db.orders.get? orderId).bind fun row => row.columns.amount).isSome
  | _ => true

def Projected (s : State) : Action → Prop
  | .consume (.readOrder d _) => ∀ dl ∈ s.deliveries.get? d, readsAmount s dl.pc = true
  | _ => True

instance (s : State) : ∀ a, Decidable (Projected s a) := fun _ => by
  unfold Projected
  split <;> infer_instance

/-! ## Amounts -/

def Placed (outbox : List OutboxRow) (orderId : String) (amount : Int) : Prop :=
  ∃ row ∈ outbox, row.payload.type = .orderPlaced ∧ row.payload.orderId = orderId ∧
    row.payload.payload.amount = some amount

def carriesAmount : EventType → Bool
  | .orderPlaced | .paymentRequested | .paymentAuthorized | .refundRequested => true
  | _ => false

def EventOk (outbox : List OutboxRow) (e : Envelope) : Prop :=
  carriesAmount e.type = true →
    ∃ amount, Placed outbox e.orderId amount ∧ e.payload.amount = some amount

def Sound (outbox : List OutboxRow) : Program → Prop
  | .done | .throw _ => True
  | .uuid next | .now next => ∀ text, Sound outbox (next text)
  | .chance next => ∀ b, Sound outbox (next b)
  | .pick _ next => ∀ n, Sound outbox (next n)
  | .getOrder orderId next => ∀ outbox', outbox ⊆ outbox' → ∀ order amount,
      Placed outbox' orderId amount →
      (order.bind fun row : OrderRow => row.columns.amount) = some amount →
      Sound outbox' (next order)
  | .emit events next =>
    (∀ e ∈ events, e.type ≠ .orderPlaced ∧ EventOk outbox e) ∧ Sound outbox next
  | .project orderId _ _ patch next =>
    (∀ amount, patch.amount = some amount → Placed outbox orderId amount) ∧ Sound outbox next
  | .publish _ _ next => Sound outbox next

section
variable {outbox outbox' : List OutboxRow} {orderId : String}

theorem Placed.mono (hsub : outbox ⊆ outbox') {amount : Int} (h : Placed outbox orderId amount) :
    Placed outbox' orderId amount := by
  obtain ⟨row, hrow, hplaced⟩ := h
  exact ⟨row, hsub hrow, hplaced⟩

variable {e : Envelope}

theorem EventOk.mono (hsub : outbox ⊆ outbox') (h : EventOk outbox e) :
    EventOk outbox' e := by
  intro hcarries
  obtain ⟨amount, hplaced, hamount⟩ := h hcarries
  exact ⟨amount, hplaced.mono hsub, hamount⟩

theorem Sound.mono (hsub : outbox ⊆ outbox') {p : Program} (h : Sound outbox p) :
    Sound outbox' p := by
  induction p with
  | done | throw message => trivial
  | uuid next ih | now next ih => exact fun text => ih text (h text)
  | chance next ih => exact fun b => ih b (h b)
  | pick bound next ih => exact fun n => ih n (h n)
  | getOrder orderId next => exact fun outbox'' hsub' => h outbox'' (Subset.trans hsub hsub')
  | emit events next ih =>
    exact ⟨fun e he => ⟨(h.1 e he).1, (h.1 e he).2.mono hsub⟩, ih h.2⟩
  | project orderId status type patch next ih =>
    exact ⟨fun amount hamount => (h.1 amount hamount).mono hsub, ih h.2⟩
  | publish event status next ih => exact ih h

/-! ## The handlers -/

variable {type : EventType} {payload : Payload} {next : Program}

theorem sound_emitNew (htype : type ≠ .orderPlaced) (hamount : carriesAmount type = true →
      ∃ amount, Placed outbox orderId amount ∧ payload.amount = some amount)
    (hnext : Sound outbox next) : Sound outbox (Program.emitNew type orderId payload next) := by
  intro id at'
  refine ⟨fun e he => ?_, hnext⟩
  cases mem_singleton.mp he
  exact ⟨htype, hamount⟩

theorem sound_bare (htype : carriesAmount type = false) (hnext : Sound outbox next) :
    Sound outbox (Program.emitNew type orderId payload next) := by
  refine sound_emitNew ?_ (fun h => ?_) hnext
  · rintro rfl
    cases htype
  · rw [htype] at h
    cases h

theorem payment_sound (he : EventOk outbox e) : Sound outbox (payment e) := by
  unfold payment
  split
  · rename_i htype
    have hamount := he (by rw [htype]; rfl)
    intro timeout
    cases timeout with
    | true => trivial
    | false =>
      intro declined
      cases declined with
      | true => exact sound_bare rfl trivial
      | false => exact fun txnId => sound_emitNew (by decide) (fun _ => hamount) trivial
  · exact fun txnId => sound_bare rfl trivial
  · trivial

theorem saga_sound (e : Envelope) : Sound outbox (saga e) := by
  unfold saga
  split
  · intro outbox' _ order amount hplaced horder
    refine sound_emitNew (by decide) (fun _ => ⟨amount, hplaced, ?_⟩) trivial
    rw [horder]
    rfl
  · trivial

theorem desk_sound (e : Envelope) : Sound outbox (desk e) := by
  unfold desk
  split
  · refine sound_bare rfl fun rejected => ?_
    cases rejected with
    | true | false => exact sound_bare rfl trivial
  · trivial

theorem kitchen_sound (e : Envelope) : Sound outbox (kitchen e) := by
  unfold kitchen
  split
  · exact sound_bare rfl (sound_bare rfl trivial)
  · trivial

theorem dispatch_sound (e : Envelope) : Sound outbox (dispatch e) := by
  unfold dispatch
  split
  · intro none'
    cases none' with
    | true => exact sound_bare rfl trivial
    | false => exact fun i n => sound_bare rfl trivial
  · trivial

theorem lastMile_sound (e : Envelope) : Sound outbox (lastMile e) := by
  unfold lastMile
  split
  · exact sound_bare rfl (sound_bare rfl trivial)
  · trivial

theorem orchestration_sound (he : EventOk outbox e) :
    Sound outbox (orchestration e) := by
  unfold orchestration
  split
  · rename_i htype
    exact sound_emitNew (by decide) (fun _ => he (by rw [htype]; rfl)) trivial
  · trivial

theorem projection_sound (he : EventOk outbox e) : Sound outbox (projection e) := by
  unfold projection
  split
  · trivial
  split
  · trivial
  refine ⟨fun amount hamount => ?_, trivial⟩
  rw [patchFor] at hamount
  split at hamount <;> try cases hamount
  rename_i htype
  obtain ⟨amount', hplaced, heq⟩ := he (by rw [htype]; rfl)
  cases hamount.symm.trans heq
  exact hplaced

theorem bridge_sound (e : Envelope) : Sound outbox (bridge e) := by
  unfold bridge
  split
  · trivial
  · trivial

theorem handler_sound (group : String) (he : EventOk outbox e) :
    Sound outbox (handlerOf group e) := by
  unfold handlerOf
  split
  · exact payment_sound he
  · exact saga_sound e
  · exact desk_sound e
  · exact kitchen_sound e
  · exact dispatch_sound e
  · exact lastMile_sound e
  · exact projection_sound he
  · exact orchestration_sound he
  · trivial
  · exact bridge_sound e
  · trivial

/-! ## What a run keeps -/

structure DbOk (db : Database) : Prop where
  events : ∀ row ∈ db.outbox, EventOk db.outbox row.payload
  unique : ∀ orderId amount amount', Placed db.outbox orderId amount →
    Placed db.outbox orderId amount' → amount = amount'
  orders : ∀ orderId row amount, db.orders.get? orderId = some row →
    row.columns.amount = some amount → Placed db.outbox orderId amount

def PcOk (outbox : List OutboxRow) : Pc → Prop
  | .redisCheck e | .pgCheck e | .marking e _ | .backoff e _ => EventOk outbox e
  | .handling e _ p => EventOk outbox e ∧ Sound outbox p
  | .caching _ | .deadLettering _ _ | .returned | .threw | .crashed => True

theorem PcOk.mono (hsub : outbox ⊆ outbox') {pc : Pc} (h : PcOk outbox pc) : PcOk outbox' pc := by
  cases pc with
  | redisCheck e | pgCheck e => exact EventOk.mono hsub h
  | handling e k p => exact ⟨h.1.mono hsub, h.2.mono hsub⟩
  | marking e k | backoff e k => exact EventOk.mono hsub h
  | _ => trivial

theorem failAttempt_ok (maxAttempts k : Nat) (he : EventOk outbox e) (error : String) :
    PcOk outbox (failAttempt maxAttempts e k error) := by
  unfold failAttempt
  split
  · trivial
  · exact he

theorem beginAttempt_ok (maxAttempts k : Nat) (group : String) (he : EventOk outbox e) :
    PcOk outbox (beginAttempt handlerOf maxAttempts group e k) := by
  unfold beginAttempt
  split
  · exact ⟨he, handler_sound group (e := { e with attempt := k }) he⟩
  · trivial

theorem resume_sound {p p' : Program} {a : Answer} (hp : Sound outbox p)
    (h : p.resume a = some p') : Sound outbox p' := by
  unfold Program.resume at h
  split at h <;> try cases h
  · exact hp _
  · exact hp _
  · exact hp _
  · split at h <;> cases h
    exact hp _

variable {db db' : Database} {events : List Envelope}

theorem emitEvents_subset (h : db.emitEvents events = .ok db') : db.outbox ⊆ db'.outbox := by
  obtain ⟨rows, hrows, -⟩ := emitEvents_appends h
  rw [hrows]
  exact subset_append_left _ _

theorem DbOk.emit (hdb : DbOk db) (h : db.emitEvents events = .ok db')
    (hok : ∀ row ∈ db'.outbox, row.payload ∈ events → EventOk db'.outbox row.payload)
    (hunique : ∀ orderId amount amount', Placed db'.outbox orderId amount →
      Placed db'.outbox orderId amount' → amount = amount') : DbOk db' where
  events := by
    intro row hrow
    obtain hold | hnew := (emitEvents_spec h).2.2 row hrow
    · exact (hdb.events row hold).mono (emitEvents_subset h)
    · exact hok row hrow hnew
  unique := hunique
  orders := by
    intro orderId row amount hget hamount
    rw [(emitEvents_spec h).2.1] at hget
    exact (hdb.orders orderId row amount hget hamount).mono (emitEvents_subset h)

theorem DbOk.emit_handler (hdb : DbOk db) (h : db.emitEvents events = .ok db')
    (hok : ∀ e ∈ events, e.type ≠ .orderPlaced ∧ EventOk db.outbox e) : DbOk db' := by
  have hback {orderId : String} {amount : Int} (hplaced : Placed db'.outbox orderId amount) :
      Placed db.outbox orderId amount := by
    obtain ⟨row, hrow, htype, hfacts⟩ := hplaced
    obtain hold | hnew := (emitEvents_spec h).2.2 row hrow
    · exact ⟨row, hold, htype, hfacts⟩
    · exact absurd htype (hok _ hnew).1
  exact hdb.emit h (fun row _ he => (hok _ he).2.mono (emitEvents_subset h))
    fun orderId amount amount' hp hp' => hdb.unique orderId amount amount' (hback hp) (hback hp')

theorem DbOk.project (hdb : DbOk db) {status : OrderStatus} {patch : Patch}
    (hpatch : ∀ amount, patch.amount = some amount → Placed db.outbox orderId amount) :
    DbOk (db.projectOrder orderId status type patch) := { hdb with
  orders := by
    intro orderId' row amount hget hamount
    rw [projectOrder, Table.get?_set] at hget
    split at hget
    · rename_i horder
      subst horder
      cases hget
      cases hold : db.orders.get? orderId' with
      | none =>
        rw [hold] at hamount
        exact hpatch amount hamount
      | some old =>
        rw [hold] at hamount
        have hcases : (patch.amount <|> old.columns.amount) = some amount := hamount
        cases hp : patch.amount with
        | none =>
          rw [hp] at hcases
          exact hdb.orders orderId' old amount hold hcases
        | some amount' =>
          rw [hp] at hcases
          cases hcases
          exact hpatch amount hp
    · exact hdb.orders orderId' row amount hget hamount }

structure Consistent (s : State) : Prop where
  db : DbOk s.db
  pcs : ∀ d dl, s.deliveries.get? d = some dl → PcOk s.db.outbox dl.pc

variable {s s' : State} {d : Nat} {dl : Delivery}

theorem Consistent.move (hs : Consistent s) (dl' : Delivery) (hdb : DbOk s'.db)
    (hsub : s.db.outbox ⊆ s'.db.outbox) (hdl : s'.deliveries = s.deliveries.set d dl')
    (hpc : PcOk s'.db.outbox dl'.pc) :
    Consistent s' where
  db := hdb
  pcs := by
    intro d' dl'' hget
    rw [hdl, Table.get?_set] at hget
    split at hget
    · cases hget
      exact hpc
    · exact (hs.pcs d' dl'' hget).mono hsub

theorem Consistent.setPc (hs : Consistent s) {pc : Pc} (hpc : PcOk s.db.outbox pc) :
    Consistent (s.setPc d dl pc) :=
  hs.move { dl with pc := pc } hs.db (Subset.refl _) rfl hpc

theorem Consistent.transact (hs : Consistent s) {db : Database} (hdb : DbOk db)
    (hsub : s.db.outbox ⊆ db.outbox) (outcome : Outcome) {ok : Pc} {fail : String → Pc}
    (hok : PcOk db.outbox ok) (hfail : ∀ error, PcOk s.db.outbox (fail error)) :
    Consistent (s.transact d dl db outcome ok fail) := by
  cases outcome with
  | committed => exact hs.move { dl with pc := ok } hdb hsub rfl hok
  | failed error => exact hs.setPc (hfail error)
  | unanswered error =>
    exact hs.move { dl with pc := fail error } hdb hsub rfl ((hfail error).mono hsub)

variable {s s' : State} {d maxAttempts : Nat} {a : Label}

theorem consistent_next {dl : Delivery} {pc : Pc} (hs : Consistent s)
    (hget : s.deliveries.get? d = some dl) (hdl : dl.pc = pc)
    (hread : ∀ e k orderId next, pc = .handling e k (.getOrder orderId next) →
      (∃ d' error, a = .readOrder d' error) →
        ((s.db.orders.get? orderId).bind fun row => row.columns.amount).isSome = true)
    (h : s.next handlerOf maxAttempts d dl a = some s') : Consistent s' := by
  have hpc := hs.pcs d _ hget
  rw [State.next.eq_def] at h
  rw [hdl] at h hpc
  split at h <;> try cases h
  · refine hs.setPc ?_
    split
    · trivial
    · exact hpc
  · refine hs.setPc ?_
    split
    · trivial
    split
    · trivial
    · exact beginAttempt_ok maxAttempts 1 dl.group hpc
  · obtain ⟨p, hp, rfl⟩ := map_eq_some_iff.mp h
    exact hs.setPc ⟨hpc.1, resume_sound hpc.2 hp⟩
  · rename_i e k orderId next d' error
    refine hs.setPc ?_
    cases error with
    | none =>
      obtain ⟨amount, hamount⟩ := isSome_iff_exists.mp (hread e k orderId next rfl ⟨d', none, rfl⟩)
      obtain ⟨row, hrow, hcolumn⟩ := bind_eq_some_iff.mp hamount
      have hplaced := hs.db.orders orderId row amount hrow hcolumn
      exact ⟨hpc.1, hpc.2 _ (Subset.refl _) _ amount hplaced hamount⟩
    | some error => exact failAttempt_ok maxAttempts k hpc.1 error
  · split at h <;> cases h
    · rename_i db hdb
      have hsub := emitEvents_subset hdb
      exact hs.transact (hs.db.emit_handler hdb hpc.2.1) hsub _
        ⟨hpc.1.mono hsub, hpc.2.2.mono hsub⟩ (failAttempt_ok maxAttempts _ hpc.1)
    · exact hs.setPc (failAttempt_ok maxAttempts _ hpc.1 _)
  · exact hs.transact (hs.db.project hpc.2.1) (Subset.refl _) _ ⟨hpc.1, hpc.2.2⟩
      (failAttempt_ok maxAttempts _ hpc.1)
  · rename_i error
    refine hs.setPc ?_
    cases error with
    | none => exact ⟨hpc.1, hpc.2⟩
    | some error => exact failAttempt_ok maxAttempts _ hpc.1 error
  · exact hs.setPc hpc.1
  · exact hs.setPc (failAttempt_ok maxAttempts _ hpc.1 _)
  · rename_i e k _ outcome
    have hmarked : DbOk (s.db.markProcessed dl.group e.id) :=
      ⟨hs.db.events, hs.db.unique, hs.db.orders⟩
    exact hs.transact hmarked (Subset.refl _) outcome trivial
      (failAttempt_ok maxAttempts k hpc)
  · exact hs.move { dl with pc := .returned } hs.db (Subset.refl _) rfl trivial
  · exact hs.setPc (beginAttempt_ok maxAttempts _ dl.group hpc)
  · split at h <;> cases h
    · exact hs.move { dl with pc := .returned } hs.db (Subset.refl _) rfl trivial
    · exact hs.setPc trivial

theorem consistent_consume (hs : Consistent s)
    (hevent : ∀ d process group topic e, a = .deliver d process group topic (.event e) →
      EventOk s.db.outbox e)
    (hok : Projected s (.consume a)) (h : step handlerOf maxAttempts s a = some s') :
    Consistent s' := by
  have hmoves {d : Nat} (hd : ∀ d' error, a = .readOrder d' error → d' = d)
      (h : ((s.deliveries.get? d).bind fun dl => s.next handlerOf maxAttempts d dl a) = some s') :
      Consistent s' := by
    obtain ⟨dl, hget, hnext⟩ := bind_eq_some_iff.mp h
    refine consistent_next hs hget rfl ?_ hnext
    rintro e k orderId next hdl ⟨d', error, rfl⟩
    cases hd d' error rfl
    have hreads := hok dl hget
    rw [hdl] at hreads
    exact hreads
  cases a with
  | deliver d process group topic value =>
    simp only [step] at h
    split at h <;> cases h
    refine hs.move _ hs.db (Subset.refl _) rfl ?_
    cases value with
    | empty | invalid error => trivial
    | event e => exact hevent d process group topic e rfl
  | evict group eventId =>
    cases h
    exact ⟨hs.db, hs.pcs⟩
  | crash process =>
    cases h
    refine ⟨hs.db, fun d dl hget => ?_⟩
    rw [Table.get?_mapValues] at hget
    obtain ⟨dl₀, hget₀, rfl⟩ := map_eq_some_iff.mp hget
    unfold Delivery.crash
    split
    · trivial
    · exact hs.pcs d dl₀ hget₀
  | readOrder d error =>
    refine hmoves (fun d' error' heq => ?_) h
    cases heq
    rfl
  | _ => exact hmoves nofun h

theorem consistent_place {eventId occurredAt orderId : String} {b : OrderBody} {db : Database}
    (hs : Consistent s) (hfresh : ¬ ∃ row ∈ s.db.outbox, row.payload.orderId = orderId)
    (h : s.db.emitEvents [orderPlaced eventId occurredAt orderId b] = .ok db) :
    Consistent { s with db := db } := by
  obtain ⟨-, -, hrows⟩ := emitEvents_spec h
  have hplaced {row : OutboxRow} (hrow : row ∈ db.outbox) :
      row ∈ s.db.outbox ∨ row.payload = orderPlaced eventId occurredAt orderId b :=
    (hrows row hrow).imp_right mem_singleton.mp
  -- the amount of the new order is that of its event, of another one that of an old row
  have hcases {orderId' : String} {amount : Int} (hp : Placed db.outbox orderId' amount) :
      (orderId' = orderId ∧ amount = b.amount.getD 0) ∨
        (orderId' ≠ orderId ∧ Placed s.db.outbox orderId' amount) := by
    obtain ⟨row, hrow, htype, rfl, hamount⟩ := hp
    obtain hold | hnew := hplaced hrow
    · exact .inr ⟨fun heq => hfresh ⟨row, hold, heq⟩, row, hold, htype, rfl, hamount⟩
    rw [hnew] at hamount ⊢
    cases hamount
    exact .inl ⟨rfl, rfl⟩
  refine ⟨hs.db.emit h (fun row hrow hnew => ?_) fun orderId' amount amount' hp hp' => ?_,
    fun d dl hget => (hs.pcs d dl hget).mono (emitEvents_subset h)⟩
  · have heq := mem_singleton.mp hnew
    exact fun _ => ⟨b.amount.getD 0, ⟨row, hrow, by rw [heq]; rfl, rfl, by rw [heq]; rfl⟩,
      by rw [heq]; rfl⟩
  obtain ⟨horder, rfl⟩ | ⟨hother, hold⟩ := hcases hp
  · obtain ⟨-, rfl⟩ | ⟨hother, -⟩ := hcases hp'
    · rfl
    · exact absurd horder hother
  obtain ⟨horder, -⟩ | ⟨-, hold'⟩ := hcases hp'
  · exact absurd horder hother
  · exact hs.db.unique orderId' amount amount' hold hold'

theorem consistent_step {a : Action} (hs : Consistent s) (hok : Projected s a)
    (h : systemStep maxAttempts s a = some s') : Consistent s' := by
  rw [systemStep.eq_def] at h
  split at h
  · split at h
    · cases h
    rename_i hfresh
    split at h <;> cases h
    rename_i db hdb
    exact consistent_place hs hfresh hdb
  · split at h <;> try cases h
    rename_i hreaches
    obtain ⟨-, row, hrow, -, rfl⟩ := of_decide_eq_true hreaches
    refine consistent_consume hs ?_ hok h
    rintro d process group topic e heq
    cases heq
    exact hs.db.events row hrow
  · rename_i a hnot
    refine consistent_consume hs ?_ hok h
    rintro d process group topic e rfl
    exact absurd rfl (hnot d process group topic e)

theorem consistent_initial : Consistent initial where
  db := by
    refine ⟨fun _ hrow => (not_mem_nil hrow).elim, fun orderId amount amount' hp => ?_, ?_⟩
    · obtain ⟨row, hrow, -⟩ := hp
      cases hrow
    · intro orderId row amount hget
      cases hget
  pcs := by
    intro d dl hget
    cases hget

end

/-- In every run of the system in which the saga reads an order only when its row has the
amount, the refund that is requested for an order has the amount that was authorized. -/
theorem refund_amount_authorized (maxAttempts : Nat) {as : List Action} {s : State}
    (hrun : run (systemStep maxAttempts) initial as = some s)
    (hok : RunMeets (systemStep maxAttempts) Projected initial as)
    {authorized refund : OutboxRow} (hmem : authorized ∈ s.db.outbox)
    (hmem' : refund ∈ s.db.outbox) (htype : authorized.payload.type = .paymentAuthorized)
    (htype' : refund.payload.type = .refundRequested)
    (horder : refund.payload.orderId = authorized.payload.orderId) :
    refund.payload.payload.amount = authorized.payload.payload.amount := by
  have hs : Consistent s :=
    run_invariant_of_meets (fun s a s' => consistent_step) consistent_initial hok hrun
  obtain ⟨amount, hplaced, hamount⟩ := hs.db.events authorized hmem (by rw [htype]; rfl)
  obtain ⟨amount', hplaced', hamount'⟩ := hs.db.events refund hmem' (by rw [htype']; rfl)
  rw [horder] at hplaced'
  rw [hamount, hamount', hs.db.unique _ amount' amount hplaced' hplaced]

/-! ## An order that is paid and rejected -/

def body : OrderBody := ⟨none, none, none, some 320⟩

def requested : Envelope :=
  makeEvent "e2" "t1" .paymentRequested "o1" { amount := some 320, customerId := some "guest" }

def authorized : Envelope :=
  makeEvent "e3" "t2" .paymentAuthorized "o1" { amount := some 320, txnId := some "x1" }

def rejected : Envelope :=
  makeEvent "e5" "t4" .restaurantRejected "o1" { reason := some "out_of_stock" }

def handle (d : Nat) (group : String) (topic : Topic) (e : Envelope) (rest : List Label) :
    List Action :=
  ([Label.deliver d d group topic (.event e), .redisExists d true, .select d true] ++ rest).map
    .consume

def untilRejected : List Action :=
  [.place "e1" "t0" "o1" body] ++
  handle 0 "order-orchestrator" .orderEvents (orderPlaced "e1" "t0" "o1" body)
    [.answer 0 (.text "e2"), .answer 0 (.text "t1"), .commit 0 .committed] ++
  handle 1 "payment" .paymentEvents requested
    [.answer 1 (.bool false), .answer 1 (.bool false), .answer 1 (.text "x1"),
      .answer 1 (.text "e3"), .answer 1 (.text "t2"), .commit 1 .committed] ++
  handle 2 "restaurant" .paymentEvents authorized
    [.answer 2 (.text "e4"), .answer 2 (.text "t3"), .commit 2 .committed, .answer 2 (.bool true),
      .answer 2 (.text "e5"), .answer 2 (.text "t4"), .commit 2 .committed]

def projected : List Action :=
  handle 3 "projection" .orderEvents (orderPlaced "e1" "t0" "o1" body) [.commit 3 .committed]

def refunded : List Action :=
  handle 4 "payment-saga" .restaurantEvents rejected
    [.readOrder 4 none, .answer 4 (.text "e6"), .answer 4 (.text "t5"), .commit 4 .committed]

theorem refund_amount_authorized_projected :
    ∃ s, run (systemStep 4) initial (untilRejected ++ projected ++ refunded) = some s ∧
      ∃ authorized ∈ s.db.outbox, ∃ refund ∈ s.db.outbox,
        authorized.payload.payload.amount = some 320 ∧
        refund.payload.payload.amount = authorized.payload.payload.amount := by
  refine exists_some_imp (A := fun s => ∃ authorized ∈ s.db.outbox, ∃ refund ∈ s.db.outbox,
    authorized.payload.type = .paymentAuthorized ∧ refund.payload.type = .refundRequested ∧
      refund.payload.orderId = authorized.payload.orderId ∧
        authorized.payload.payload.amount = some 320)
    (by decide +kernel) fun s hrun ⟨authorized, hmem, refund, hmem', htype, htype', horder,
      hamount⟩ => ?_
  have hsame := refund_amount_authorized 4 hrun (by decide +kernel) hmem hmem' htype htype' horder
  exact ⟨authorized, hmem, refund, hmem', hamount, hsame⟩

/-- The saga is faster than the projection and finds no row. -/
theorem saga_before_projection_refunds_nothing :
    (run (systemStep 4) initial (untilRejected ++ refunded ++ projected)).map
        (fun s => s.db.outbox.map fun row => (row.payload.type, row.payload.payload.amount)) =
      some [(.orderPlaced, some 320), (.paymentRequested, some 320),
        (.paymentAuthorized, some 320), (.restaurantNotified, none),
        (.restaurantRejected, none), (.refundRequested, some 0)] := by
  decide +kernel

end GoServices.FoodDelivery.Refunds
