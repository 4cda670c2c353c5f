/-
The life of an order.

An order is placed once, and every later event of it is published by a handler of an earlier one.
-/
import GoServices.FoodEda.Deliveries
import GoServices.FoodEda.Services

namespace GoServices.FoodEda

open List Option Bus

/-! ## Slots -/

inductive Slot
  | requested
  | paid
  | notified
  | answered
  | preparing
  | ready
  | assigned
  | pickedUp
  | delivered
  deriving DecidableEq

def Topic.slot : Topic → Option Slot
  | .paymentRequested => some .requested
  | .paymentAuthorized | .paymentFailed => some .paid
  | .restaurantNotified => some .notified
  | .restaurantAccepted | .restaurantRejected => some .answered
  | .foodPreparing => some .preparing
  | .foodReady => some .ready
  | .riderAssigned => some .assigned
  | .orderPickedUp => some .pickedUp
  | .orderDelivered => some .delivered
  | .orderPlaced | .riderUnavailable | .orderCancelled => none

def Slot.after : Slot → Topic
  | .requested => .orderPlaced
  | .paid => .paymentRequested
  | .notified => .paymentAuthorized
  | .answered => .restaurantNotified
  | .preparing => .restaurantAccepted
  | .ready => .foodPreparing
  | .assigned => .restaurantAccepted
  | .pickedUp => .foodReady
  | .delivered => .orderPickedUp

variable (sub : Subscription)

def Subscription.first : Option Slot :=
  match sub.group with
  | .orders => some .requested
  | .payments => some .paid
  | .restaurant => some .notified
  | .kitchen => some .preparing
  | .delivery => if sub.topic = .foodReady then some .pickedUp else some .assigned
  | .readModel | .notifications => none

def Program.next (retry : Option Slot) : Program → Option Slot
  | .done => none
  | .fail => retry
  | .publish type _ rest =>
    match type.slot with
    | some k => some k
    | none => rest.next retry
  | .wait rest => rest.next retry
  | .either left right =>
    match left.next retry with
    | some k => some k
    | none => right.next retry
  | .project rest => rest.next retry

def groupOf (i : Nat) : Option Group := (subscriptions[i]?).map (·.group)

def slotOf (i : Nat) : Option Slot := (subscriptions[i]?).bind (·.first)

def starts (type : Topic) (k : Slot) : Nat :=
  weigh (fun i => if slotOf i = some k then 1 else 0) (subscribers topics type)

theorem starts_le (type : Topic) (k : Slot) :
    starts type k ≤ if k.after = type then 1 else 0 := by
  cases type <;> cases k <;> decide +kernel

/-! ## Programs of the handlers -/

def Topic.terminal (type : Topic) : Bool :=
  match nextStatus type with
  | some status => isTerminal status
  | none => false

def Program.Ok (sub : Subscription) : Bool → Program → Prop
  | _, .done => True
  | _, .fail => sub.group ≠ .readModel
  | woken, .publish type _ rest =>
    (type.terminal = true → woken = true) ∧ type ≠ .orderPlaced ∧ type ≠ .orderCancelled ∧
      (∀ k, type.slot ≠ none → rest.next sub.first = some k →
        k.after = type ∧ starts type k = 0) ∧ rest.Ok sub false
  | _, .wait rest => sub.group ≠ .readModel ∧ rest.Ok sub true
  | woken, .either left right =>
    (right.next sub.first = none ∨ left.next sub.first = none ∨
      right.next sub.first = left.next sub.first) ∧ left.Ok sub woken ∧ right.Ok sub woken
  | _, .project rest => sub.group = .readModel ∧ rest.Ok sub false

def Program.projects : Program → Nat
  | .done | .fail => 0
  | .publish _ _ rest | .wait rest => rest.projects
  | .either left right => max left.projects right.projects
  | .project rest => rest.projects + 1

theorem handler_next (e : DomainEvent) :
    (handler sub e).next sub.first = sub.first := by
  obtain ⟨topic, group⟩ := sub
  cases group with
  | delivery =>
    by_cases htopic : topic = .foodReady
    · subst htopic
      rfl
    · simp only [handler, Subscription.first, if_neg htopic]
      rfl
  | orders | readModel | payments | restaurant | kitchen | notifications => rfl

theorem handler_projects (e : DomainEvent) :
    (handler sub e).projects = if sub.group = .readModel then 1 else 0 := by
  obtain ⟨topic, group⟩ := sub
  cases group with
  | delivery =>
    simp only [handler]
    split
    · rfl
    · rfl
  | orders | readModel | payments | restaurant | kitchen | notifications => rfl

theorem ok_last {sub : Subscription} {woken : Bool} {type : Topic} {payload : String → Payload}
    (hwoken : type.terminal = true → woken = true) (hplaced : type ≠ .orderPlaced)
    (hcancelled : type ≠ .orderCancelled) :
    (Program.publish type payload .done).Ok sub woken := by
  refine ⟨hwoken, hplaced, hcancelled, fun k _ hk => ?_, trivial⟩
  cases hk

theorem handler_ok (e : DomainEvent) : (handler sub e).Ok sub false := by
  obtain ⟨topic, group⟩ := sub
  cases group with
  | orders => exact ok_last (by decide) (by decide) (by decide)
  | readModel => exact ⟨rfl, trivial⟩
  | payments =>
    have hgroup : Group.payments ≠ .readModel := by decide
    refine ⟨hgroup, .inr (.inr rfl), hgroup, .inr (.inr rfl), ?_, ?_⟩
    all_goals exact ok_last (fun _ => rfl) (by decide) (by decide)
  | restaurant =>
    have hgroup : Group.restaurant ≠ .readModel := by decide
    refine ⟨by decide, by decide, by decide, fun k _ hk => ?_, hgroup, .inr (.inr rfl), ?_, ?_⟩
    · cases hk
      exact ⟨rfl, by decide +kernel⟩
    all_goals exact ok_last (fun _ => rfl) (by decide) (by decide)
  | kitchen =>
    have hgroup : Group.kitchen ≠ .readModel := by decide
    refine ⟨by decide, by decide, by decide, fun k _ hk => ?_, hgroup, ?_⟩
    · cases hk
      exact ⟨rfl, by decide +kernel⟩
    · exact ok_last (fun _ => rfl) (by decide) (by decide)
  | delivery =>
    have hgroup : Group.delivery ≠ .readModel := by decide
    by_cases htopic : topic = .foodReady
    · subst htopic
      refine ⟨hgroup, fun _ => rfl, by decide, by decide, fun k _ hk => ?_, hgroup, ?_⟩
      · cases hk
        exact ⟨rfl, by decide +kernel⟩
      · exact ok_last (fun _ => rfl) (by decide) (by decide)
    simp only [handler, if_neg htopic]
    refine ⟨hgroup, .inr (.inr ?_), ⟨fun _ => rfl, by decide, by decide,
      fun k hslot => absurd rfl hslot, hgroup⟩, ?_⟩
    · simp only [Subscription.first, if_neg htopic]
      rfl
    · exact ok_last (fun _ => rfl) (by decide) (by decide)
  | notifications => trivial

section
variable {sub : Subscription} {woken : Bool} {p q : Program}

theorem branches_ok (h : p.Ok sub woken) (hq : q ∈ p.branches) :
    q.Ok sub woken ∧ (∀ k, q.next sub.first = some k → p.next sub.first = some k) ∧
      q.projects ≤ p.projects := by
  induction p with
  | either left right ihl ihr =>
    obtain ⟨hagree, hleft, hright⟩ := h
    obtain hq | hq := mem_append.mp hq
    · obtain ⟨hok, hnext, hprojects⟩ := ihl hleft hq
      refine ⟨hok, fun k hk => ?_, Nat.le_trans hprojects (Nat.le_max_left _ _)⟩
      rw [Program.next, hnext k hk]
    obtain ⟨hok, hnext, hprojects⟩ := ihr hright hq
    refine ⟨hok, fun k hk => ?_, Nat.le_trans hprojects (Nat.le_max_right _ _)⟩
    have hr := hnext k hk
    rw [Program.next]
    obtain hnone | hnone | hsame := hagree
    · rw [hr] at hnone
      cases hnone
    · rw [hnone]
      exact hr
    · rw [← hsame, hr]
  | done | fail | publish _ _ _ _ | wait _ _ | project _ _ =>
    cases mem_singleton.mp hq
    exact ⟨h, fun _ hk => hk, Nat.le_refl _⟩

theorem heads_ok (h : p.Ok sub false) (hq : q ∈ p.heads) :
    q.Ok sub p.waits ∧ (∀ k, q.next sub.first = some k → p.next sub.first = some k) ∧
      q.projects ≤ p.projects := by
  cases p with
  | wait rest =>
    have hrest : rest.Ok sub true := h.2
    have hbranch := branches_ok hrest hq
    exact hbranch
  | done | fail | publish _ _ _ | either _ _ | project _ => exact branches_ok h hq

theorem projects_eq_zero (h : p.Ok sub woken) (hsub : sub.group ≠ .readModel) :
    p.projects = 0 := by
  induction p generalizing woken with
  | done | fail => rfl
  | publish type payload rest ih => exact ih h.2.2.2.2
  | wait rest ih => exact ih h.2
  | either left right ihl ihr =>
    rw [Program.projects, ihl h.2.1, ihr h.2.2]
    rfl
  | project rest ih => exact absurd h.1 hsub

end

/-! ## Counts -/

def countOf (log : List DomainEvent) (o : String) (type : Topic) : Nat :=
  log.countP fun e => e.type = type ∧ e.orderId = o

def filled (log : List DomainEvent) (o : String) (k : Slot) : Nat :=
  log.countP fun e => e.type.slot = some k ∧ e.orderId = o

def tokens (k : Slot) (o : String) : Bus.Weights Program :=
  .even (fun i e => if e.orderId = o ∧ slotOf i = some k then 1 else 0)
    fun i m p => if m.event.orderId = o ∧ p.next (slotOf i) = some k then 1 else 0

def projections (o : String) : Bus.Weights Program :=
  .even
    (fun i e =>
      if e.orderId = o ∧ nextStatus e.type ≠ none ∧ groupOf i = some .readModel then 1 else 0)
    fun _ m p => if m.event.orderId = o ∧ nextStatus m.event.type ≠ none then p.projects else 0

namespace Services

structure Life (s : State) : Prop where
  bus : Bus.Inv topics s.bus
  programs : ∀ i m p, ⟨i, .deliver m p⟩ ∈ s.bus.drains →
    ∃ sub, subscriptions[i]? = some sub ∧ p.Ok sub false
  timers : ∀ t ∈ s.bus.timers, groupOf t.consumer ≠ some .readModel
  placed : ∀ o, countOf s.bus.log o .orderPlaced ≤ 1
  cancelled : ∀ e ∈ s.bus.log, e.type ≠ .orderCancelled
  tokens : ∀ k o, filled s.bus.log o k + s.bus.weight (tokens k o) ≤ countOf s.bus.log o k.after

section
variable {s s' : State} {a : Label} (log : List DomainEvent)

theorem countOf_append (e : DomainEvent) (o : String) (type : Topic) :
    countOf (log ++ [e]) o type =
      countOf log o type + if e.type = type ∧ e.orderId = o then 1 else 0 := by
  simp only [countOf, countP_append, countP_cons, countP_nil, decide_eq_true_eq, Nat.zero_add]

theorem filled_append (e : DomainEvent) (o : String) (k : Slot) :
    filled (log ++ [e]) o k =
      filled log o k + if e.type.slot = some k ∧ e.orderId = o then 1 else 0 := by
  simp only [filled, countP_append, countP_cons, countP_nil, decide_eq_true_eq, Nat.zero_add]

theorem bus_inv (h : Bus.Inv topics s.bus) (hstep : step s a = some s') :
    Bus.Inv topics s'.bus := by
  have hon {t : State} {labels : List (Bus.Label Program)} (ht : Bus.Inv topics t.bus)
      (hon : t.onBus labels = some s') : Bus.Inv topics s'.bus := by
    obtain ⟨b, hb, rfl⟩ := map_eq_some_iff.mp hon
    exact run_invariant (fun _ _ _ => step_inv) ht hb
  cases a with
  | place id timestamp orderId customerId restaurantId amount =>
    simp only [step, ite_none_right_eq_some] at hstep
    exact hon h hstep.2
  | push k | next d => exact hon h hstep
  | resume d branch id timestamp random =>
    rw [step] at hstep
    split at hstep <;> try cases hstep
    split at hstep
    · cases hstep
    split at hstep <;> try cases hstep
    rename_i q _
    cases q with
    | project rest =>
      exact hon (t := { s with orders := FoodEda.project s.orders _ }) h hstep
    | either left right => cases hstep
    | done | fail | publish _ _ _ | wait _ => exact hon h hstep
  | fire t =>
    simp only [step, ite_none_right_eq_some] at hstep
    exact hon h hstep.2

theorem Life.running (h : Life s) {d i : Nat} {m : Message} {p : Program}
    (hd : s.bus.drains[d]? = some ⟨i, .deliver m p⟩) :
    ∃ sub, subscriptions[i]? = some sub ∧ p.Ok sub false :=
  h.programs i m p (mem_of_getElem? hd)

theorem Life.subscription (h : Life s) {i : Nat} {c : Bus.Consumer}
    (hc : s.bus.consumers[i]? = some c) : ∃ sub, subscriptions[i]? = some sub := by
  have hlt := h.bus.lt hc
  rw [topics, length_map] at hlt
  exact ⟨_, getElem?_eq_getElem hlt⟩

section
variable (h : Life s) (he : Effect s a s')
include h he

theorem programs_step (i : Nat) (m : Message) (p : Program)
    (hmem : ⟨i, .deliver m p⟩ ∈ s'.bus.drains) :
    ∃ sub, subscriptions[i]? = some sub ∧ p.Ok sub false := by
  -- A handler that goes on does so with a program of its own subscription.
  have hset {d i' : Nat} {m' : Message} {q q' : Program} (hd : s.bus.drains[d]? =
      some ⟨i', .deliver m' q⟩) (hmem : (⟨i, .deliver m p⟩ : Bus.Drain Program) ∈
        s.bus.drains.set d ⟨i', .deliver m' q'⟩) (hok : ∀ sub, q.Ok sub false → q'.Ok sub false) :
      ∃ sub, subscriptions[i]? = some sub ∧ p.Ok sub false := by
    obtain hmem | heq := mem_or_eq_of_mem_set hmem
    · exact h.programs i m p hmem
    cases heq
    obtain ⟨sub, hsub, hq⟩ := h.running hd
    exact ⟨sub, hsub, hok sub hq⟩
  cases he with
  | place hpub htype horder hb =>
    cases hb
    exact h.programs i m p hmem
  | push hb | fire hb =>
    cases hb
    have hold := deliver_mem_drain _ _ _ hmem
    exact h.programs i m p hold
  | next hb =>
    cases hb with
    | finish hd hc hqueue => exact h.programs i m p (mem_of_mem_eraseIdx hmem)
    | skip hd hc hqueue hdone => exact h.programs i m p hmem
    | call hd hc hqueue hdone =>
      obtain hmem | heq := mem_or_eq_of_mem_set hmem
      · exact h.programs i m p hmem
      cases heq
      obtain ⟨sub, hsub⟩ := h.subscription hc
      rw [called_eq hd hc hqueue hsub]
      exact ⟨sub, hsub, handler_ok sub m.event⟩
  | publish hpub hd hwoken hq horder hnew =>
    exact hset hd hmem fun sub hok => (heads_ok hok hq).1.2.2.2.2
  | project hd hq => exact hset hd hmem fun sub hok => (heads_ok hok hq).1.2
  | pause hd hq => exact hset hd hmem fun sub hok => (heads_ok hok hq).1
  | succeed hd hq hb =>
    cases hb
    exact h.programs i m p (mem_of_mem_set hmem nofun)
  | fail hd hq hb =>
    cases hb with
    | bury | retry => exact h.programs i m p (mem_of_mem_set hmem nofun)

theorem life_timers_step (t : Bus.Timer) (ht : t ∈ s'.bus.timers) :
    groupOf t.consumer ≠ some .readModel := by
  cases he with
  | place hpub htype horder hb =>
    cases hb
    exact h.timers t ht
  | push hb =>
    cases hb
    rw [drain_timers] at ht
    exact h.timers t ht
  | fire hb =>
    cases hb
    rw [drain_timers] at ht
    exact h.timers t (mem_of_mem_eraseIdx ht)
  | next hb => cases hb with
    | finish | skip | call => exact h.timers t ht
  | succeed hd hq hb =>
    cases hb
    exact h.timers t ht
  | fail hd hq hb =>
    cases hb with
    | bury => exact h.timers t ht
    | retry hd' hc hagain =>
      obtain ht | ht := mem_append.mp ht
      · exact h.timers t ht
      rw [hd] at hd'
      cases hd'
      obtain ⟨sub, hsub, hok⟩ := h.running hd
      rw [mem_singleton.mp ht, groupOf, hsub]
      exact fun hgroup => (heads_ok hok hq).1 (some.inj hgroup)
  | publish | project | pause => exact h.timers t ht

theorem log_step :
    s'.bus.log = s.bus.log ∨ ∃ e, s'.bus.log = s.bus.log ++ [e] ∧
      s.publishes a = some (e.type, e.orderId) ∧ e.type ≠ .orderCancelled ∧
      (e.type = .orderPlaced → ∀ e' ∈ s.bus.log, e'.orderId ≠ e.orderId) := by
  cases he with
  | @place e b hpub htype horder hb =>
    cases hb
    refine .inr ⟨e, rfl, hpub, ?_, fun _ => horder⟩
    rw [htype]
    decide
  | push hb | fire hb | next hb | succeed hd hq hb | fail hd hq hb =>
    exact .inl (log_of_effect hb rfl)
  | @publish d i m p payload rest e hpub hd hwoken hq horder hnew =>
    obtain ⟨sub, hsub, hok⟩ := h.running hd
    obtain ⟨-, hplaced, hcancelled, -⟩ := (heads_ok hok hq).1
    exact .inr ⟨e, rfl, hpub, hcancelled, fun htype => absurd htype hplaced⟩
  | project | pause => exact .inl rfl

theorem placed_step (o : String) : countOf s'.bus.log o .orderPlaced ≤ 1 := by
  have hold := h.placed o
  obtain hlog | ⟨e, hlog, -, -, hfresh⟩ := log_step h he
  · rw [hlog]
    exact hold
  rw [hlog, countOf_append]
  by_cases hnew : e.type = .orderPlaced ∧ e.orderId = o
  · have hzero : countOf s.bus.log o .orderPlaced = 0 := by
      refine countP_eq_zero.mpr fun e' he' hp => hfresh hnew.1 e' he' ?_
      rw [hnew.2]
      exact (of_decide_eq_true hp).2
    rw [if_pos hnew, hzero]
  · rw [if_neg hnew]
    exact hold

theorem cancelled_step (e : DomainEvent) (hmem : e ∈ s'.bus.log) : e.type ≠ .orderCancelled := by
  obtain hlog | ⟨e', hlog, -, hne, -⟩ := log_step h he
  · rw [hlog] at hmem
    exact h.cancelled e hmem
  rw [hlog] at hmem
  obtain hmem | rfl := mem_concat_cases hmem
  · exact h.cancelled e hmem
  · exact hne

end

/-! ## Tokens -/

theorem ite_le_ite {p q : Prop} [Decidable p] [Decidable q] (h : p → q) :
    (if p then 1 else 0) ≤ if q then 1 else 0 := by
  split
  · rename_i hp
    rw [if_pos (h hp)]
  · exact Nat.zero_le _

variable {sub : Subscription} {type : Topic}

theorem slotOf_eq {i : Nat} (hsub : subscriptions[i]? = some sub) :
    slotOf i = sub.first := by
  rw [slotOf, hsub]
  rfl

theorem tokens_running (k : Slot) (o : String) (i : Nat) (m : Message) (p : Program) :
    (tokens k o).running i m p =
      if m.event.orderId = o ∧ p.next (slotOf i) = some k then 1 else 0 := rfl

theorem weigh_tokens (e : DomainEvent) (k : Slot) (o : String) :
    weigh (fun i => (tokens k o).call i e) (subscribers topics e.type) =
      if e.orderId = o then starts e.type k else 0 := by
  by_cases ho : e.orderId = o
  · rw [if_pos ho, starts]
    congr 1
    funext i
    simp only [tokens, Bus.Weights.even, ho, true_and]
  · rw [if_neg ho]
    exact weigh_eq_zero.mpr fun i _ => if_neg fun hand => ho hand.1

theorem publish_tokens {woken : Bool} {payload : String → Payload} {rest p : Program}
    (hok : (Program.publish type payload rest).Ok sub woken)
    (hnext : ∀ k, (Program.publish type payload rest).next sub.first = some k →
      p.next sub.first = some k)
    (k : Slot) :
    (if type.slot = some k then 1 else 0) + starts type k +
        (if rest.next sub.first = some k then 1 else 0) ≤
      (if type = k.after then 1 else 0) + if p.next sub.first = some k then 1 else 0 := by
  obtain ⟨-, -, -, hrest, -⟩ := hok
  have hstarts := starts_le type k
  simp only [eq_comm (a := k.after)] at hstarts
  cases hslot : type.slot with
  | none =>
    have hsame : (Program.publish type payload rest).next sub.first = rest.next sub.first := by
      rw [Program.next, hslot]
    rw [hsame] at hnext
    have hle := ite_le_ite (hnext k)
    rw [if_neg nofun]
    omega
  | some k' =>
    have hpublish : (Program.publish type payload rest).next sub.first = some k' := by
      rw [Program.next, hslot]
    have hle : (if some k' = some k then 1 else 0) ≤
        if p.next sub.first = some k then 1 else 0 := by
      refine ite_le_ite fun heq => hnext k ?_
      rw [hpublish, heq]
    by_cases hk : rest.next sub.first = some k
    · obtain ⟨hafter, hzero⟩ := hrest k (by rw [hslot]; exact some_ne_none k') hk
      rw [if_pos hk, if_pos hafter.symm, hzero]
      omega
    · rw [if_neg hk]
      omega

theorem tokens_step (h : Life s) (he : Effect s a s') (k : Slot) (o : String) :
    filled s'.bus.log o k + s'.bus.weight (tokens k o) ≤ countOf s'.bus.log o k.after := by
  have hold := h.tokens k o
  have hsame {b : Bus.State Program} {l : Bus.Label Program}
      (hb : Bus.Effect topics s.bus l b) (hl : l.isPublish = false)
      (hweight : b.weight (tokens k o) ≤ s.bus.weight (tokens k o)) :
      filled b.log o k + b.weight (tokens k o) ≤ countOf b.log o k.after := by
    rw [log_of_effect hb hl]
    omega
  have hset {d i : Nat} {m : Message} {p q : Program}
      (hd : s.bus.drains[d]? = some ⟨i, .deliver m p⟩)
      (hnext : ∀ sub, p.Ok sub false → ∀ k, q.next sub.first = some k → p.next sub.first = some k) :
      filled s.bus.log o k + Bus.State.weight
        { s.bus with drains := s.bus.drains.set d ⟨i, .deliver m q⟩ } (tokens k o) ≤
        countOf s.bus.log o k.after := by
    obtain ⟨sub, hsub, hok⟩ := h.running hd
    have heq := weight_proceed (w := tokens k o) hd q
    have hle : (tokens k o).running i m q ≤ (tokens k o).running i m p := by
      refine ite_le_ite fun hand => ⟨hand.1, ?_⟩
      rw [slotOf_eq hsub] at hand ⊢
      exact hnext sub hok k hand.2
    dsimp only
    omega
  cases he with
  | @place e b hpub htype horder hb =>
    cases hb
    have hstarts := starts_le e.type k
    simp only [eq_comm (a := k.after)] at hstarts
    rw [weight_publish, weigh_tokens, filled_append, countOf_append]
    have hslot : ¬ (e.type.slot = some k ∧ e.orderId = o) := by
      rw [htype]
      exact fun hand => by cases hand.1
    rw [if_neg hslot]
    by_cases ho : e.orderId = o
    · simp only [ho, and_true, if_true]
      omega
    · simp only [ho, and_false, if_false]
      exact hold
  | push hb =>
    exact hsame hb rfl (Nat.le_of_eq (even_push_effect hb))
  | fire hb =>
    exact hsame hb rfl (Nat.le_of_eq (even_fire_effect hb))
  | next hb =>
    refine hsame hb rfl (even_next_effect hb ?_)
    intro i c m queue hd hc hqueue
    obtain ⟨sub, hsub⟩ := h.subscription hc
    refine ite_le_ite fun hand => ⟨hand.1, ?_⟩
    rw [called_eq hd hc hqueue hsub, slotOf_eq hsub, handler_next] at hand
    rw [slotOf_eq hsub]
    exact hand.2
  | @publish d i m p payload rest e hpub hd hwoken hq horder hnew =>
    obtain ⟨sub, hsub, hok⟩ := h.running hd
    obtain ⟨hqok, hqnext, -⟩ := heads_ok hok hq
    have hbound := publish_tokens hqok hqnext k
    have hproceed := weight_proceed (w := tokens k o) hd rest
    have hcalls := weight_publish topics (w := tokens k o)
      (s := { s.bus with drains := s.bus.drains.set d ⟨i, .deliver m rest⟩ }) e (s.bus.log ++ [e])
    refine Nat.le_trans (Nat.add_le_add_left (Nat.le_of_eq hcalls) _) ?_
    rw [weigh_tokens, filled_append, countOf_append]
    simp only [tokens_running, slotOf_eq hsub, ← horder] at hproceed
    by_cases ho : e.orderId = o
    · simp only [ho, and_true, true_and, if_true] at hproceed ⊢
      omega
    · simp only [ho, and_false, false_and, if_false] at hproceed ⊢
      omega
  | project hd hq | pause hd hq =>
    exact hset hd fun sub hok k hk => (heads_ok hok hq).2.1 k hk
  | @succeed d i m p b hd hq hb =>
    have hle : b.weight (tokens k o) + (tokens k o).running i m p ≤ s.bus.weight (tokens k o) + 0 :=
      even_settle_effect hb hd
    exact hsame hb rfl (Nat.le_trans (Nat.le_add_right _ _) hle)
  | @fail d i m p b hd hq hb =>
    obtain ⟨sub, hsub, hok⟩ := h.running hd
    have hle : b.weight (tokens k o) + (tokens k o).running i m p ≤
      s.bus.weight (tokens k o) + (tokens k o).call i m.event := even_settle_effect hb hd
    have hretry : (tokens k o).call i m.event ≤ (tokens k o).running i m p := by
      refine ite_le_ite fun hand => ⟨hand.1, ?_⟩
      rw [slotOf_eq hsub] at hand ⊢
      exact (heads_ok hok hq).2.1 k hand.2
    have hweight : b.weight (tokens k o) ≤ s.bus.weight (tokens k o) := by omega
    exact hsame hb rfl hweight

theorem life_step (h : Life s) (hstep : step s a = some s') : Life s' := by
  have he := effect_of_step hstep
  exact
    { bus := bus_inv h.bus hstep
      programs := programs_step h he
      timers := life_timers_step h he
      placed := placed_step h he
      cancelled := cancelled_step h he
      tokens := tokens_step h he }

theorem life_initial : Life initial where
  bus := inv_initial Program topics
  programs i m p hmem := by cases hmem
  timers t ht := by cases ht
  placed o := Nat.zero_le 1
  cancelled e he := by cases he
  tokens k o := by
    rw [initial, weight_initial]
    exact Nat.zero_le _

/-! ## The path of an order -/

structure Path (count : Topic → Nat) : Prop where
  placed : count .orderPlaced ≤ 1
  requested : count .paymentRequested ≤ count .orderPlaced
  paid : count .paymentAuthorized + count .paymentFailed ≤ count .paymentRequested
  notified : count .restaurantNotified ≤ count .paymentAuthorized
  answered : count .restaurantAccepted + count .restaurantRejected ≤ count .restaurantNotified
  preparing : count .foodPreparing ≤ count .restaurantAccepted
  ready : count .foodReady ≤ count .foodPreparing
  assigned : count .riderAssigned ≤ count .restaurantAccepted
  pickedUp : count .orderPickedUp ≤ count .foodReady
  delivered : count .orderDelivered ≤ count .orderPickedUp

theorem filled_one (o : String) {k : Slot}
    (h : ∀ t : Topic, t.slot = some k ↔ t = type) : filled log o k = countOf log o type := by
  simp only [filled, countOf, h]

theorem filled_two (o : String) {k : Slot} {type' : Topic}
    (h : ∀ t : Topic, t.slot = some k ↔ t = type ∨ t = type') (hne : type ≠ type') :
    filled log o k = countOf log o type + countOf log o type' := by
  induction log using List.reverseRecOn with
  | nil => rfl
  | append_singleton log e ih =>
    rw [filled_append, countOf_append, countOf_append, ih]
    grind

theorem Life.path (h : Life s) (o : String) : Path (countOf s.bus.log o) := by
  have hle (k : Slot) : filled s.bus.log o k ≤ countOf s.bus.log o k.after :=
    Nat.le_trans (Nat.le_add_right _ _) (h.tokens k o)
  have hone {k : Slot} {type : Topic} (hslot : ∀ t : Topic, t.slot = some k ↔ t = type) :
      countOf s.bus.log o type ≤ countOf s.bus.log o k.after :=
    filled_one s.bus.log o hslot ▸ hle k
  have htwo {k : Slot} {type type' : Topic}
      (hslot : ∀ t : Topic, t.slot = some k ↔ t = type ∨ t = type') (hne : type ≠ type') :
      countOf s.bus.log o type + countOf s.bus.log o type' ≤ countOf s.bus.log o k.after :=
    filled_two s.bus.log o hslot hne ▸ hle k
  exact
    { placed := h.placed o
      requested := hone (k := .requested) fun t => by cases t <;> decide
      paid := htwo (k := .paid) (fun t => by cases t <;> decide) (by decide)
      notified := hone (k := .notified) fun t => by cases t <;> decide
      answered := htwo (k := .answered) (fun t => by cases t <;> decide) (by decide)
      preparing := hone (k := .preparing) fun t => by cases t <;> decide
      ready := hone (k := .ready) fun t => by cases t <;> decide
      assigned := hone (k := .assigned) fun t => by cases t <;> decide
      pickedUp := hone (k := .pickedUp) fun t => by cases t <;> decide
      delivered := hone (k := .delivered) fun t => by cases t <;> decide }

theorem Path.after_terminal {count count' : Topic → Nat} {last : Topic} (hold : Path count)
    (hnew : Path count') (hmono : ∀ t, count t ≤ count' t) (htype : count type < count' type)
    (hlast : last.terminal = true) (hpos : 0 < count last)
    (hcancelled : last ≠ .orderCancelled ∧ type ≠ .orderCancelled)
    (hrider : type = .riderAssigned → count .orderDelivered = 0) : nextStatus type = none := by
  obtain ⟨h₁, h₂, h₃, h₄, h₅, h₆, h₇, h₈, h₉, h₁₀⟩ := hold
  obtain ⟨h₁', h₂', h₃', h₄', h₅', h₆', h₇', h₈', h₉', h₁₀'⟩ := hnew
  have hlast' := hmono last
  -- The events up to the last one are there, so their counts cannot grow; the others are rivals.
  cases last with
  | orderCancelled => exact absurd rfl hcancelled.1
  | orderDelivered =>
    cases type with
    | paymentRequested | restaurantNotified | riderUnavailable => rfl
    | orderCancelled => exact absurd rfl hcancelled.2
    | riderAssigned => exact absurd (hrider rfl) (Nat.ne_of_gt hpos)
    | orderPlaced | paymentAuthorized | paymentFailed | restaurantAccepted | restaurantRejected
    | foodPreparing | foodReady | orderPickedUp | orderDelivered =>
      omega
  | paymentFailed | restaurantRejected =>
    cases type with
    | paymentRequested | restaurantNotified | riderUnavailable => rfl
    | orderCancelled => exact absurd rfl hcancelled.2
    | orderPlaced | paymentAuthorized | paymentFailed | restaurantAccepted | restaurantRejected
    | foodPreparing | foodReady | riderAssigned | orderPickedUp | orderDelivered =>
      omega
  | orderPlaced | paymentRequested | paymentAuthorized | restaurantNotified | restaurantAccepted
  | foodPreparing | foodReady | riderAssigned | riderUnavailable | orderPickedUp => cases hlast

end

end Services
end GoServices.FoodEda
