/-
Riders and pick-ups.

The delivery service has two handlers.
-/
import GoServices.FoodEda.Lifecycle

namespace GoServices.FoodEda.Services

open List Bus

def riderConsumer : Nat := 18

def Assigned (log : List DomainEvent) (o : String) : Prop :=
  ∃ r ∈ log, r.type = .riderAssigned ∧ r.orderId = o

def SearchDone (s : State) (a : Label) : Prop :=
  ∀ p ∈ s.publishes a, p.1 = .orderPickedUp →
    ∃ e ∈ s.bus.log, (e.type = .restaurantAccepted ∧ e.orderId = p.2) ∧
      e.id ∈ processedBy s.bus.consumers riderConsumer
  deriving Decidable

inductive Search (log : List DomainEvent) (o : String) : Program → Prop
  | waiting : Search log o riderHandler
  | unavailable : Search log o .fail
  | found (h : Assigned log o) : Search log o .done

structure Riders (s : State) : Prop where
  searches : ∀ m p, ⟨riderConsumer, .deliver m p⟩ ∈ s.bus.drains →
    Search s.bus.log m.event.orderId p
  processed : ∀ x ∈ processedBy s.bus.consumers riderConsumer,
    ∃ e ∈ s.bus.log, e.id = x ∧ Assigned s.bus.log e.orderId
  pickUps : ∀ past e rest, s.bus.log = past ++ e :: rest → e.type = .orderPickedUp →
    Assigned past e.orderId

section
variable {s s' : State} {a : Label}

theorem riderConsumer_subscription :
    subscriptions[riderConsumer]? = some ⟨.restaurantAccepted, .delivery⟩ := rfl

variable {log : List DomainEvent} {o : String} {log' : List DomainEvent}

theorem Assigned.mono (h : Assigned log o) (hlog : log ⊆ log') :
    Assigned log' o := by
  obtain ⟨r, hr, hrider⟩ := h
  exact ⟨r, hlog hr, hrider⟩

variable {p : Program}

theorem Search.mono (h : Search log o p) (hlog : log ⊆ log') :
    Search log' o p := by
  cases h with
  | waiting => exact .waiting
  | unavailable => exact .unavailable
  | found h => exact .found (h.mono hlog)

theorem log_subset (h : Life s) (he : Effect s a s') : s.bus.log ⊆ s'.bus.log := by
  obtain hlog | ⟨e, hlog, -⟩ := log_step h he
  · rw [hlog]
    exact Subset.refl _
  · rw [hlog]
    exact subset_append_left _ _

/-! ## The search -/

theorem Search.publish {rest : Program} {e : DomainEvent} {payload : String → Payload}
    (h : Search log o p) (hq : .publish e.type payload rest ∈ p.heads) (horder : e.orderId = o) :
    Search (log ++ [e]) o rest := by
  cases h with
  | waiting =>
    simp only [riderHandler, Program.heads, Program.branches, cons_append, nil_append,
      mem_cons, not_mem_nil, or_false, Program.publish.injEq] at hq
    obtain ⟨-, -, rfl⟩ | ⟨htype, -, rfl⟩ := hq
    · exact .unavailable
    · exact .found ⟨e, mem_concat_self, htype, horder⟩
  | unavailable | found => cases mem_singleton.mp hq

theorem Search.of_heads {q : Program} (h : Search log o p) (hq : q ∈ p.heads) :
    (∃ type payload rest, q = .publish type payload rest) ∨ q = .fail ∨
      q = .done ∧ Assigned log o := by
  cases h with
  | waiting =>
    simp only [riderHandler, Program.heads, Program.branches, cons_append, nil_append,
      mem_cons, not_mem_nil, or_false] at hq
    obtain rfl | rfl := hq
    all_goals exact .inl ⟨_, _, _, rfl⟩
  | unavailable => exact .inr (.inl (mem_singleton.mp hq))
  | found h => exact .inr (.inr ⟨mem_singleton.mp hq, h⟩)

section
variable (h : Life s) (hr : Riders s) (he : Effect s a s')
include h hr he

theorem searches_step (m : Message) (p : Program)
    (hmem : ⟨riderConsumer, .deliver m p⟩ ∈ s'.bus.drains) :
    Search s'.bus.log m.event.orderId p := by
  have hold (hmem : ⟨riderConsumer, .deliver m p⟩ ∈ s.bus.drains) :
      Search s'.bus.log m.event.orderId p :=
    (hr.searches m p hmem).mono (log_subset h he)
  cases he with
  | place hpub htype horder hb =>
    cases hb
    exact hold hmem
  | push hb | fire hb =>
    cases hb
    have hbefore := deliver_mem_drain _ _ _ hmem
    exact hold hbefore
  | next hb =>
    cases hb with
    | finish hd hc hqueue => exact hold (mem_of_mem_eraseIdx hmem)
    | skip hd hc hqueue hdone => exact hold hmem
    | call hd hc hqueue hdone =>
      obtain hmem | heq := mem_or_eq_of_mem_set hmem
      · exact hold hmem
      cases heq
      rw [called_eq hd hc hqueue riderConsumer_subscription]
      exact .waiting
  | publish hpub hd hwoken hq horder hnew =>
    obtain hmem | heq := mem_or_eq_of_mem_set hmem
    · exact hold hmem
    · cases heq
      exact (hr.searches _ _ (mem_of_getElem? hd)).publish hq horder
  | project hd hq | pause hd hq =>
    -- The search neither projects nor waits again.
    obtain hmem | heq := mem_or_eq_of_mem_set hmem
    · exact hold hmem
    cases heq
    obtain ⟨_, _, _, heq⟩ | heq | ⟨heq, -⟩ := (hr.searches _ _ (mem_of_getElem? hd)).of_heads hq
    all_goals cases heq
  | succeed hd hq hb =>
    cases hb
    exact hold (mem_of_mem_set hmem nofun)
  | fail hd hq hb =>
    cases hb with
    | bury | retry => exact hold (mem_of_mem_set hmem nofun)

theorem assigned_step (x : String) (hx : x ∈ processedBy s'.bus.consumers riderConsumer) :
    ∃ e ∈ s'.bus.log, e.id = x ∧ Assigned s'.bus.log e.orderId := by
  have hsubset := log_subset h he
  have hold (hx : x ∈ processedBy s.bus.consumers riderConsumer) :
      ∃ e ∈ s'.bus.log, e.id = x ∧ Assigned s'.bus.log e.orderId := by
    obtain ⟨e, hmem, hid, hassigned⟩ := hr.processed x hx
    exact ⟨e, hsubset hmem, hid, hassigned.mono hsubset⟩
  have hsame {b : Bus.State Program} {l : Bus.Label Program} (hb : Bus.Effect topics s.bus l b)
      (hl : l.isSuccess = false) (hx : x ∈ processedBy b.consumers riderConsumer) :
      ∃ e ∈ s'.bus.log, e.id = x ∧ Assigned s'.bus.log e.orderId := by
    rw [processedBy_step hb hl] at hx
    exact hold hx
  cases he with
  | place hpub htype horder hb | push hb | fire hb | next hb => exact hsame hb rfl hx
  | publish | project | pause => exact hold hx
  | fail hd hq hb => exact hsame hb rfl hx
  | @succeed d i m p b hd hq hb =>
    cases hb with
    | succeed hd' hc =>
      rw [hd] at hd'
      cases hd'
      rw [processedBy, listAt_set hc] at hx
      split at hx
      · rename_i heq
        cases heq
        obtain hx | rfl := mem_concat_cases hx
        · refine hold ?_
          rw [processedBy, listAt_of hc]
          exact hx
        have hrunning := mem_of_getElem? hd
        obtain ⟨hmem, -⟩ := h.bus.held riderConsumer m (.running hrunning)
        obtain ⟨_, _, _, heq⟩ | heq | ⟨-, hassigned⟩ := (hr.searches m p hrunning).of_heads hq
        · cases heq
        · cases heq
        · exact ⟨m.event, hmem, rfl, hassigned⟩
      · exact hold hx

theorem pickUps_step (hok : SearchDone s a) (past : List DomainEvent) (e : DomainEvent)
    (rest : List DomainEvent) (hsplit : s'.bus.log = past ++ e :: rest)
    (htype : e.type = .orderPickedUp) : Assigned past e.orderId := by
  obtain hlog | ⟨e', hlog, hpub, -⟩ := log_step h he
  · rw [hlog] at hsplit
    exact hr.pickUps past e rest hsplit htype
  rw [hlog] at hsplit
  obtain rfl | ⟨rest', last, rfl⟩ := eq_nil_or_concat rest
  · -- The new event: its search is done, so the rider is in the log.
    obtain ⟨rfl, heq⟩ := append_inj' hsplit rfl
    cases heq
    obtain ⟨accepted, hmem, ⟨-, horder⟩, hprocessed⟩ := hok _ hpub htype
    obtain ⟨e₀, hmem₀, hid, hassigned⟩ := hr.processed _ hprocessed
    rw [h.bus.eq_of_id hmem₀ hmem hid, horder] at hassigned
    exact hassigned
  · rw [concat_eq_append, ← cons_append, ← append_assoc] at hsplit
    obtain ⟨hsplit, -⟩ := append_inj' hsplit rfl
    exact hr.pickUps past e rest' hsplit htype

end

theorem riders_step (h : Life s ∧ Riders s) (hok : SearchDone s a) (hstep : step s a = some s') :
    Life s' ∧ Riders s' := by
  have he := effect_of_step hstep
  exact ⟨life_step h.1 hstep, searches_step h.1 h.2 he, assigned_step h.1 h.2 he,
    pickUps_step h.1 h.2 he hok⟩

theorem riders_initial : Riders initial where
  searches m p hmem := by cases hmem
  processed x hx := by
    rw [initial, processedBy_initial] at hx
    cases hx
  pickUps past e rest hsplit := by
    cases (append_eq_nil_iff.mp hsplit.symm).2

end

/-- In every run in which the search for a rider has succeeded when the order is picked up, the
rider of an order that is picked up was assigned before. -/
theorem rider_assigned_before_pick_up {s : State} {as : List Label}
    (hrun : run step initial as = some s) (hok : RunMeets step SearchDone initial as)
    {past rest : List DomainEvent} {e : DomainEvent} (hsplit : s.bus.log = past ++ e :: rest)
    (htype : e.type = .orderPickedUp) :
    ∃ r ∈ past, r.type = .riderAssigned ∧ r.orderId = e.orderId := by
  have hs : Life s ∧ Riders s :=
    run_invariant_of_meets (I := fun s => Life s ∧ Riders s) (fun _ _ _ => riders_step)
      ⟨life_initial, riders_initial⟩ hok hrun
  exact hs.2.pickUps past e rest hsplit htype

/-! ## An order that is picked up without a rider -/

def pickedUpByRider : List Label :=
  schedule 200 initial (acceptedOrder ++
    [.resume 1 1 "e6" "" "rider-1", .resume 0 0 "e7" "" "", .resume 0 0 "e8" "" ""])

theorem rider_assigned_before_pick_up_found :
    ∃ s ∈ run step initial pickedUpByRider,
      ∃ e past, s.bus.log = past ++ [e] ∧ e.type = .orderPickedUp ∧
        ∃ r ∈ past, r.type = .riderAssigned ∧ r.orderId = e.orderId := by
  obtain ⟨s, hrun, hsplit, htype⟩ :
      ∃ s ∈ run step initial pickedUpByRider,
        s.bus.log = s.bus.log.dropLast ++ [⟨"e8", .orderPickedUp, "order-1", "", .empty⟩] ∧
          (⟨"e8", .orderPickedUp, "order-1", "", .empty⟩ : DomainEvent).type = .orderPickedUp := by
    decide +kernel
  have hok : RunMeets step SearchDone initial pickedUpByRider := by decide +kernel
  exact ⟨s, hrun, _, _, hsplit, htype, rider_assigned_before_pick_up hrun hok hsplit htype⟩

/-- The search fails once and is retried; the food is ready and picked up meanwhile. -/
theorem picked_up_without_rider :
    ∃ s ∈ run step initial (schedule 200 initial (acceptedOrder ++
        [.resume 1 0 "e6" "" "", .fire 0, .resume 0 0 "e7" "" "", .resume 1 0 "e8" "" ""])),
      s.bus.log.map (fun e => (e.type, e.orderId)) =
        [(.orderPlaced, "order-1"), (.paymentRequested, "order-1"), (.paymentAuthorized, "order-1"),
          (.restaurantNotified, "order-1"), (.restaurantAccepted, "order-1"),
          (.foodPreparing, "order-1"), (.riderUnavailable, "order-1"), (.foodReady, "order-1"),
          (.orderPickedUp, "order-1")] := by
  decide +kernel

end GoServices.FoodEda.Services
