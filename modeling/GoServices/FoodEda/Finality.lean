/-
When a terminal status stays.

The rider of an order is searched while the kitchen works, and the search may be retried for
longer than cooking and driving take.
-/
import GoServices.FoodEda.Lifecycle

namespace GoServices.FoodEda.Services

open List Bus

def RiderInTime (s : State) (a : Label) : Prop :=
  ∀ p ∈ s.publishes a, p.1 = .riderAssigned →
    ∀ e ∈ s.bus.log, e.type = .orderDelivered → e.orderId ≠ p.2
  deriving Decidable

def State.Ended (s : State) (o : String) : Prop :=
  ∃ e ∈ s.bus.log, e.orderId = o ∧ e.type.terminal = true

structure Final (s : State) : Prop where
  pending : ∀ o, s.Ended o → s.bus.weight (projections o) ≤ 1
  shown : ∀ o status, s.status o = some status → isTerminal status = true →
    s.Ended o ∧ s.bus.weight (projections o) = 0

section
variable {s s' : State} {a : Label} {o : String}

/-! ## Pending projections -/

theorem readers_le (type : Topic) :
    weigh (fun i => if groupOf i = some .readModel then 1 else 0)
      (subscribers topics type) ≤ 1 := by
  cases type <;> decide +kernel

theorem groupOf_eq {i : Nat} {sub : Subscription} (hsub : subscriptions[i]? = some sub) :
    groupOf i = some sub.group := by
  rw [groupOf, hsub]
  rfl

theorem projections_running (o : String) (i : Nat) (m : Message) (p : Program) :
    (projections o).running i m p =
      if m.event.orderId = o ∧ nextStatus m.event.type ≠ none then p.projects else 0 := rfl

theorem projections_running_le {i : Nat} {m : Message} {p q : Program}
    (h : q.projects ≤ p.projects) :
    (projections o).running i m q ≤ (projections o).running i m p := by
  rw [projections_running, projections_running]
  split
  · exact h
  · exact Nat.le_refl 0

theorem weigh_projections (e : DomainEvent) (o : String) :
    weigh (fun i => (projections o).call i e) (subscribers topics e.type) ≤
      if e.orderId = o ∧ nextStatus e.type ≠ none then 1 else 0 := by
  by_cases hcounts : e.orderId = o ∧ nextStatus e.type ≠ none
  · rw [if_pos hcounts]
    have heq : (fun i => (projections o).call i e) =
        fun i => if groupOf i = some .readModel then 1 else 0 := by
      funext i
      simp only [projections, Bus.Weights.even, hcounts.1, hcounts.2, ne_eq, not_false_eq_true,
        true_and]
    rw [heq]
    exact readers_le e.type
  · rw [if_neg hcounts]
    refine Nat.le_of_eq (weigh_eq_zero.mpr fun i _ => if_neg fun hand => ?_)
    exact hcounts ⟨hand.1, hand.2.1⟩

theorem projections_step (h : Life s) (he : Effect s a s') (o : String) :
    (s'.bus.log = s.bus.log ∧ s'.bus.weight (projections o) ≤ s.bus.weight (projections o)) ∨
      ∃ e, s'.bus.log = s.bus.log ++ [e] ∧ s'.orders = s.orders ∧
        (e.type.terminal = true → settled s.bus = true) ∧
        s'.bus.weight (projections o) ≤ s.bus.weight (projections o) +
          if e.orderId = o ∧ nextStatus e.type ≠ none then 1 else 0 := by
  have hset {d i : Nat} {m : Message} {p q : Program}
      (hd : s.bus.drains[d]? = some ⟨i, .deliver m p⟩) (hq : q.projects ≤ p.projects) :
      Bus.State.weight { s.bus with drains := s.bus.drains.set d ⟨i, .deliver m q⟩ }
        (projections o) ≤ s.bus.weight (projections o) := by
    have heq := weight_proceed (w := projections o) hd q
    have hle := projections_running_le (o := o) (i := i) (m := m) hq
    dsimp only
    omega
  cases he with
  | @place e b hpub htype horder hb =>
    cases hb
    refine .inr ⟨e, rfl, rfl, fun hterminal => ?_, ?_⟩
    · rw [htype] at hterminal
      cases hterminal
    · rw [weight_publish]
      exact Nat.add_le_add_left (weigh_projections e o) _
  | push hb =>
    exact .inl ⟨log_of_effect hb rfl, Nat.le_of_eq (even_push_effect hb)⟩
  | fire hb =>
    exact .inl ⟨log_of_effect hb rfl, Nat.le_of_eq (even_fire_effect hb)⟩
  | next hb =>
    refine .inl ⟨log_of_effect hb rfl, even_next_effect hb ?_⟩
    intro i c m queue hd hc hqueue
    obtain ⟨sub, hsub⟩ := h.subscription hc
    rw [called_eq hd hc hqueue hsub, handler_projects, groupOf_eq hsub]
    split
    · rename_i hcounts
      exact ite_le_ite fun hgroup => ⟨hcounts.1, hcounts.2, congrArg some hgroup⟩
    · exact Nat.zero_le _
  | @publish d i m p payload rest e hpub hd hwoken hq horder hnew =>
    obtain ⟨sub, hsub, hok⟩ := h.running hd
    obtain ⟨hqok, -, hprojects⟩ := heads_ok hok hq
    refine .inr ⟨e, rfl, rfl, fun hterminal => hwoken (hqok.1 hterminal), ?_⟩
    have hcalls := weight_publish topics (w := projections o)
      (s := { s.bus with drains := s.bus.drains.set d ⟨i, .deliver m rest⟩ }) e (s.bus.log ++ [e])
    refine Nat.le_trans (Nat.le_of_eq hcalls) ?_
    exact Nat.add_le_add (hset hd hprojects) (weigh_projections e o)
  | project hd hq =>
    obtain ⟨sub, hsub, hok⟩ := h.running hd
    obtain ⟨-, -, hprojects⟩ := heads_ok hok hq
    exact .inl ⟨rfl, hset hd (Nat.le_of_succ_le hprojects)⟩
  | pause hd hq =>
    obtain ⟨sub, hsub, hok⟩ := h.running hd
    exact .inl ⟨rfl, hset hd (heads_ok hok hq).2.2⟩
  | @succeed d i m p b hd hq hb =>
    have hle : b.weight (projections o) + (projections o).running i m p ≤
      s.bus.weight (projections o) + 0 := even_settle_effect hb hd
    exact .inl ⟨log_of_effect hb rfl, Nat.le_trans (Nat.le_add_right _ _) hle⟩
  | @fail d i m p b hd hq hb =>
    obtain ⟨sub, hsub, hok⟩ := h.running hd
    have hle : b.weight (projections o) + (projections o).running i m p ≤
      s.bus.weight (projections o) + (projections o).call i m.event := even_settle_effect hb hd
    have hzero : (projections o).call i m.event = 0 := by
      refine if_neg fun hand => (heads_ok hok hq).1 ?_
      exact Option.some.inj ((groupOf_eq hsub).symm.trans hand.2.2)
    rw [hzero] at hle
    exact .inl ⟨log_of_effect hb rfl, Nat.le_trans (Nat.le_add_right _ _) hle⟩

theorem settled_projections (h : Life s) (hsettled : settled s.bus = true) (o : String) :
    s.bus.weight (projections o) = 0 := by
  obtain ⟨hcalls, hdrains⟩ := Bool.and_eq_true_iff.mp hsettled
  -- A handler that waits is not one of the read model.
  have hwaiting {d : Bus.Drain Program} (hd : d ∈ s.bus.drains) :
      groupOf d.consumer ≠ some .readModel ∧ (projections o).drain d = 0 := by
    have hawaits := all_eq_true.mp hdrains d hd
    obtain ⟨i, pc⟩ := d
    cases pc with
    | loop => cases hawaits
    | deliver m p =>
      obtain ⟨sub, hsub, hok⟩ := h.programs i m p hd
      cases p with
      | wait rest =>
        have hgroup : sub.group ≠ .readModel := hok.1
        rw [groupOf_eq hsub]
        refine ⟨fun heq => hgroup (Option.some.inj heq), ?_⟩
        show (projections o).running i m (.wait rest) = 0
        rw [projections_running, projects_eq_zero hok hgroup, ite_self]
      | done | fail | publish _ _ _ | either _ _ | project _ => cases hawaits
  by_contra hne
  obtain ⟨call, hcall, i, hi, -⟩ | ⟨i, c, hc, m, hm, hpos⟩ | ⟨t, ht, hpos⟩ | ⟨d, hd, hpos⟩ :=
    exists_of_weight_pos (Nat.pos_of_ne_zero hne)
  · have hrest := all_eq_true.mp hcalls call hcall
    rw [List.isEmpty_iff.mp hrest] at hi
    cases hi
  · -- A queue that is not empty is being drained.
    obtain ⟨-, -, hgroup⟩ := indicator_pos hpos
    obtain ⟨d, hd, rfl⟩ := h.bus.drained hc (ne_nil_of_mem hm)
    exact (hwaiting hd).1 hgroup
  · obtain ⟨-, -, hgroup⟩ := indicator_pos hpos
    exact h.timers t ht hgroup
  · rw [(hwaiting hd).2] at hpos
    cases hpos

/-! ## The views -/

theorem status_upsert (orders : Table String OrderView) (orderId : String) (patch : Patch)
    (event : DomainEvent) (status : OrderStatus) (bus : Bus.State Program) (o : String) :
    State.status ⟨bus, upsert orders orderId patch event status⟩ o =
      if o = orderId then some status else State.status ⟨bus, orders⟩ o := by
  rw [State.status, upsert, Table.get?_set]
  split
  · rfl
  · rfl

theorem status_step (h : Life s) (he : Effect s a s') (o : String) :
    s'.status o = s.status o ∨ (s'.bus.weight (projections o) < s.bus.weight (projections o) ∧
        ∃ e ∈ s.bus.log, e.orderId = o ∧ s'.status o = nextStatus e.type) := by
  cases he with
  | @project d i m p rest hd hq =>
    cases hstatus : nextStatus m.event.type with
    | none =>
      refine .inl ?_
      rw [FoodEda.project, hstatus]
      rfl
    | some status =>
      rw [FoodEda.project, hstatus]
      dsimp only
      rw [status_upsert]
      by_cases ho : o = m.event.orderId
      · subst ho
        obtain ⟨sub, hsub, hok⟩ := h.running hd
        obtain ⟨hmem, -⟩ := h.bus.held i m (.running (mem_of_getElem? hd))
        have hcounts : m.event.orderId = m.event.orderId ∧ nextStatus m.event.type ≠ none := by
          refine ⟨rfl, ?_⟩
          rw [hstatus]
          exact Option.some_ne_none status
        have hprojects : rest.projects + 1 ≤ p.projects := (heads_ok hok hq).2.2
        have heq := weight_proceed (w := projections m.event.orderId) hd rest
        rw [projections_running, projections_running, if_pos hcounts, if_pos hcounts] at heq
        rw [if_pos rfl]
        refine .inr ⟨?_, m.event, hmem, rfl, hstatus.symm⟩
        omega
      · rw [if_neg ho]
        exact .inl rfl
  | place | push | fire | next | publish | pause | succeed | fail => exact .inl rfl

/-! ## Terminal statuses -/

theorem State.Ended.mono (h : Life s) (he : Effect s a s') (hended : s.Ended o) : s'.Ended o := by
  obtain ⟨e, hmem, hlast⟩ := hended
  obtain hlog | ⟨e', hlog, -⟩ := log_step h he
  · exact ⟨e, hlog ▸ hmem, hlast⟩
  refine ⟨e, ?_, hlast⟩
  rw [hlog]
  exact mem_append_left _ hmem

theorem nextStatus_of_ended {e : DomainEvent} (h : Life s) (h' : Life s') (he : Effect s a s')
    (hok : RiderInTime s a) (hlog : s'.bus.log = s.bus.log ++ [e]) (hended : s.Ended e.orderId) :
    nextStatus e.type = none := by
  obtain ⟨last, hmem, horder, hlast⟩ := hended
  have hcount (type : Topic) : countOf s'.bus.log e.orderId type =
      countOf s.bus.log e.orderId type +
        if e.type = type ∧ e.orderId = e.orderId then 1 else 0 := by
    rw [hlog, countOf_append]
  obtain hsame | ⟨e', hlog', hpub, hcancelled, -⟩ := log_step h he
  · rw [hlog, append_right_eq_self] at hsame
    cases hsame
  rw [hlog] at hlog'
  cases append_cancel_left hlog'
  refine (h.path e.orderId).after_terminal (h'.path e.orderId) (fun type => ?_) ?_ hlast
    (countP_pos_iff.mpr ⟨last, hmem, decide_eq_true ⟨rfl, horder⟩⟩)
    ⟨h.cancelled last hmem, hcancelled⟩ fun hrider => ?_
  · rw [hcount]
    exact Nat.le_add_right _ _
  · rw [hcount, if_pos ⟨rfl, rfl⟩]
    exact Nat.lt_succ_self _
  refine countP_eq_zero.mpr fun e' he' hdelivered => ?_
  obtain ⟨htype, heq⟩ := of_decide_eq_true hdelivered
  exact hok _ hpub hrider e' he' htype heq

theorem projections_of_ended (h : Life s) (h' : Life s') (he : Effect s a s')
    (hok : RiderInTime s a) (hended : s.Ended o) :
    s'.bus.weight (projections o) ≤ s.bus.weight (projections o) := by
  obtain ⟨-, hle⟩ | ⟨e, hlog, -, -, hle⟩ := projections_step h he o
  · exact hle
  rw [if_neg] at hle
  · exact hle
  · rintro ⟨rfl, hstatus⟩
    exact hstatus (nextStatus_of_ended h h' he hok hlog hended)

theorem pending_step (h : Life s) (h' : Life s') (hf : Final s) (he : Effect s a s')
    (hok : RiderInTime s a) (o : String) (hended : s'.Ended o) :
    s'.bus.weight (projections o) ≤ 1 := by
  by_cases hbefore : s.Ended o
  · exact Nat.le_trans (projections_of_ended h h' he hok hbefore) (hf.pending o hbefore)
  obtain ⟨last, hmem, horder, hlast⟩ := hended
  obtain ⟨hlog, -⟩ | ⟨e, hlog, -, hsettled, hle⟩ := projections_step h he o
  · rw [hlog] at hmem
    exact absurd ⟨last, hmem, horder, hlast⟩ hbefore
  rw [hlog] at hmem
  obtain hmem | hmem := mem_append.mp hmem
  · exact absurd ⟨last, hmem, horder, hlast⟩ hbefore
  -- The last event is published by a handler that was just woken.
  rw [mem_singleton.mp hmem] at hlast
  rw [settled_projections h (hsettled hlast) o, Nat.zero_add] at hle
  refine Nat.le_trans hle ?_
  split
  · exact Nat.le_refl 1
  · exact Nat.zero_le 1

theorem shown_step (h : Life s) (h' : Life s') (hf : Final s) (he : Effect s a s')
    (hok : RiderInTime s a) (o : String) (status : OrderStatus)
    (hstatus : s'.status o = some status) (hterminal : isTerminal status = true) :
    s'.Ended o ∧ s'.bus.weight (projections o) = 0 := by
  obtain hsame | ⟨hlt, e, hmem, horder, hnext⟩ := status_step h he o
  · rw [hsame] at hstatus
    obtain ⟨hended, hzero⟩ := hf.shown o status hstatus hterminal
    have hle := projections_of_ended h h' he hok hended
    exact ⟨hended.mono h he, Nat.le_zero.mp (hzero ▸ hle)⟩
  have hlast : e.type.terminal = true := by
    rw [Topic.terminal, ← hnext, hstatus]
    exact hterminal
  have hended : s.Ended o := ⟨e, hmem, horder, hlast⟩
  have hone := hf.pending o hended
  exact ⟨hended.mono h he, by omega⟩

theorem final_initial : Final initial where
  pending o hended := by
    obtain ⟨e, hmem, -⟩ := hended
    cases hmem
  shown o status hstatus := by cases hstatus

theorem final_step (h : Life s ∧ Final s) (hok : RiderInTime s a) (hstep : step s a = some s') :
    Life s' ∧ Final s' := by
  have he := effect_of_step hstep
  have h' := life_step h.1 hstep
  exact ⟨h', pending_step h.1 h' h.2 he hok, shown_step h.1 h' h.2 he hok⟩

theorem status_of_terminal {status : OrderStatus} (h : Life s) (hf : Final s)
    (he : Effect s a s') (hstatus : s.status o = some status)
    (hterminal : isTerminal status = true) : s'.status o = some status := by
  obtain hsame | ⟨hlt, -⟩ := status_step h he o
  · rw [hsame, hstatus]
  · rw [(hf.shown o status hstatus hterminal).2] at hlt
    cases hlt

end

/-- In every run in which no rider is assigned after the delivery, a terminal status that the read
model shows stays. -/
theorem terminal_status_stays {s s' : State} {as bs : List Label}
    (hrun : run step initial as = some s) (hok : RunMeets step RiderInTime initial as)
    (hrun' : run step s bs = some s') (hok' : RunMeets step RiderInTime s bs) {o : String}
    {status : OrderStatus} (hstatus : s.status o = some status)
    (hterminal : isTerminal status = true) : s'.status o = some status := by
  have hs : Life s ∧ Final s :=
    run_invariant_of_meets (I := fun s => Life s ∧ Final s) (fun _ _ _ => final_step)
      ⟨life_initial, final_initial⟩ hok hrun
  have hs' : (Life s' ∧ Final s') ∧ s'.status o = some status :=
    run_invariant_of_meets (I := fun s => (Life s ∧ Final s) ∧ s.status o = some status)
      (fun _ _ _ h hok hstep => ⟨final_step h.1 hok hstep,
        status_of_terminal h.1.1 h.1.2 (effect_of_step hstep) h.2 hterminal⟩)
      ⟨hs, hstatus⟩ hok' hrun'
  exact hs'.2

/-! ## An order that gets its rider after the delivery -/

def deliveredByRider : List Label :=
  schedule 200 initial
    (acceptedOrder ++ [.resume 1 1 "e6" "" "rider-1", .resume 0 0 "e7" "" "",
      .resume 0 0 "e8" "" "", .resume 0 0 "e9" "" ""])

theorem terminal_status_stays_second_order :
    ∃ s ∈ run step initial deliveredByRider, s.status "order-1" = some .delivered ∧
      ∃ s' ∈ run step s (schedule 50 s [.place "e10" "" "order-2" "customer-2" "restaurant-1" 300]),
        s'.status "order-2" = some .placed ∧ s'.status "order-1" = some .delivered := by
  refine exists_some_imp (A := fun s => s.status "order-1" = some .delivered ∧
    RunMeets step RiderInTime s (schedule 50 s [.place "e10" "" "order-2" "customer-2"
      "restaurant-1" 300]) ∧
        ∃ s' ∈ run step s (schedule 50 s [.place "e10" "" "order-2" "customer-2" "restaurant-1"
          300]), s'.status "order-2" = some .placed)
    (by decide +kernel) fun s hrun ⟨hdelivered, hok, s', hrun', hplaced⟩ => ?_
  have hbefore : RunMeets step RiderInTime initial deliveredByRider := by decide +kernel
  refine ⟨hdelivered, s', hrun', hplaced, ?_⟩
  exact terminal_status_stays hrun hbefore hrun' hok hdelivered rfl

def deliveredWithoutRider : List Label :=
  schedule 200 initial
    (acceptedOrder ++ [.resume 1 0 "e6" "" "", .fire 0, .resume 1 0 "e7" "" "", .fire 0,
      .resume 0 0 "e8" "" "", .resume 0 0 "e9" "" "", .resume 0 0 "e10" "" "", .fire 0,
      .resume 0 0 "e11" "" ""])

theorem delivered_order_gets_rider :
    ∃ s ∈ run step initial deliveredWithoutRider, s.status "order-1" = some .delivered ∧
      isTerminal .delivered = true ∧
      ∃ s' ∈ run step s (schedule 50 s [.resume 0 1 "e12" "" "rider-1"]),
        s'.status "order-1" = some .riderAssigned := by
  decide +kernel

end GoServices.FoodEda.Services
