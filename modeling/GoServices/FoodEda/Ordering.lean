/-
The order in which a consumer succeeds on the events of an order.

A failed event leaves the queue and comes back behind the events that were published in the
meantime, so the consumer may succeed on a later event first.
-/
import GoServices.FoodEda.Deliveries

namespace GoServices.FoodEda.Bus

open List State

section
variable {σ : Type}

def queueOf (consumers : List Consumer) (i : Nat) : List Message :=
  listAt Consumer.queue consumers i

def State.successes (s : State σ) (i : Nat) (o : String) : List DomainEvent :=
  (s.attempts.filter fun a => a.consumer = i ∧ a.ok = true ∧ a.event.orderId = o).map (·.event)

def State.Earlier (s : State σ) (e' e : DomainEvent) : Prop :=
  e'.orderId = e.orderId ∧ e' ∈ s.log.takeWhile (· ≠ e)
  deriving Decidable

def State.handling (s : State σ) (d : Nat) : Option (Nat × Message) :=
  match s.drains[d]? with
  | some ⟨i, .deliver m _⟩ => some (i, m)
  | _ => none

/-- A call of `publish` hands its event to a consumer only when no other call has still to hand
an event of the same order to it; and when a handler succeeds, no earlier event of the same order
waits for a retry at the consumer. -/
def InOrder (s : State σ) : Label σ → Prop
  | .push k => ∀ call ∈ s.calls[k]?, ∀ i ∈ call.rest.head?, ∀ other ∈ s.calls.eraseIdx k,
      other.event.orderId = call.event.orderId → i ∉ other.rest
  | .settle d true => ∀ p ∈ s.handling d,
      (∀ t ∈ s.timers, t.consumer = p.1 → ¬ s.Earlier t.message.event p.2.event) ∧
        ∀ m ∈ queueOf s.consumers p.1, 1 < m.attempt → ¬ s.Earlier m.event p.2.event
  | _ => True

instance (s : State σ) : ∀ a, Decidable (InOrder s a) := fun _ => by
  unfold InOrder
  split <;> infer_instance

def State.history (s : State σ) (topics : List Topic) (i : Nat) (o : String) : List DomainEvent :=
  s.log.filter fun e => topics[i]? = some e.type ∧ e.orderId = o

def State.fresh (s : State σ) (i : Nat) (o : String) : List DomainEvent :=
  ((queueOf s.consumers i).filter fun m => m.attempt = 1 ∧ m.event.orderId = o).map (·.event) ++
    (s.calls.filter fun call => i ∈ call.rest ∧ call.event.orderId = o).map (·.event)

structure Ordered (topics : List Topic) (s : State σ) : Prop where
  timers : ∀ t ∈ s.timers, 1 < t.message.attempt
  fresh : ∀ i o, s.fresh i o <:+ s.history topics i o
  successes : ∀ i o, ∃ past rest, s.history topics i o = past ++ rest ∧
    (s.successes i o).Sublist past ∧ ∀ e ∈ past, 0 < s.finished i e.id

variable {topics : List Topic} {s s' : State σ} {a : Label σ}

/-! ## Lists -/

variable {α : Type} {k : Nat} {l : List α} {x y : α} {p : α → Bool}

theorem filter_set_same {β : Type} {f : α → β} (h : l[k]? = some x) (hp : p y = p x)
    (hf : f y = f x) :
    ((l.set k y).filter p).map f = (l.filter p).map f := by
  induction l generalizing k with
  | nil => cases h
  | cons z l ih =>
    cases k with
    | zero =>
      cases h
      rw [set_cons_zero, filter_cons, filter_cons, hp]
      split
      · rw [map_cons, map_cons, hf]
      · rfl
    | succ k =>
      rw [set_cons_succ, filter_cons, filter_cons]
      split
      · rw [map_cons, map_cons, ih h]
      · exact ih h

theorem filter_set_only (h : l[k]? = some x) (hx : p x = true) (hy : p y = false)
    (hother : ∀ z ∈ l.eraseIdx k, p z = false) :
    l.filter p = [x] ∧ (l.set k y).filter p = [] := by
  induction l generalizing k with
  | nil => cases h
  | cons z l ih =>
    cases k with
    | zero =>
      cases h
      have hnil : l.filter p = [] :=
        filter_eq_nil_iff.mpr fun w hw => by rw [hother w hw]; exact Bool.false_ne_true
      rw [set_cons_zero, filter_cons_of_pos hx, hnil,
        filter_cons_of_neg (by rw [hy]; exact Bool.false_ne_true), hnil]
      exact ⟨rfl, rfl⟩
    | succ k =>
      have hz : ¬ p z = true := by
        rw [hother z mem_cons_self]
        exact Bool.false_ne_true
      rw [set_cons_succ, filter_cons_of_neg hz, filter_cons_of_neg hz]
      exact ih h fun w hw => hother w (mem_cons_of_mem _ hw)

theorem mem_suffix_of_later {front back : List α} (hsuffix : l <:+ front ++ y :: back)
    (hnodup : (front ++ y :: back).Nodup) (hx : x ∈ l) (hfront : x ∈ front) : y ∈ l := by
  obtain ⟨t, ht⟩ := hsuffix
  obtain ⟨mid, rfl, hmid⟩ | ⟨mid, rfl, hmid⟩ := append_eq_append_iff.mp ht
  · rw [hmid]
    exact mem_append_right _ mem_cons_self
  have hback : x ∈ y :: back := by
    rw [hmid]
    exact mem_append_right _ hx
  exact absurd rfl ((nodup_append.mp hnodup).2.2 x hfront x hback)

theorem mem_takeWhile_of_filter [DecidableEq α] {front back : List α} (hl : l.Nodup)
    (h : l.filter p = front ++ y :: back) (hx : x ∈ front) :
    x ∈ l.takeWhile (· ≠ y) := by
  obtain ⟨l₁, l₂, rfl, rfl, hrest⟩ := filter_eq_append_iff.mp h
  obtain ⟨m₁, m₂, rfl, -, -, -⟩ := filter_eq_cons_iff.mp hrest
  have hne : ∀ z ∈ l₁ ++ m₁, z ≠ y := by
    rw [← append_assoc] at hl
    intro z hz
    exact (nodup_append.mp hl).2.2 z hz y mem_cons_self
  rw [← append_assoc, takeWhile_append_of_pos fun z hz => decide_eq_true (hne z hz)]
  exact mem_append_left _ (mem_append_left _ (mem_of_mem_filter hx))

/-! ## Fresh events -/

variable {i : Nat} {c : Consumer} {m : Message}

theorem queueOf_step_drain {j : Nat} {t : State σ} (hc : t.consumers[i]? = some c) :
    queueOf (t.drain i (c.push m)).consumers j =
      if j = i then c.queue ++ [m] else queueOf t.consumers j := by
  rw [drain_consumers, queueOf, listAt_set hc]
  rfl

/-- The parts of `fresh`. -/
def freshQueued (queue : List Message) (o : String) : List DomainEvent :=
  (queue.filter fun m => m.attempt = 1 ∧ m.event.orderId = o).map (·.event)

def freshCalls (calls : List Call) (i : Nat) (o : String) : List DomainEvent :=
  (calls.filter fun call => i ∈ call.rest ∧ call.event.orderId = o).map (·.event)

theorem fresh_eq (s : State σ) (i : Nat) (o : String) :
    s.fresh i o = freshQueued (queueOf s.consumers i) o ++ freshCalls s.calls i o := rfl

theorem freshQueued_append (queue : List Message) (m : Message) (o : String) :
    freshQueued (queue ++ [m]) o =
      freshQueued queue o ++ if m.attempt = 1 ∧ m.event.orderId = o then [m.event] else [] := by
  rw [freshQueued, filter_append, map_append]
  congr 1
  by_cases hm : m.attempt = 1 ∧ m.event.orderId = o
  · simp [hm]
  · simp [hm]

theorem freshQueued_tail (m : Message) (queue : List Message) (o : String) :
    freshQueued queue o <:+ freshQueued (m :: queue) o := by
  rw [freshQueued, freshQueued, filter_cons]
  split
  · exact suffix_cons _ _
  · exact suffix_rfl

variable {e : DomainEvent}

section
variable (h : Inv topics s) {rest : List Nat} (hcall : s.calls[k]? = some ⟨e, i :: rest⟩)
include h hcall

theorem Inv.call_once : i ∉ rest := by
  intro hi
  have hle := published_le_one topics h.ids i e.id
  have honce := h.once i e.id
  have hrest := le_weigh (f := fun j => (places σ i e.id).call j e) hi
  have hcalls := le_weigh (f := fun call : Call =>
    weigh (fun j => (places σ i e.id).call j call.event) call.rest) (mem_of_getElem? hcall)
  rw [weigh_cons] at hcalls
  simp only [places_call, and_self, if_true] at hrest hcalls
  rw [weight] at honce
  simp only [places_call] at honce
  omega

theorem fresh_push (hc : s.consumers[i]? = some c) (hok : InOrder s (.push k)) (j : Nat)
    (o : String) :
    (drain { s with calls := s.calls.set k ⟨e, rest⟩ } i (c.push ⟨e, 1⟩)).fresh j o =
      s.fresh j o := by
  rw [fresh_eq, fresh_eq, drain_calls,
    queueOf_step_drain (t := { s with calls := s.calls.set k ⟨e, rest⟩ }) hc]
  by_cases hmoved : j = i ∧ e.orderId = o
  · obtain ⟨rfl, rfl⟩ := hmoved
    have hother := hok _ hcall j rfl
    have hcalls : freshCalls s.calls j e.orderId = [e] ∧
        freshCalls (s.calls.set k ⟨e, rest⟩) j e.orderId = [] := by
      obtain ⟨hbefore, hafter⟩ := filter_set_only (y := ⟨e, rest⟩)
        (p := fun call : Call => decide (j ∈ call.rest ∧ call.event.orderId = e.orderId)) hcall
        (decide_eq_true ⟨mem_cons_self, rfl⟩)
        (decide_eq_false fun hand => h.call_once hcall hand.1)
        fun call hmem => decide_eq_false fun hand => hother call hmem hand.2 hand.1
      rw [freshCalls, freshCalls, hbefore, hafter]
      exact ⟨rfl, rfl⟩
    rw [if_pos rfl, freshQueued_append, if_pos ⟨rfl, rfl⟩, hcalls.1, hcalls.2, queueOf,
      listAt_of hc]
    exact append_nil _
  have hqueue : freshQueued (if j = i then c.queue ++ [⟨e, 1⟩] else queueOf s.consumers j) o =
      freshQueued (queueOf s.consumers j) o := by
    by_cases hji : j = i
    · subst hji
      rw [if_pos rfl, freshQueued_append, if_neg fun hand => hmoved ⟨rfl, hand.2⟩,
        append_nil, queueOf, listAt_of hc]
    · rw [if_neg hji]
  have hcalls : freshCalls (s.calls.set k ⟨e, rest⟩) j o = freshCalls s.calls j o := by
    refine filter_set_same hcall ?_ rfl
    by_cases hji : j = i
    · have ho : ¬ e.orderId = o := fun ho => hmoved ⟨hji, ho⟩
      simp [ho]
    · simp [hji]
  exact congrArg₂ _ hqueue hcalls

end

theorem fresh_fire {t : Nat} (hc : s.consumers[i]? = some c) (hm : 1 < m.attempt) (j : Nat)
    (o : String) :
    (drain { s with timers := s.timers.eraseIdx t } i (c.push m)).fresh j o =
      s.fresh j o := by
  rw [fresh_eq, fresh_eq, drain_calls,
    queueOf_step_drain (t := { s with timers := s.timers.eraseIdx t }) hc]
  by_cases hji : j = i
  · subst hji
    rw [if_pos rfl, freshQueued_append, if_neg fun hand => absurd hand.1 (Nat.ne_of_gt hm),
      append_nil, queueOf, listAt_of hc]
  · rw [if_neg hji]

theorem fresh_queue {j : Nat} {queue : List Message} {drains : List (Drain σ)}
    (hc : s.consumers[i]? = some c) (hqueue : c.queue = m :: queue) (o : String) :
    fresh { s with
      consumers := s.consumers.set i { c with queue := queue }, drains := drains } j o <:+
      s.fresh j o := by
  rw [fresh_eq, fresh_eq, queueOf, listAt_set hc]
  by_cases hji : j = i
  · subst hji
    rw [if_pos rfl, queueOf, listAt_of hc, hqueue]
    obtain ⟨front, hfront⟩ := freshQueued_tail m queue o
    refine ⟨front, ?_⟩
    rw [← hfront, append_assoc]
  · rw [if_neg hji]
    exact suffix_rfl

theorem fresh_step (h : Inv topics s) (hs : Ordered topics s) (hok : InOrder s a)
    (he : Effect topics s a s') (j : Nat) (o : String) :
    s'.fresh j o <:+ s'.history topics j o := by
  have hold := hs.fresh j o
  cases he with
  | @publish e hnew =>
    obtain ⟨front, hfront⟩ := hold
    have hadded : ([e].filter fun e => topics[j]? = some e.type ∧ e.orderId = o) =
        freshCalls [⟨e, subscribers topics e.type⟩] j o := by
      rw [freshCalls, filter_singleton, filter_singleton]
      simp only [mem_subscribers]
      cases decide (topics[j]? = some e.type ∧ e.orderId = o) with
      | true | false => rfl
    refine ⟨front, ?_⟩
    rw [history, filter_append, hadded, fresh_eq, freshCalls, filter_append,
      map_append, ← append_assoc, ← append_assoc]
    congr 1
    rw [append_assoc]
    exact hfront
  | push hcall hc =>
    rw [fresh_push h hcall hc hok, history, drain_log]
    exact hold
  | fire ht hc =>
    rw [fresh_fire hc (hs.timers _ (mem_of_getElem? ht)), history, drain_log]
    exact hold
  | skip hd hc hqueue hdone | call hd hc hqueue hdone => exact (fresh_queue hc hqueue o).trans hold
  | finish hd hc hqueue | succeed hd hc =>
    rw [fresh_eq, queueOf, listAt_same hc (by rfl)]
    exact hold
  | proceed | bury | retry => exact hold

theorem timers_step (h : Inv topics s) (hs : Ordered topics s) (he : Effect topics s a s')
    (t : Timer) (ht : t ∈ s'.timers) : 1 < t.message.attempt := by
  cases he with
  | push hcall hc =>
    rw [drain_timers] at ht
    exact hs.timers t ht
  | fire ht' hc =>
    rw [drain_timers] at ht
    exact hs.timers t (mem_of_mem_eraseIdx ht)
  | @retry d h' i c m hd hc hagain =>
    obtain ht | ht := mem_append.mp ht
    · exact hs.timers t ht
    obtain ⟨-, hpos, -⟩ := h.held i m (.running (mem_of_getElem? hd))
    rw [mem_singleton.mp ht]
    exact Nat.succ_lt_succ hpos
  | publish | finish | skip | call | proceed | succeed | bury => exact hs.timers t ht

/-! ## Successes -/

theorem finished_mono (he : Effect topics s a s') (j : Nat) (x : String) :
    s.finished j x ≤ s'.finished j x := by
  have hsame := processedBy_step he
  cases he with
  | @succeed d h i c m hd hc =>
    refine Nat.add_le_add_right (Sublist.count_le x ?_) _
    rw [processedBy, processedBy, listAt_set hc]
    split
    · rename_i hji
      rw [hji, listAt_of hc]
      exact sublist_append_left _ _
    · exact Sublist.refl _
  | bury hd hc hlast =>
    refine Nat.add_le_add_left (Sublist.countP_le ?_) _
    exact sublist_append_left _ _
  | publish | push | finish | skip | call | proceed | retry | fire =>
    simp [finished, hsame rfl]

theorem successes_append {ok : Bool} (hattempts : s'.attempts = s.attempts ++ [⟨i, e, ok⟩])
    (j : Nat) (o : String) :
    s'.successes j o =
      s.successes j o ++ if i = j ∧ ok = true ∧ e.orderId = o then [e] else [] := by
  rw [successes, hattempts, filter_append, map_append]
  congr 1
  by_cases hmatch : i = j ∧ ok = true ∧ e.orderId = o
  · simp [hmatch]
  · simp [hmatch]

theorem Inv.log_nodup (h : Inv topics s) : s.log.Nodup := h.ids.of_map

variable {d : Nat}

theorem Inv.running_topic (h : Inv topics s) {h' : σ}
    (hd : s.drains[d]? = some ⟨i, .deliver m h'⟩) :
    m.event ∈ s.log ∧ topics[i]? = some m.event.type := by
  obtain ⟨hmem, -⟩ := h.held i m (.running (mem_of_getElem? hd))
  have hpublished : 0 < s.published topics i m.event.id := by
    rw [(h.running_once hd).2.2]
    exact Nat.one_pos
  obtain ⟨e, he, hmatch⟩ := countP_pos_iff.mp hpublished
  obtain ⟨hid, htopic⟩ := of_decide_eq_true hmatch
  rw [h.eq_of_id he hmem hid] at htopic
  exact ⟨hmem, htopic⟩

theorem holds_of_fresh {o : String} (he : e ∈ s.fresh i o) :
    (s.released d i).Holds i ⟨e, 1⟩ := by
  obtain he | he := mem_append.mp he
  · obtain ⟨⟨e', k⟩, hm, rfl⟩ := mem_map.mp he
    obtain ⟨hm, hp⟩ := mem_filter.mp hm
    obtain ⟨rfl, -⟩ := of_decide_eq_true hp
    rw [queueOf, listAt] at hm
    split at hm <;> try cases hm
    rename_i c hc
    exact .queued hc hm
  · obtain ⟨call, hcall, rfl⟩ := mem_map.mp he
    obtain ⟨hcall, hp⟩ := mem_filter.mp hcall
    exact .call hcall (of_decide_eq_true hp).1

theorem earlier_finished (h : Inv topics s) (hs : Ordered topics s) {h' : σ}
    (hd : s.drains[d]? = some ⟨i, .deliver m h'⟩) (hok : InOrder s (.settle d true))
    {front back : List DomainEvent}
    (hsplit : s.history topics i m.event.orderId = front ++ m.event :: back) (he : e ∈ front) :
    0 < s.finished i e.id := by
  have hnodup : (front ++ m.event :: back).Nodup := by
    rw [← hsplit]
    exact h.log_nodup.filter _
  have hmem : e ∈ s.history topics i m.event.orderId := by
    rw [hsplit]
    exact mem_append_left _ he
  obtain ⟨hlog, hp⟩ := mem_filter.mp hmem
  obtain ⟨htopic, ho⟩ := of_decide_eq_true hp
  have hearlier : s.Earlier e m.event := ⟨ho, mem_takeWhile_of_filter h.log_nodup hsplit he⟩
  have hfresh : e ∉ s.fresh i m.event.orderId := by
    intro hin
    have hlater := mem_suffix_of_later (hsplit ▸ hs.fresh i m.event.orderId) hnodup hin he
    exact h.released_ne hd (holds_of_fresh hlater) ⟨rfl, rfl⟩
  have hhandling : (i, m) ∈ s.handling d := by
    rw [handling, hd]
    rfl
  obtain ⟨htimers, hqueue⟩ := hok (i, m) hhandling
  by_contra hzero
  have hpublished : 0 < s.published topics i e.id :=
    countP_pos_iff.mpr ⟨e, hlog, decide_eq_true ⟨rfl, htopic⟩⟩
  have honce := h.once i e.id
  obtain ⟨m', hm', hid⟩ := exists_holds (s := s) (i := i) (x := e.id) (by omega)
  obtain ⟨hlog', hattempt, -⟩ := h.held i m' hm'
  cases h.eq_of_id hlog' hlog hid
  cases hm' with
  | @call call hcall hi =>
    refine hfresh (mem_append_right _ (mem_map_of_mem (mem_filter.mpr ⟨hcall, ?_⟩)))
    exact decide_eq_true ⟨hi, ho⟩
  | queued hc hm =>
    have hin : m' ∈ queueOf s.consumers i := by
      rw [queueOf, listAt_of hc]
      exact hm
    obtain hone | hmore := Nat.eq_or_lt_of_le hattempt
    · refine hfresh (mem_append_left _ (mem_map_of_mem (mem_filter.mpr ⟨hin, ?_⟩)))
      exact decide_eq_true ⟨hone.symm, ho⟩
    · exact hqueue m' hin hmore hearlier
  | timer ht => exact htimers _ ht rfl hearlier
  | running hd' =>
    obtain ⟨d', hd'⟩ := mem_iff_getElem?.mp hd'
    cases h.one_handler hd hd'
    rw [hd] at hd'
    cases hd'
    exact (nodup_append.mp hnodup).2.2 _ he _ mem_cons_self rfl

theorem successes_step (h : Inv topics s) (hs : Ordered topics s) (hok : InOrder s a)
    (he : Effect topics s a s') (j : Nat) (o : String) :
    ∃ past rest, s'.history topics j o = past ++ rest ∧ (s'.successes j o).Sublist past ∧
      ∀ e ∈ past, 0 < s'.finished j e.id := by
  obtain ⟨past, rest, hsplit, hsublist, hpast⟩ := hs.successes j o
  have hfinished : ∀ e ∈ past, 0 < s'.finished j e.id := fun e hmem =>
    Nat.lt_of_lt_of_le (hpast e hmem) (finished_mono he j e.id)
  cases he with
  | @publish e hnew =>
    refine ⟨past, rest ++ [e].filter fun e => topics[j]? = some e.type ∧ e.orderId = o, ?_,
      hsublist,
      hfinished⟩
    rw [history, filter_append, ← append_assoc, ← hsplit]
    rfl
  | push | fire =>
    refine ⟨past, rest, ?_, ?_, hfinished⟩
    · rw [history, drain_log]
      exact hsplit
    · rw [successes, drain_attempts]
      exact hsublist
  | finish | skip | call | proceed => exact ⟨past, rest, hsplit, hsublist, hfinished⟩
  | bury hd hc hlast | retry hd hc hagain =>
    refine ⟨past, rest, hsplit, ?_, hfinished⟩
    rw [successes_append rfl, if_neg fun hand => Bool.false_ne_true hand.2.1, append_nil]
    exact hsublist
  | @succeed d h' i c m hd hc =>
    rw [successes_append rfl]
    by_cases hmine : i = j ∧ m.event.orderId = o
    · obtain ⟨rfl, rfl⟩ := hmine
      obtain ⟨hmem, htopic⟩ := h.running_topic hd
      have hin : m.event ∈ past ++ rest := by
        rw [← hsplit]
        exact mem_filter.mpr ⟨hmem, decide_eq_true ⟨htopic, rfl⟩⟩
      have hnot : m.event ∉ past := fun hpast' => by
        have hpos := hpast _ hpast'
        rw [(h.running_once hd).2.1] at hpos
        exact absurd hpos (Nat.lt_irrefl 0)
      obtain ⟨front, back, rfl⟩ := append_of_mem
        ((mem_append.mp hin).resolve_left hnot)
      rw [if_pos ⟨rfl, rfl, rfl⟩]
      refine ⟨past ++ (front ++ [m.event]), back, ?_, ?_, fun e hmem' => ?_⟩
      · rw [append_assoc, append_assoc]
        exact hsplit
      · exact hsublist.append (sublist_append_right _ _)
      obtain hmem' | hmem' := mem_append.mp hmem'
      · exact hfinished e hmem'
      obtain hmem' | hmem' := mem_append.mp hmem'
      · have hfront := earlier_finished h hs hd hok
          (hsplit.trans (append_assoc _ _ _).symm) (mem_append_right _ hmem')
        have hmono := finished_mono (.succeed hd hc : Effect topics _ _ _) i e.id
        exact Nat.lt_of_lt_of_le hfront hmono
      rw [mem_singleton.mp hmem']
      refine finished_pos_of_processed ?_
      rw [processedBy, listAt_set hc, if_pos rfl]
      exact mem_concat_self
    · rw [if_neg fun hand => hmine ⟨hand.1, hand.2.2⟩, append_nil]
      exact ⟨past, rest, hsplit, hsublist, hfinished⟩

theorem ordered_initial (σ : Type) (topics : List Topic) : Ordered topics (initial σ topics) where
  timers t ht := by cases ht
  fresh i o := by
    rw [fresh_eq, queueOf, listAt]
    split
    · rename_i c hc
      rw [consumer_initial hc]
      exact suffix_rfl
    · exact suffix_rfl
  successes i o := ⟨[], [], rfl, Sublist.refl _, nofun⟩

end

/-- In every run in which publishings of an order do not overlap at a consumer and no success
overtakes a retry, each consumer's successes on the events of an order are in the order of
publication. -/
theorem successes_in_publish_order {σ : Type} {topics : List Topic} {as : List (Label σ)}
    {s : State σ} (hrun : run (step topics) (initial σ topics) as = some s)
    (hok : RunMeets (step topics) InOrder (initial σ topics) as) (i : Nat) (o : String) :
    (s.successes i o).Sublist s.log := by
  have hs : Inv topics s ∧ Ordered topics s :=
    run_invariant_of_meets (I := fun s => Inv topics s ∧ Ordered topics s)
      (fun _ _ _ h hok hstep => by
        have he := effect_of_step hstep
        exact ⟨step_inv h.1 hstep, timers_step h.1 h.2 he, fresh_step h.1 h.2 hok he,
          successes_step h.1 h.2 hok he⟩)
      ⟨inv_initial σ topics, ordered_initial σ topics⟩ hok hrun
  obtain ⟨past, rest, hsplit, hsublist, -⟩ := hs.2.successes i o
  have hpast : past.Sublist (s.history topics i o) := by
    rw [hsplit]
    exact sublist_append_left _ _
  exact (hsublist.trans hpast).trans filter_sublist

/-! ## Two events of an order -/

def retriedInOrder : List (Label Unit) :=
  retriedOnce ++ [.publish (unavailableEvent "e2"), .push 1, .next 0 (), .settle 0 true]

theorem successes_in_publish_order_retried :
    ∃ s, run (step [.riderUnavailable]) (initial Unit [.riderUnavailable]) retriedInOrder = some s ∧
      (s.successes 0 "order-1").length = 2 ∧ (s.successes 0 "order-1").Sublist s.log := by
  refine exists_some_imp (A := fun s => (s.successes 0 "order-1").length = 2)
    (by decide +kernel) fun s hrun hlength => ?_
  have hok : RunMeets (step [.riderUnavailable]) InOrder (initial Unit [.riderUnavailable])
      retriedInOrder := by
    decide +kernel
  exact ⟨hlength, successes_in_publish_order hrun hok 0 "order-1"⟩

def overtakenRetry : List (Label Unit) :=
  [.publish (unavailableEvent "e1"), .push 0, .next 0 (), .settle 0 false, .next 0 (),
    .publish (unavailableEvent "e2"), .push 1, .next 0 (), .settle 0 true, .next 0 (), .fire 0,
    .next 0 (), .settle 0 true]

theorem later_event_succeeds_first :
    ∃ s ∈ run (step [.riderUnavailable]) (initial Unit [.riderUnavailable]) overtakenRetry,
      s.log = [unavailableEvent "e1", unavailableEvent "e2"] ∧
        s.successes 0 "order-1" = [unavailableEvent "e2", unavailableEvent "e1"] := by
  decide +kernel

end GoServices.FoodEda.Bus
