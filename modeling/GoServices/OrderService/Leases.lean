/-
Leases of outbox events over whole runs.

A claim stamps events with lease tokens, and a dispatcher keeps copies of the events it claimed.
-/
import Mathlib
import GoServices.OrderService.OutboxRuns

namespace GoServices.OrderService

open List Table Store

/-! ## Claiming -/

/-- The events that `ClaimDue` chooses, in order. -/
def Store.dueIDs (st : Store) (now limit : Int) : List String :=
  (((st.events.toList.filter fun e => claimable now e.2).insertionSort fun l r =>
    dueBefore l.2 r.2).take limit.toNat).map fun e => e.1

/-- The tokens that the loop of `ClaimDue` stamps before `newID` fails. -/
def stamps : List String → List (Option String) → List (String × String)
  | id :: ids, some token :: tokens => (id, token) :: stamps ids tokens
  | _, _ => []

theorem claimDue_eq (st : Store) (now lease limit : Int) (tokens : List (Option String)) :
    st.claimDue now lease limit tokens =
      st.claimLoop (now + lease) (st.dueIDs now limit) tokens := by
  rw [claimDue]
  split
  · rename_i hlimit
    rw [dueIDs, Int.toNat_of_nonpos hlimit]
    rfl
  · rfl

theorem dueIDs_nodup (st : Store) (now limit : Int) : (st.dueIDs now limit).Nodup := by
  have hkeys : (st.events.toList.map Prod.fst).Nodup := by
    rw [Table.toList, map_map]
    exact st.events.keys_nodup
  have hdue : ((st.events.toList.filter fun e => claimable now e.2).map Prod.fst).Nodup :=
    hkeys.sublist (filter_sublist.map _)
  have hsort := ((perm_insertionSort (fun l r : String × OutboxEvent =>
    dueBefore l.2 r.2) _).map Prod.fst).nodup_iff.mpr hdue
  exact hsort.sublist ((take_sublist _ _).map _)

variable {st : Store} {now availableAt : Int} {tokens : List (Option String)}
  {andThen : Store → Except OrderError Store} {e : OutboxEvent} {reason : String}

theorem claimable_of_mem_dueIDs {limit : Int} {i : String} (h : i ∈ st.dueIDs now limit) :
    ∃ e, st.events.get? i = some e ∧ claimable now e = true := by
  obtain ⟨⟨i, e⟩, hmem, rfl⟩ := mem_map.mp h
  have hdue := mem_of_mem_take hmem
  rw [mem_insertionSort, mem_filter] at hdue
  exact ⟨e, mem_toList.mp hdue.1, hdue.2⟩

variable {ids : List String}

theorem mem_stamps {i token : String}
    (h : (i, token) ∈ stamps ids tokens) : i ∈ ids ∧ some token ∈ tokens := by
  induction ids generalizing tokens with
  | nil => cases h
  | cons id ids ih =>
    match tokens with
    | [] | none :: _ => cases h
    | some t :: tokens =>
      rcases mem_cons.mp h with heq | h
      · cases heq
        exact ⟨mem_cons_self, mem_cons_self⟩
      · exact ⟨mem_cons_of_mem _ (ih h).1, mem_cons_of_mem _ (ih h).2⟩

theorem claimLoop_events (st : Store) (leaseUntil : Int) (hids : ids.Nodup)
    (tokens : List (Option String)) (i : String) :
    (∃ token, (i, token) ∈ stamps ids tokens ∧
      (st.claimLoop leaseUntil ids tokens).1.events.get? i =
        (st.events.get? i).map fun e => lease e token leaseUntil) ∨
    (∀ token, (i, token) ∉ stamps ids tokens) ∧
      (st.claimLoop leaseUntil ids tokens).1.events.get? i = st.events.get? i := by
  induction ids generalizing st tokens with
  | nil => exact Or.inr ⟨fun _ => (by cases ·), rfl⟩
  | cons id ids ih =>
    obtain ⟨hnot, hnodup⟩ := nodup_cons.mp hids
    match tokens with
    | [] | none :: _ => exact Or.inr ⟨fun _ => (by cases ·), rfl⟩
    | some t :: tokens =>
      -- The head is stamped once: its id does not come again.
      have hrest : ∀ token, (id, token) ∉ stamps ids tokens := fun _ h => hnot (mem_stamps h).1
      have hstep : ∃ st₁ : Store, (st.claimLoop leaseUntil (id :: ids) (some t :: tokens)).1 =
            (st₁.claimLoop leaseUntil ids tokens).1 ∧
          st₁.events.get? id = (st.events.get? id).map (fun e => lease e t leaseUntil) ∧
          ∀ j, j ≠ id → st₁.events.get? j = st.events.get? j := by
        rw [claimLoop]
        cases he : st.events.get? id with
        | none => exact ⟨st, rfl, he, fun _ _ => rfl⟩
        | some e =>
          refine ⟨{ st with events := st.events.set id (lease e t leaseUntil) }, ?_, ?_, ?_⟩
          · dsimp only
            split <;> rename_i hloop <;> rw [hloop]
          · exact get?_set_self ..
          · intro j hj
            exact (get?_set ..).trans (if_neg hj)
      obtain ⟨st₁, heq, hself, hothers⟩ := hstep
      rw [heq]
      by_cases hi : i = id
      · subst hi
        refine Or.inl ⟨t, mem_cons_self, ?_⟩
        rcases ih st₁ hnodup tokens with ⟨token, hmem, -⟩ | ⟨-, hsame⟩
        · exact absurd hmem (hrest token)
        · rw [hsame, hself]
      rcases ih st₁ hnodup tokens with ⟨token, hmem, hev⟩ | ⟨hnone, hev⟩
      · exact Or.inl ⟨token, mem_cons_of_mem _ hmem, by rw [hev, hothers i hi]⟩
      refine Or.inr ⟨fun token h => ?_, by rw [hev, hothers i hi]⟩
      rcases mem_cons.mp h with heq | h
      · cases heq
        exact hi rfl
      · exact hnone token h

theorem claimLoop_copies (st : Store) (leaseUntil : Int) (hids : ids.Nodup)
    (tokens : List (Option String)) {cs : List OutboxEvent}
    (h : (st.claimLoop leaseUntil ids tokens).2 = .ok cs) :
    ∀ c ∈ cs, ∃ i e token, (i, token) ∈ stamps ids tokens ∧ st.events.get? i = some e ∧
      c = lease e token leaseUntil := by
  induction ids generalizing st tokens cs with
  | nil =>
    intro c hc
    cases h
    cases hc
  | cons id ids ih =>
    obtain ⟨hnot, hnodup⟩ := nodup_cons.mp hids
    match tokens with
    | [] | none :: _ => cases h
    | some t :: tokens =>
      rw [claimLoop] at h
      cases he : st.events.get? id with
      | none =>
        rw [he] at h
        intro c hc
        obtain ⟨i, e, token, hmem, hrest⟩ := ih st hnodup tokens h c hc
        exact ⟨i, e, token, mem_cons_of_mem _ hmem, hrest⟩
      | some e =>
        rw [he] at h
        dsimp only at h
        split at h <;> cases h
        rename_i st₂ more hloop
        intro c hc
        rcases mem_cons.mp hc with rfl | hc
        · exact ⟨id, e, t, mem_cons_self, he, rfl⟩
        obtain ⟨i, f, token, hmem, hf, hcopy⟩ := ih _ hnodup tokens (by rw [hloop]) c hc
        have hi : i ≠ id := fun heq => hnot (heq ▸ (mem_stamps hmem).1)
        rw [get?_set, if_neg hi] at hf
        exact ⟨i, f, token, mem_cons_of_mem _ hmem, hf, hcopy⟩

/-! ## Writing the outcome -/

def OutboxEvent.closed (e : OutboxEvent) : Prop := e.state = .delivered ∨ e.state = .dead
  deriving Decidable

/-- `Finalize` and `Abandon` commit a local effect; `Retry` has none. -/
def Action.commits : Action → Bool
  | .retry _ => false
  | _ => true

def Created (st st' : Store) (i : String) : Prop :=
  st.events.get? i = none ∧ ∃ e, st'.events.get? i = some e ∧ e.id = i ∧ e.state = .pending

def LeavesEvents (st st' : Store) : Prop :=
  ∀ i, st'.events.get? i = st.events.get? i ∨ Created st st' i

variable {st' : Store}

theorem leavesEvents_of_eq (h : st'.events = st.events) : LeavesEvents st st' :=
  fun i => Or.inl (by rw [h])

variable {orderID : String}

theorem leavesEvents_enqueue {id : Option String} {kind : EventKind}
    (hfresh : Fresh st.events id) (h : st.enqueue id orderID kind availableAt = .ok st') :
    LeavesEvents st st' := by
  cases id with
  | none => cases h
  | some n =>
    cases h
    intro i
    by_cases hi : i = n
    · subst hi
      exact Or.inr ⟨hfresh i rfl, _, get?_set_self .., rfl, rfl⟩
    · exact Or.inl ((get?_set ..).trans (if_neg hi))

variable {change : Order → Order}

theorem leavesEvents_withOrder
    (hthen : ∀ mid st₂, mid.events = st.events → andThen mid = .ok st₂ → LeavesEvents mid st₂)
    (h : withOrder orderID change andThen st = .ok st') : LeavesEvents st st' := by
  unfold withOrder at h
  split at h
  · cases h
  obtain ⟨mid, hput, hand⟩ := except_bind_eq_ok.mp h
  have hevents := (putOrder_ok hput).2
  intro i
  rcases hthen mid st' hevents hand i with hsame | hnew
  · exact Or.inl (by rw [hsame, hevents])
  · rw [Created, hevents] at hnew
    exact Or.inr hnew

structure Finishes (st st' : Store) (c e e' : OutboxEvent) : Prop where
  event : st.events.get? c.id = some e
  processing : e.state = .processing
  token : e.leaseToken = c.leaseToken
  written : st'.events.get? c.id = some e'
  id : e'.id = e.id
  orderID : e'.orderID = e.orderID
  kind : e'.kind = e.kind
  released : e'.state ≠ .processing
  others : ∀ i, i ≠ c.id → st'.events.get? i = st.events.get? i ∨ Created st st' i

theorem closed_of_inactive (h : e.active = false) : e.closed := by
  unfold OutboxEvent.active at h
  unfold OutboxEvent.closed
  cases hstate : e.state <;> simp_all

variable {c : OutboxEvent}

theorem finishes_closing {apply : Store → Except OrderError Store}
    {close : OutboxEvent → OutboxEvent} (hlease : st.leased c.id c.leaseToken = .ok e)
    (hclose : Closing close) (happly : ∀ st₂, apply st = .ok st₂ → LeavesEvents st st₂)
    (h : st.closing c.id e apply close = .ok st') :
    Finishes st st' c e (close e) ∧ (close e).closed := by
  obtain ⟨he, hstate, htoken⟩ := leased_eq_ok hlease
  obtain ⟨st₂, hst₂, h⟩ := except_bind_eq_ok.mp h
  cases h
  have hleaves := happly st₂ hst₂
  have hkept : st₂.events.get? c.id = some e := by
    rcases hleaves c.id with hsame | ⟨hnone, -⟩
    · rw [hsame, he]
    · rw [he] at hnone
      cases hnone
  have hclosed : (close e).closed := closed_of_inactive (hclose.inactive e)
  refine ⟨⟨he, hstate, htoken, ?_, hclose.id e, hclose.order e, hclose.kind e, ?_, ?_⟩, hclosed⟩
  · rw [hkept]
    exact get?_set_self ..
  · rcases hclosed with h | h <;> simp [h]
  intro i hi
  have hset : ∀ x, ((st₂.events.set c.id x).get? i) = st₂.events.get? i :=
    fun x => (get?_set ..).trans (if_neg hi)
  rcases hleaves i with hsame | ⟨hnone, n, hn, hrest⟩
  · exact Or.inl ((hset _).trans hsame)
  · exact Or.inr ⟨hnone, n, (hset _).trans hn, hrest⟩

theorem closing_finalize (deliveredAt : Int) : Closing fun current => { current with
      state := .delivered, leaseToken := "", leaseUntil := 0, deliveredAt := deliveredAt } :=
  ⟨fun _ => rfl, fun _ => rfl, fun _ => rfl, fun _ => rfl⟩

theorem finishes_finalize {deliveredAt : Int}
    (hthen : ∀ mid st₂, mid.events = st.events → andThen mid = .ok st₂ → LeavesEvents mid st₂)
    (h : st.finalize c.id c.leaseToken deliveredAt (withOrder orderID change andThen) = .ok st') :
    ∃ e e', Finishes st st' c e e' ∧ e'.closed := by
  obtain ⟨e, hlease, h⟩ := except_bind_eq_ok.mp h
  exact ⟨e, _, finishes_closing hlease (closing_finalize deliveredAt)
    (fun _ => leavesEvents_withOrder hthen) h⟩

theorem finishes_abandon
    (h : st.abandon c.id c.leaseToken reason (withOrder orderID change .ok) = .ok st') :
    ∃ e e', Finishes st st' c e e' ∧ e'.closed := by
  obtain ⟨e, hlease, h⟩ := except_bind_eq_ok.mp h
  refine ⟨e, _, finishes_closing hlease ?_ (fun _ => leavesEvents_withOrder ?_) h⟩
  · exact ⟨fun _ => rfl, fun _ => rfl, fun _ => rfl, fun _ => rfl⟩
  intro mid st₂ _ hok
  cases hok
  exact leavesEvents_of_eq rfl

theorem finishes_retry (h : st.retry c.id c.leaseToken availableAt reason = .ok st') :
    ∃ e e', Finishes st st' c e e' := by
  obtain ⟨e, hlease, h⟩ := except_bind_eq_ok.mp h
  obtain ⟨he, hstate, htoken⟩ := leased_eq_ok hlease
  cases h
  refine ⟨e, _, he, hstate, htoken, get?_set_self .., rfl, rfl, rfl, ?_, fun i hi => ?_⟩
  · exact nofun
  · exact Or.inl ((get?_set ..).trans (if_neg hi))

theorem perform_finishes {policy : RetryPolicy} {newEvent : Option String} {a : Action}
    (hfresh : Fresh st.events newEvent) (h : perform policy st c orderID now newEvent a = .ok st') :
    ∃ e e', Finishes st st' c e e' ∧ (a.commits = true → e'.closed) := by
  have hplain : ∀ mid st₂ : Store, mid.events = st.events →
      (Except.ok mid : Except OrderError Store) = .ok st₂ → LeavesEvents mid st₂ := by
    intro mid st₂ _ hok
    cases hok
    exact leavesEvents_of_eq rfl
  have henqueue : ∀ (kind : EventKind) (mid st₂ : Store), mid.events = st.events →
      mid.enqueue newEvent orderID kind now = .ok st₂ → LeavesEvents mid st₂ := by
    intro kind mid st₂ hevents hok
    refine leavesEvents_enqueue ?_ hok
    rw [hevents]
    exact hfresh
  have hcloses : (∃ e e', Finishes st st' c e e' ∧ e'.closed) →
      ∃ e e', Finishes st st' c e e' ∧ (a.commits = true → e'.closed) :=
    fun ⟨e, e', hf, hclosed⟩ => ⟨e, e', hf, fun _ => hclosed⟩
  cases a with
  | reserved reservationID => exact hcloses (finishes_finalize (henqueue .routeExchange) h)
  | refused reason | accepted exchangeOrderID => exact hcloses (finishes_finalize hplain h)
  | rejected reason => exact hcloses (finishes_finalize (henqueue .releaseMargin) h)
  | released => exact hcloses (finishes_finalize hplain h)
  | retry reason =>
    obtain ⟨e, e', hf⟩ := finishes_retry h
    exact ⟨e, e', hf, nofun⟩
  | abandon reason => exact hcloses (finishes_abandon h)

/-! ## What a step does to an event -/

inductive Entry
  | lease (worker : Nat) (eventID token : String)
  | commit (eventID : String)
  deriving DecidableEq

def record (policy : Nat → RetryPolicy) (s : State) : Label → List Entry
  | .claim worker now limit tokens =>
    (stamps (s.store.dueIDs now limit) tokens).map fun stamp => .lease worker stamp.1 stamp.2
  | .finish worker now newEvent =>
    match s.workers.get? worker with
    | some (.finishing event orderID action _) =>
      match perform (policy worker) s.store event orderID now newEvent action with
      | .ok _ => if action.commits then [.commit event.id] else []
      | .error _ => []
    | _ => []
  | _ => []

/-- The four things that can happen to the event `i`. -/
inductive EventMove (policy : Nat → RetryPolicy) (s : State) (a : Label) (i : String) :
    Option OutboxEvent → Option OutboxEvent → Prop
  | same {o : _} (hlog : ∀ worker token, Entry.lease worker i token ∉ record policy s a) :
      EventMove policy s a i o o
  | created {e : _} (hid : e.id = i) (hstate : e.state = .pending) :
      EventMove policy s a i none (some e)
  | leased {e worker now limit tokens token : _} (ha : a = .claim worker now limit tokens)
      (hlog : Entry.lease worker i token ∈ record policy s a)
      (hclaim : claimable now e = true) :
      EventMove policy s a i (some e) (some (lease e token (now + leaseFor)))
  | finished {e e' worker now newEvent : _}
      (ha : a = .finish worker now newEvent) (hstate : e.state = .processing) (hid : e'.id = e.id)
      (horder : e'.orderID = e.orderID) (hkind : e'.kind = e.kind)
      (hreleased : e'.state ≠ .processing) :
      EventMove policy s a i (some e) (some e')

section
variable {digest : String → String} {policy : Nat → RetryPolicy} {s s' : State} {a : Label}
  {i : String}

theorem eventMove_of_leaves {st' : Store}
    (hlog : ∀ worker token, Entry.lease worker i token ∉ record policy s a)
    (h : st'.events.get? i = s.store.events.get? i ∨ Created s.store st' i) :
    EventMove policy s a i (s.store.events.get? i) (st'.events.get? i) := by
  rcases h with hsame | ⟨hnone, e, he, hid, hstate⟩
  · rw [hsame]
    exact .same hlog
  · rw [hnone, he]
    exact .created hid hstate

variable {worker w : Nat} {now : Int}

theorem not_lease_of_finish {newEvent : Option String} {token : String} :
    Entry.lease w i token ∉ record policy s (.finish worker now newEvent) := by
  intro h
  simp only [record] at h
  split at h <;> try cases h
  split at h <;> try cases h
  split at h
  · cases mem_singleton.mp h
  · cases h

theorem leavesEvents_placeTx {st st' : Store} {request : PlaceOrderRequest} {fingerprint : String}
    {orderID eventID : Option String} {result : PlaceOrderResult} (hfresh : Fresh st.events eventID)
    (h : placeTx st request fingerprint orderID eventID now = .ok (st', result)) :
    LeavesEvents st st' := by
  unfold placeTx at h
  split at h
  · split at h <;> cases h
    exact leavesEvents_of_eq rfl
  cases orderID with
  | none => cases h
  | some id =>
    obtain ⟨mid, hput, h⟩ := except_bind_eq_ok.mp h
    obtain ⟨st₂, henqueue, h⟩ := except_bind_eq_ok.mp h
    cases h
    have hevents := (putOrder_ok hput).2
    have hleaves := leavesEvents_enqueue (hevents ▸ hfresh) henqueue
    intro i
    have hi := hleaves i
    rw [Created, hevents] at hi
    exact hi

variable {tokens : List (Option String)} {limit : Int} {e : OutboxEvent}

theorem eventMove_claim (i : String) :
    EventMove policy s (.claim worker now limit tokens) i (s.store.events.get? i)
      ((s.store.claimDue now leaseFor limit tokens).1.events.get? i) := by
  rw [claimDue_eq]
  rcases claimLoop_events s.store (now + leaseFor) (dueIDs_nodup s.store now limit) tokens i with
    ⟨token, hmem, hev⟩ | ⟨hnone, hev⟩
  · obtain ⟨e, he, hclaim⟩ := claimable_of_mem_dueIDs (mem_stamps hmem).1
    rw [hev, he]
    exact .leased rfl (mem_map_of_mem hmem) hclaim
  rw [hev]
  refine .same fun w token h => ?_
  obtain ⟨stamp, hmem, heq⟩ := mem_map.mp h
  cases heq
  exact hnone _ hmem

theorem step_events (h : step digest policy s a = some s') (i : String) :
    EventMove policy s a i (s.store.events.get? i) (s'.store.events.get? i) := by
  cases stepped_of_step h with
  | placed hfresh =>
    refine eventMove_of_leaves nofun ?_
    unfold place
    split
    · exact Or.inl rfl
    split
    · exact Or.inl rfl
    · rename_i hplace
      exact leavesEvents_placeTx hfresh.2 hplace i
  | @claimed worker now limit tokens st events hclaim =>
    have hmove : EventMove policy s (.claim worker now limit tokens) i _ _ := eventMove_claim i
    rw [hclaim] at hmove
    exact hmove
  | @claimFailed worker now limit tokens st e hclaim =>
    have hmove : EventMove policy s (.claim worker now limit tokens) i _ _ := eventMove_claim i
    rw [hclaim] at hmove
    exact hmove
  | drained hpc => exact .same nofun
  | loaded hpc =>
    rw [load_store]
    exact .same nofun
  | answered hpc haction => exact .same nofun
  | @finished worker now newEvent event orderID action queue st hpc hfresh hperform =>
    obtain ⟨e, e', hf, -⟩ := perform_finishes hfresh hperform
    by_cases hi : i = event.id
    · rw [hi, hf.event, hf.written]
      exact .finished rfl hf.processing hf.id hf.orderID hf.kind hf.released
    · exact eventMove_of_leaves (fun _ _ => not_lease_of_finish) (hf.others i hi)
  | leaseLost hpc | stopped => exact .same fun _ _ => not_lease_of_finish
  | crashed => exact .same nofun

theorem step_keeps (h : step digest policy s a = some s') : Keeps s.store s'.store := by
  refine ⟨fun {i e} he => ?_⟩
  have hmove := step_events h i
  rw [he] at hmove
  generalize s'.store.events.get? i = after at hmove ⊢
  cases hmove with
  | same _ => exact ⟨e, rfl, rfl, rfl⟩
  | leased _ _ _ => exact ⟨_, rfl, rfl, rfl⟩
  | finished _ _ _ horder hkind _ => exact ⟨_, rfl, horder, hkind⟩

theorem step_closed (h : step digest policy s a = some s')
    (he : s.store.events.get? i = some e) (hclosed : e.closed) :
    s'.store.events.get? i = some e := by
  have hmove := step_events h i
  rw [he] at hmove
  generalize s'.store.events.get? i = after at hmove ⊢
  cases hmove with
  | same _ => rfl
  | leased _ _ hclaim =>
    simp only [claimable, Bool.or_eq_true, Bool.and_eq_true, decide_eq_true_eq] at hclaim
    rcases hclosed with hs | hs <;> simp [hs] at hclaim
  | finished _ hstate _ _ _ _ =>
    rcases hclosed with hs | hs <;> rw [hs] at hstate <;> cases hstate

theorem claim_leased (h : step digest policy s (.claim worker now limit tokens) = some s')
    (he : s.store.events.get? i = some e) (hstate : e.state = .processing)
    (hlease : now < e.leaseUntil) : s'.store.events.get? i = some e := by
  have hmove := step_events h i
  rw [he] at hmove
  generalize s'.store.events.get? i = after at hmove ⊢
  cases hmove with
  | same _ => rfl
  | leased ha _ hclaim =>
    cases ha
    simp [claimable, hstate, not_le.mpr hlease] at hclaim
  | finished ha _ _ _ _ _ => cases ha

/-! ## The copies in hand -/

def Pc.copies : Pc → List OutboxEvent
  | .next queue => queue
  | .calling event _ queue | .finishing event _ _ queue => event :: queue

def KeepsCopies (s : State) (w : Nat) (pc' : Pc) : Prop :=
  ∃ pc, s.workers.get? w = some pc ∧ ∀ c ∈ pc'.copies, c ∈ pc.copies

def ClaimsCopies (policy : Nat → RetryPolicy) (s : State) (a : Label) (w : Nat) (pc' : Pc) :
    Prop :=
  ∀ c ∈ pc'.copies, ∃ i e token leaseUntil, Entry.lease w i token ∈ record policy s a ∧
    s.store.events.get? i = some e ∧ c = lease e token leaseUntil

variable {pc' : Pc}

theorem keepsCopies_set {pc pc₁ : Pc} (hpc : s.workers.get? worker = some pc)
    (hw : (s.workers.set worker pc₁).get? w = some pc') (hsub : ∀ c ∈ pc₁.copies, c ∈ pc.copies) :
    KeepsCopies s w pc' := by
  rw [get?_set] at hw
  split at hw
  · rename_i heq
    cases hw
    exact ⟨pc, heq ▸ hpc, hsub⟩
  · exact ⟨pc', hw, fun _ hc => hc⟩

theorem keepsCopies_erase (hw : (s.workers.erase worker).get? w = some pc') :
    KeepsCopies s w pc' := by
  rw [get?_erase] at hw
  split at hw
  · cases hw
  · exact ⟨pc', hw, fun _ hc => hc⟩

theorem keepsCopies_load {event : OutboxEvent} {queue : List OutboxEvent}
    (hpc : s.workers.get? worker = some (.next (event :: queue)))
    (hw : (load s worker event queue).workers.get? w = some pc') : KeepsCopies s w pc' := by
  unfold load at hw
  split at hw
  · exact keepsCopies_set hpc hw fun _ hc => hc
  split at hw
  · exact keepsCopies_set hpc hw fun _ hc => hc
  · exact keepsCopies_erase hw

theorem step_copies (h : step digest policy s a = some s') (hw : s'.workers.get? w = some pc') :
    KeepsCopies s w pc' ∨ ClaimsCopies policy s a w pc' := by
  cases stepped_of_step h with
  | placed hfresh => exact Or.inl ⟨pc', hw, fun _ hc => hc⟩
  | @claimed worker now limit tokens st events hclaim =>
    rcases set_cases hw with ⟨rfl, rfl⟩ | ⟨-, hw⟩
    · refine Or.inr fun c hc => ?_
      rw [claimDue_eq] at hclaim
      obtain ⟨i, e, token, hmem, he, hcopy⟩ :=
        claimLoop_copies s.store _ (dueIDs_nodup s.store now limit) tokens
          (congrArg Prod.snd hclaim) c hc
      exact ⟨i, e, token, _, mem_map_of_mem hmem, he, hcopy⟩
    · exact Or.inl ⟨pc', hw, fun _ hc => hc⟩
  | claimFailed hclaim => exact Or.inl ⟨pc', hw, fun _ hc => hc⟩
  | drained hpc => exact Or.inl (keepsCopies_erase hw)
  | loaded hpc => exact Or.inl (keepsCopies_load hpc hw)
  | answered hpc haction => exact Or.inl (keepsCopies_set hpc hw fun _ hc => hc)
  | finished hpc hfresh hperform | leaseLost hpc =>
    exact Or.inl (keepsCopies_set hpc hw fun _ hc => mem_cons_of_mem _ hc)
  | stopped | crashed => exact Or.inl (keepsCopies_erase hw)

/-! ## The log -/

theorem lease_mem_record {token : String} (h : Entry.lease w i token ∈ record policy s a) :
    ∃ now limit tokens, a = .claim w now limit tokens ∧
      (i, token) ∈ stamps (s.store.dueIDs now limit) tokens := by
  cases a with
  | claim worker now limit tokens =>
    obtain ⟨stamp, hmem, heq⟩ := mem_map.mp h
    cases heq
    exact ⟨now, limit, tokens, rfl, hmem⟩
  | finish worker now newEvent => exact absurd h not_lease_of_finish
  | place request orderID eventID now | load worker | answer worker remote | crash worker => cases h

theorem commit_mem_record (hmem : Entry.commit i ∈ record policy s a)
    (h : step digest policy s a = some s') :
    record policy s a = [.commit i] ∧
      (∃ e, s.store.events.get? i = some e ∧ e.state = .processing) ∧
      ∃ e', s'.store.events.get? i = some e' ∧ e'.closed := by
  cases a with
  | finish worker now newEvent =>
    simp only [step] at h
    split at h
    · rename_i c orderID action queue hw
      simp only [record, hw] at hmem ⊢
      split at h
      · rename_i hfresh
        split at h
        · rename_i st hperform
          cases h
          simp only [hperform] at hmem ⊢
          split at hmem
          · rename_i hcommits
            cases mem_singleton.mp hmem
            obtain ⟨e, e', hf, hclosed⟩ := perform_finishes hfresh hperform
            exact ⟨by rw [if_pos hcommits], ⟨e, hf.event, hf.processing⟩, e', hf.written,
              hclosed hcommits⟩
          · cases hmem
        all_goals
          rename_i hperform
          simp only [hperform] at hmem
          cases hmem
      · cases h
    · cases h
  | claim worker now limit tokens =>
    obtain ⟨stamp, -, heq⟩ := mem_map.mp hmem
    cases heq
  | place request orderID eventID now | load worker | answer worker remote | crash worker =>
    cases hmem

end

/-- The last lease of the event in the log went to `w`, with `token`. -/
def Latest (log : List Entry) (w : Nat) (i token : String) : Prop :=
  ∃ before after, log = before ++ .lease w i token :: after ∧
    ∀ w' token', Entry.lease w' i token' ∉ after

variable {log : List Entry} {w : Nat} {i token : String}

theorem Latest.mem (h : Latest log w i token) :
    Entry.lease w i token ∈ log := by
  obtain ⟨before, after, rfl, -⟩ := h
  exact mem_append_right _ mem_cons_self

theorem Latest.append {new : List Entry} (h : Latest log w i token)
    (hnew : ∀ w' token', Entry.lease w' i token' ∉ new) :
    Latest (log ++ new) w i token := by
  obtain ⟨before, after, rfl, hafter⟩ := h
  refine ⟨before, after ++ new, by rw [append_assoc, cons_append], ?_⟩
  intro w' token' hmem
  rcases mem_append.mp hmem with hmem | hmem
  · exact hafter w' token' hmem
  · exact hnew w' token' hmem

theorem stamps_sublist (ids : List String) (tokens : List (Option String)) :
    ((stamps ids tokens).map Prod.fst).Sublist ids ∧
      ((stamps ids tokens).map Prod.snd).Sublist tokens.reduceOption := by
  induction ids generalizing tokens with
  | nil => exact ⟨Sublist.slnil, nil_sublist _⟩
  | cons id ids ih =>
    match tokens with
    | [] | none :: _ => exact ⟨nil_sublist _, nil_sublist _⟩
    | some token :: tokens => exact ⟨(ih tokens).1.cons_cons id, (ih tokens).2.cons_cons token⟩

theorem latest_stamped (log : List Entry) (w : Nat) {ids : List String} (hids : ids.Nodup)
    (h : (i, token) ∈ stamps ids tokens) :
    Latest (log ++ (stamps ids tokens).map fun stamp => .lease w stamp.1 stamp.2) w i token := by
  have hnodup : ((stamps ids tokens).map Prod.fst).Nodup :=
    hids.sublist (stamps_sublist ids tokens).1
  obtain ⟨before, after, hsplit⟩ := append_of_mem h
  rw [hsplit] at hnodup ⊢
  rw [map_append, map_cons, nodup_append] at hnodup
  refine ⟨log ++ before.map fun stamp => .lease w stamp.1 stamp.2,
    after.map fun stamp => .lease w stamp.1 stamp.2, ?_, fun w' token' hmem => ?_⟩
  · rw [map_append, map_cons, append_assoc]
  obtain ⟨stamp, hstamp, heq⟩ := mem_map.mp hmem
  have hi : stamp.1 = i := (Entry.lease.inj heq).2.1
  exact (nodup_cons.mp hnodup.2.1).1 (mem_map.mpr ⟨stamp, hstamp, hi⟩)

/-! ## Remote calls -/

inductive RemoteCall
  | reserve (order : Order) (operationID : String)
  | route (order : Order) (operationID : String)
  | release (reservationID operationID : String)

def RemoteCall.operationID : RemoteCall → String
  | .reserve _ id | .route _ id | .release _ id => id

/-- The call that `reserve`, `route` or `release` makes with the order it has read. -/
def remoteCall (event : OutboxEvent) (order : Order) : Option RemoteCall :=
  match event.kind with
  | .reserveMargin => some (.reserve order event.id)
  | .routeExchange => some (.route order event.id)
  | .releaseMargin => some (.release order.reservationID event.id)
  | .unknown _ => none

theorem operationID_remoteCall {event : OutboxEvent} {order : Order} {call : RemoteCall}
    (h : remoteCall event order = some call) : call.operationID = event.id := by
  unfold remoteCall at h
  split at h <;> cases h <;> rfl

/-! ## Runs -/

def usedTokens (log : List Entry) : List String :=
  log.filterMap fun
    | .lease _ _ token => some token
    | .commit _ => none

theorem mem_usedTokens (h : Entry.lease w i token ∈ log) : token ∈ usedTokens log :=
  mem_filterMap.mpr ⟨_, h, rfl⟩

/-- `newID` returns no lease token twice. -/
def TokensFresh (p : State × List Entry) : Label → Prop
  | .claim _ _ _ tokens => tokens.reduceOption.Nodup ∧
      ∀ token ∈ tokens.reduceOption, token ∉ usedTokens p.2
  | _ => True

instance (p : State × List Entry) (a : Label) : Decidable (TokensFresh p a) := by
  cases a <;> unfold TokensFresh <;> infer_instance

structure Held (p : State × List Entry) : Prop where
  ids : ∀ {i e}, p.1.store.events.get? i = some e → e.id = i
  tokens : ∀ {w w' i i' token}, Entry.lease w i token ∈ p.2 → Entry.lease w' i' token ∈ p.2 →
    w = w' ∧ i = i'
  latest : ∀ {i e}, p.1.store.events.get? i = some e → e.state = .processing →
    ∃ w, Latest p.2 w i e.leaseToken
  hand : ∀ {w pc}, p.1.workers.get? w = some pc → ∀ c ∈ pc.copies,
    Entry.lease w c.id c.leaseToken ∈ p.2 ∧ Known p.1.store c
  committed : ∀ {i}, Entry.commit i ∈ p.2 → ∃ e, p.1.store.events.get? i = some e ∧ e.closed
  once : ∀ i, p.2.count (.commit i) ≤ 1

theorem held_initial : Held (initial, []) where
  ids h := by cases h
  tokens h := by cases h
  latest h := by cases h
  hand h := by cases h
  committed h := by cases h
  once _ := Nat.zero_le 1

section
variable {digest : String → String} {policy : Nat → RetryPolicy} {s s' : State} {a : Label}
  {log : List Entry} {i : String}

theorem held_ids (hs : Held (s, log)) (h : step digest policy s a = some s') {e : OutboxEvent}
    (he : s'.store.events.get? i = some e) : e.id = i := by
  have hmove := step_events h i
  rw [he] at hmove
  generalize hbefore : s.store.events.get? i = before at hmove
  cases hmove with
  | same _ => exact hs.ids hbefore
  | created hid _ => exact hid
  | leased _ _ _ =>
    have hid := hs.ids hbefore
    exact hid
  | finished _ _ hid _ _ _ => exact hid.trans (hs.ids hbefore)

variable {w : Nat}

theorem held_tokens (hs : Held (s, log)) (hfresh : TokensFresh (s, log) a) {w' : Nat}
    {i' token : String} (hw : Entry.lease w i token ∈ log ++ record policy s a)
    (hw' : Entry.lease w' i' token ∈ log ++ record policy s a) : w = w' ∧ i = i' := by
  -- A token that is stamped now was not used before.
  have hnew {v : Nat} {j : String} (h : Entry.lease v j token ∈ record policy s a) :
      token ∉ usedTokens log := by
    obtain ⟨now, limit, tokens, rfl, hmem⟩ := lease_mem_record h
    exact hfresh.2 token ((stamps_sublist _ _).2.subset (mem_map_of_mem hmem))
  rcases mem_append.mp hw with hold | hw
  · rcases mem_append.mp hw' with hold' | hw'
    · exact hs.tokens hold hold'
    · exact absurd (mem_usedTokens hold) (hnew hw')
  rcases mem_append.mp hw' with hold' | hw'
  · exact absurd (mem_usedTokens hold') (hnew hw)
  obtain ⟨now, limit, tokens, rfl, hmem⟩ := lease_mem_record hw
  obtain ⟨now', limit', tokens', heq, hmem'⟩ := lease_mem_record hw'
  cases heq
  have hnodup : ((stamps (s.store.dueIDs now limit) tokens).map Prod.snd).Nodup :=
    hfresh.1.sublist (stamps_sublist _ _).2
  exact ⟨rfl, congrArg Prod.fst (inj_on_of_nodup_map hnodup hmem hmem' rfl)⟩

section
variable (hs : Held (s, log)) (h : step digest policy s a = some s')
include hs h

theorem held_latest {e : OutboxEvent} (he : s'.store.events.get? i = some e)
    (hstate : e.state = .processing) : ∃ w, Latest (log ++ record policy s a) w i e.leaseToken := by
  have hmove := step_events h i
  rw [he] at hmove
  generalize hbefore : s.store.events.get? i = before at hmove
  cases hmove with
  | same hlog =>
    obtain ⟨w, hw⟩ := hs.latest hbefore hstate
    exact ⟨w, hw.append hlog⟩
  | created _ hpending =>
    rw [hpending] at hstate
    cases hstate
  | leased _ hlog _ =>
    obtain ⟨now, limit, tokens, rfl, hmem⟩ := lease_mem_record hlog
    exact ⟨_, latest_stamped log _ (dueIDs_nodup s.store now limit) hmem⟩
  | finished _ _ _ _ _ hreleased => exact absurd hstate hreleased

theorem held_hand {pc : Pc} (hw : s'.workers.get? w = some pc) {c : OutboxEvent}
    (hc : c ∈ pc.copies) :
    Entry.lease w c.id c.leaseToken ∈ log ++ record policy s a ∧ Known s'.store c := by
  rcases step_copies h hw with ⟨pc₀, hw₀, hsub⟩ | hclaims
  · obtain ⟨hlease, hknown⟩ := hs.hand hw₀ c (hsub c hc)
    exact ⟨mem_append_left _ hlease, hknown.keeps (step_keeps h)⟩
  obtain ⟨i, e, token, leaseUntil, hmem, he, rfl⟩ := hclaims c hc
  have hold : e.id = i := hs.ids he
  have hid : (lease e token leaseUntil).id = i := hold
  refine ⟨mem_append_right _ (hid.symm ▸ hmem), ?_⟩
  exact Known.keeps ⟨e, hid.symm ▸ he, rfl, rfl⟩ (step_keeps h)

theorem held_committed (hmem : Entry.commit i ∈ log ++ record policy s a) :
    ∃ e, s'.store.events.get? i = some e ∧ e.closed := by
  rcases mem_append.mp hmem with hold | hnew
  · obtain ⟨e, he, hclosed⟩ := hs.committed hold
    exact ⟨e, step_closed h he hclosed, hclosed⟩
  · exact (commit_mem_record hnew h).2.2

theorem held_once (i : String) : (log ++ record policy s a).count (.commit i) ≤ 1 := by
  rw [count_append]
  by_cases hmem : Entry.commit i ∈ record policy s a
  · obtain ⟨hrecord, ⟨e, he, hstate⟩, -⟩ := commit_mem_record hmem h
    -- The event was in processing, so its effect had not been committed.
    have hnot : Entry.commit i ∉ log := by
      intro hold
      obtain ⟨e', he', hclosed⟩ := hs.committed hold
      rw [he] at he'
      cases he'
      rcases hclosed with hs | hs <;> rw [hs] at hstate <;> cases hstate
    rw [count_eq_zero.mpr hnot, hrecord, count_singleton_self]
  · rw [count_eq_zero.mpr hmem]
    exact hs.once i

end

variable {p : State × List Entry}

theorem held_step {q : State × List Entry} (hp : Held p) (hfresh : TokensFresh p a)
    (h : logged (step digest policy) (record policy) p a = some q) : Held q := by
  obtain ⟨hstep, hlog⟩ := logged_eq_some.mp h
  obtain ⟨s, log⟩ := p
  obtain ⟨s', log'⟩ := q
  subst hlog
  exact
    { ids := held_ids hp hstep
      tokens := held_tokens hp hfresh
      latest := held_latest hp hstep
      hand := fun hw c hc => held_hand hp hstep hw hc
      committed := held_committed hp hstep
      once := held_once hp hstep }

theorem held_run {as : List Label}
    (hrun : run (logged (step digest policy) (record policy)) (initial, []) as = some p)
    (hfresh : RunMeets (logged (step digest policy) (record policy)) TokensFresh (initial, [])
      as) : Held p :=
  run_invariant_of_meets (I := Held) (fun _ _ _ hp ha h => held_step hp ha h) held_initial
    hfresh hrun

theorem Held.latest_of_perform (hp : Held p) {c : OutboxEvent} {orderID : String} {action : Action}
    {queue : List OutboxEvent} {retry : RetryPolicy} {now : Int} {newEvent : Option String}
    {st : Store} (hw : p.1.workers.get? w = some (.finishing c orderID action queue))
    (hfresh : Fresh p.1.store.events newEvent)
    (h : perform retry p.1.store c orderID now newEvent action = .ok st) :
    Latest p.2 w c.id c.leaseToken := by
  obtain ⟨e, e', hf, -⟩ := perform_finishes hfresh h
  obtain ⟨w', hlatest⟩ := hp.latest hf.event hf.processing
  rw [hf.token] at hlatest
  have hlease : Entry.lease w c.id c.leaseToken ∈ p.2 := (hp.hand hw c mem_cons_self).1
  rw [(hp.tokens hlease hlatest.mem).1]
  exact hlatest

/-- In every run in which `newID` returns no lease token twice: the local effect of an event
is committed at most once; a dispatcher whose write succeeds has the latest lease of the
event; a delivered or dead event stays as it is in every continuation; a claim leaves an
event alone until its lease ends; and a remote call carries the id of the event that the
dispatcher has leased. -/
theorem outbox_leases {as : List Label} {p : State × List Entry}
    (hrun : run (logged (step digest policy) (record policy)) (initial, []) as = some p)
    (hfresh : RunMeets (logged (step digest policy) (record policy)) TokensFresh (initial, [])
      as) :
    (∀ i, p.2.count (.commit i) ≤ 1) ∧
    (∀ w c orderID action queue now newEvent st,
      p.1.workers.get? w = some (.finishing c orderID action queue) →
      Fresh p.1.store.events newEvent →
      perform (policy w) p.1.store c orderID now newEvent action = .ok st →
      Latest p.2 w c.id c.leaseToken) ∧
    (∀ i e bs s', p.1.store.events.get? i = some e → e.closed →
      run (step digest policy) p.1 bs = some s' → s'.store.events.get? i = some e) ∧
    (∀ w now limit tokens s' i e, step digest policy p.1 (.claim w now limit tokens) = some s' →
      p.1.store.events.get? i = some e → e.state = .processing → now < e.leaseUntil →
      s'.store.events.get? i = some e ∧
        ∀ token, Entry.lease w i token ∉ record policy p.1 (.claim w now limit tokens)) ∧
    (∀ w event order queue call, p.1.workers.get? w = some (.calling event order queue) →
      remoteCall event order = some call →
      Entry.lease w call.operationID event.leaseToken ∈ p.2 ∧
        ∃ e, p.1.store.events.get? call.operationID = some e ∧ e.id = call.operationID ∧
          e.orderID = event.orderID ∧ e.kind = event.kind) := by
  have hp := held_run hrun hfresh
  refine ⟨hp.once, ?_, ?_, ?_, ?_⟩
  · intro w c orderID action queue now newEvent st hw hnew h
    exact hp.latest_of_perform hw hnew h
  · intro i e bs s' he hclosed hbs
    exact run_invariant (I := fun s => s.store.events.get? i = some e)
      (fun _ _ _ he h => step_closed h he hclosed) he hbs
  · intro w now limit tokens s' i e h he hstate hlease
    refine ⟨claim_leased h he hstate hlease, fun token hmem => ?_⟩
    obtain ⟨now', limit', tokens', heq, hstamp⟩ := lease_mem_record hmem
    cases heq
    obtain ⟨e', he', hclaim⟩ := claimable_of_mem_dueIDs (mem_stamps hstamp).1
    rw [he] at he'
    cases he'
    simp [claimable, hstate, not_le.mpr hlease] at hclaim
  · intro w event order queue call hw hcall
    obtain ⟨hlease, e, he, horder, hkind⟩ := hp.hand hw event mem_cons_self
    rw [operationID_remoteCall hcall]
    exact ⟨hlease, e, he, hp.ids he, horder, hkind⟩

end

theorem outbox_leases_takenOver :
    ∃ p ∈ run (logged (step (fun text => text) fun _ => RetryPolicy.withDefaults ⟨0, 0, 0⟩)
        (record fun _ => RetryPolicy.withDefaults ⟨0, 0, 0⟩)) (initial, []) takenOver,
      Entry.commit "e1" ∈ p.2 ∧ ∀ i, p.2.count (.commit i) ≤ 1 := by
  refine exists_some_imp (A := fun p => Entry.commit "e1" ∈ p.2)
    (by decide +kernel) fun p hp hcommit => ?_
  exact ⟨hcommit, (outbox_leases hp (by decide +kernel)).1⟩

end GoServices.OrderService
