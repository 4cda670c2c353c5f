/-
The outbox relay: batches of unsent rows, their publication and their marking.

A tick selects the oldest unsent rows that no other relay has locked, sends them topic by topic,
and marks them as sent in the same transaction.
-/
import GoServices.Base.Precedence
import GoServices.Base.Run
import GoServices.FoodDelivery.Events

namespace GoServices.FoodDelivery.Relay

open List

structure Message where
  key : String
  value : Envelope
  deriving DecidableEq

structure Publication where
  topic : Topic
  message : Message
  deriving DecidableEq

def messageOf (row : OutboxRow) : Message := { key := row.msgKey, value := row.payload }

def publicationOf (row : OutboxRow) : Publication :=
  { topic := row.topic, message := messageOf row }

def push (row : OutboxRow) : List (Topic × List Message) → List (Topic × List Message)
  | [] => [(row.topic, [messageOf row])]
  | (topic, messages) :: rest =>
    if topic = row.topic then (topic, messages ++ [messageOf row]) :: rest
    else (topic, messages) :: push row rest

/-- The loop that fills `byTopic`, a map in insertion order. -/
def byTopic (rows : List OutboxRow) : List (Topic × List Message) :=
  rows.foldl (fun groups row => push row groups) []

/-! ## State -/

/-- A committed row with its `created_at` and the number of its transaction in commit
order. -/
structure Entry where
  row : OutboxRow
  createdAt : Nat
  tx : Nat
  deriving DecidableEq

/-- A call of `producer.send` and the partitions it has been written to. -/
structure Request where
  topic : Topic
  messages : List Message
  written : List Nat

inductive Phase
  | sending (rest : List (Topic × List Message))
  | waiting (request : Nat) (rest : List (Topic × List Message))
  | failed

/-- A tick from its `SELECT` on.  Its transaction has locked the rows. -/
structure Tick where
  rows : List OutboxRow
  phase : Phase

structure State where
  outbox : List Entry
  txs : Nat
  /-- The ids of the rows with a `sent_at`. -/
  sent : List String
  ticks : Table Nat Tick
  requests : List Request
  log : List Publication

def initial : State :=
  { outbox := [], txs := 0, sent := [], ticks := .empty, requests := [], log := [] }

def State.locked (s : State) (id : String) : Bool :=
  s.ticks.toList.any fun e => e.2.rows.any fun row => row.id = id

def State.eligible (s : State) (e : Entry) : Bool :=
  e.row.id ∉ s.sent ∧ s.locked e.row.id = false

/-- What `SELECT … WHERE sent_at IS NULL ORDER BY created_at FOR UPDATE SKIP LOCKED LIMIT $1`
may return. -/
def State.selects (s : State) (batch : Nat) (rows : List Entry) : Prop :=
  rows.length ≤ batch ∧ rows.Pairwise (fun e e' => e.createdAt ≤ e'.createdAt) ∧
    rows.Nodup ∧ (∀ e ∈ rows, e ∈ s.outbox ∧ s.eligible e = true) ∧
    ∀ e ∈ s.outbox, s.eligible e = true → e ∉ rows →
      rows.length = batch ∧ ∀ e' ∈ rows, e'.createdAt ≤ e.createdAt
  deriving Decidable

inductive Label
  | transaction (createdAt : Nat) (events : List Envelope)
  | select (r : Nat) (rows : List Entry)
  | send (r : Nat)
  | arrive (request partition : Nat)
  | acked (r : Nat)
  | sendFailed (r : Nat)
  /-- The `UPDATE` with the `COMMIT`. -/
  | update (r : Nat) (ok : Bool)
  | rollback (r : Nat)
  | crash (r : Nat)

section
variable (batch : Nat) (partitionOf : Topic → String → Nat)

def Request.messagesFor (q : Request) (partition : Nat) : List Message :=
  q.messages.filter fun m => partitionOf q.topic m.key = partition

def State.transact (s : State) (createdAt : Nat) (events : List Envelope) : Option State :=
  match { Database.empty with outbox := s.outbox.map Entry.row }.emitEvents events with
  | .error _ => none
  | .ok db =>
    some { s with
      outbox := s.outbox ++ (db.outbox.drop s.outbox.length).map fun row => ⟨row, createdAt, s.txs⟩
      txs := s.txs + 1 }

def State.goto (s : State) (r : Nat) (rows : List OutboxRow) (phase : Phase) : State :=
  { s with ticks := s.ticks.set r ⟨rows, phase⟩ }

/-- The broker writes the messages of partition `p` of request `k`. -/
def State.append (s : State) (k p : Nat) (q : Request) : State :=
  { s with
    log := s.log ++ (q.messagesFor partitionOf p).map (Publication.mk q.topic)
    requests := s.requests.set k { q with written := q.written ++ [p] } }

def State.next (s : State) (r : Nat) (rows : List OutboxRow) (phase : Phase) (a : Label) :
    Option State :=
  match phase, a with
  | .sending ((topic, messages) :: rest), .send _ =>
    some (State.goto { s with requests := s.requests ++ [⟨topic, messages, []⟩] } r rows
      (.waiting s.requests.length rest))
  | .waiting k rest, .acked _ =>
    match s.requests[k]? with
    | none => none
    | some q =>
      if ∀ m ∈ q.messages, partitionOf q.topic m.key ∈ q.written then
        some (s.goto r rows (.sending rest))
      else none
  | .waiting _ _, .sendFailed _ => some (s.goto r rows .failed)
  | .sending [], .update _ ok =>
    if ok then
      some { s with sent := s.sent ++ rows.map OutboxRow.id, ticks := s.ticks.erase r }
    else some (s.goto r rows .failed)
  | .failed, .rollback _ | _, .crash _ => some { s with ticks := s.ticks.erase r }
  | _, _ => none

def step (s : State) (a : Label) : Option State :=
  match a with
  | .transaction createdAt events => s.transact createdAt events
  | .select r rows =>
    if s.ticks.get? r = none ∧ s.selects batch rows then
      some (s.goto r (rows.map Entry.row) (.sending (byTopic (rows.map Entry.row))))
    else none
  | .arrive k p =>
    match s.requests[k]? with
    | none => none
    | some q =>
      if p ∈ q.written then none
      else some (s.append partitionOf k p q)
  | .send r | .acked r | .sendFailed r | .update r _ | .rollback r | .crash r =>
    match s.ticks.get? r with
    | none => none
    | some tick => s.next partitionOf r tick.rows tick.phase a

end

/-! ## The order of the publications -/

def Entry.Before (e x : Entry) : Prop :=
  e.tx < x.tx ∧ e.row.aggregateId = x.row.aggregateId ∧ e.row.topic = x.row.topic
  deriving Decidable

def Seen (s : State) : Label → Prop
  | .select _ rows =>
    ∀ x ∈ rows, ∀ e ∈ s.outbox, e.Before x → publicationOf e.row ∉ s.log →
      s.locked e.row.id = false ∧ e.createdAt < x.createdAt
  | _ => True

instance (s : State) : ∀ a, Decidable (Seen s a) := fun _ => by
  unfold Seen
  split <;> infer_instance

/-! ## The groups of a batch -/

section
variable {row : OutboxRow} {rows : List OutboxRow} {groups : List (Topic × List Message)}

def publications (topic : Topic) (messages : List Message) : List Publication :=
  messages.map (Publication.mk topic)

theorem mem_push {g : Topic × List Message} (hnodup : (groups.map Prod.fst).Nodup)
    (hg : g ∈ push row groups) :
    (g.1 ≠ row.topic ∧ g ∈ groups) ∨ (g.1 = row.topic ∧ ∃ messages,
      g.2 = messages ++ [messageOf row] ∧ ((row.topic, messages) ∈ groups ∨
        messages = [] ∧ row.topic ∉ groups.map Prod.fst)) := by
  induction groups with
  | nil =>
    cases mem_singleton.mp hg
    exact .inr ⟨rfl, [], rfl, .inr ⟨rfl, not_mem_nil⟩⟩
  | cons first rest ih =>
    obtain ⟨topic, messages⟩ := first
    rw [map_cons, nodup_cons] at hnodup
    rw [push] at hg
    split at hg
    · rename_i htopic
      subst htopic
      obtain hg | hg := mem_cons.mp hg
      · subst hg
        exact .inr ⟨rfl, messages, rfl, .inl mem_cons_self⟩
      · refine .inl ⟨fun heq => hnodup.1 ?_, mem_cons_of_mem _ hg⟩
        exact mem_map.mpr ⟨g, hg, heq⟩
    rename_i htopic
    obtain hg | hg := mem_cons.mp hg
    · subst hg
      exact .inl ⟨htopic, mem_cons_self⟩
    obtain ⟨hne, hg⟩ | ⟨heq, messages', hmessages, hcase⟩ := ih hnodup.2 hg
    · exact .inl ⟨hne, mem_cons_of_mem _ hg⟩
    refine .inr ⟨heq, messages', hmessages, ?_⟩
    refine hcase.imp (mem_cons_of_mem _) (And.imp_right fun hnew hmem => ?_)
    obtain hhead | hmem := mem_cons.mp hmem
    · exact htopic hhead.symm
    · exact hnew hmem

variable {topic : Topic} {p : Publication} {ps : List Publication} {k : Nat} {a : Label}

theorem mem_push_topics :
    topic ∈ (push row groups).map Prod.fst ↔ topic = row.topic ∨ topic ∈ groups.map Prod.fst := by
  induction groups with
  | nil => simp [push]
  | cons first rest ih =>
    rw [push]
    split
    · rename_i htopic
      simp [← htopic]
    · rw [map_cons, mem_cons, ih, map_cons, mem_cons, or_left_comm]

theorem push_topics_nodup (h : (groups.map Prod.fst).Nodup) :
    ((push row groups).map Prod.fst).Nodup := by
  induction groups with
  | nil => exact nodup_singleton _
  | cons first rest ih =>
    rw [map_cons, nodup_cons] at h
    rw [push]
    split
    · exact nodup_cons.mpr h
    rename_i htopic
    refine nodup_cons.mpr ⟨fun hmem => ?_, ih h.2⟩
    exact (mem_push_topics.mp hmem).elim htopic h.1

structure Grouped (rows : List OutboxRow) (groups : List (Topic × List Message)) : Prop where
  nodup : (groups.map Prod.fst).Nodup
  covers : ∀ row ∈ rows, row.topic ∈ groups.map Prod.fst
  group : ∀ g ∈ groups, publications g.1 g.2 =
    (rows.map publicationOf).filter fun p => p.topic = g.1

theorem Grouped.push (h : Grouped rows groups) (row : OutboxRow) :
    Grouped (rows ++ [row]) (push row groups) where
  nodup := push_topics_nodup h.nodup
  covers := by
    intro row' hrow'
    rw [mem_push_topics]
    obtain hrow' | hrow' := mem_append.mp hrow'
    · exact .inr (h.covers row' hrow')
    · exact .inl (congrArg OutboxRow.topic (mem_singleton.mp hrow'))
  group := by
    rintro ⟨topic, messages⟩ hg
    rw [map_append, filter_append]
    obtain ⟨hne, hg⟩ | ⟨htopic, old, hmessages, hold⟩ := mem_push h.nodup hg
    · rw [h.group _ hg]
      simp [publicationOf, Ne.symm hne]
    dsimp only at htopic hmessages
    subst htopic hmessages
    have hrest : publications row.topic old =
        (rows.map publicationOf).filter fun p => p.topic = row.topic := by
      obtain hold | ⟨rfl, hnew⟩ := hold
      · exact h.group _ hold
      refine (filter_eq_nil_iff.mpr fun p hp => ?_).symm
      obtain ⟨row', hrow', rfl⟩ := mem_map.mp hp
      intro heq
      have heq : row'.topic = row.topic := of_decide_eq_true heq
      exact hnew (heq ▸ h.covers row' hrow')
    rw [← hrest]
    simp [publications, publicationOf]

theorem grouped_byTopic (rows : List OutboxRow) : Grouped rows (byTopic rows) := by
  have hloop (done : List OutboxRow) (groups : List (Topic × List Message))
      (h : Grouped done groups) :
      Grouped (done ++ rows) (rows.foldl (fun groups row => push row groups) groups) := by
    induction rows generalizing done groups with
    | nil =>
      rw [append_nil]
      exact h
    | cons row rows ih =>
      have hnext := ih _ _ (h.push row)
      rwa [append_assoc] at hnext
  exact hloop [] [] ⟨nodup_nil, by simp, by simp⟩

/-! ## What a run keeps -/

/-- The order of `Entry.Before` on the publications of the rows. -/
def State.before (s : State) (p p' : Publication) : Prop :=
  ∃ e ∈ s.outbox, ∃ e' ∈ s.outbox,
    publicationOf e.row = p ∧ publicationOf e'.row = p' ∧ e.Before e'

def State.Known (s : State) (p : Publication) : Prop :=
  ∃ e ∈ s.outbox, publicationOf e.row = p

structure Ready (s : State) (ps : List Publication) : Prop where
  follows : Follows s.before (· ∈ s.log) ps
  known : ∀ p ∈ ps, s.Known p

def Phase.rest : Phase → List (Topic × List Message)
  | .sending rest | .waiting _ rest => rest
  | .failed => []

def Phase.Covers (s : State) (p : Publication) : Phase → Prop
  | .sending rest => p ∈ s.log ∨ ∃ g ∈ rest, p ∈ publications g.1 g.2
  | .waiting k rest => p ∈ s.log ∨ (∃ g ∈ rest, p ∈ publications g.1 g.2) ∨
      ∃ q, s.requests[k]? = some q ∧ p ∈ publications q.topic q.messages
  | .failed => True

structure TickOk (s : State) (tick : Tick) : Prop where
  rows : ∀ row ∈ tick.rows, ∃ e ∈ s.outbox, e.row = row
  ready : ∀ g ∈ tick.phase.rest, Ready s (publications g.1 g.2)
  covers : ∀ row ∈ tick.rows, tick.phase.Covers s (publicationOf row)

structure RequestOk (partitionOf : Topic → String → Nat) (s : State) (q : Request) : Prop where
  ready : Ready s (publications q.topic q.messages)
  written : ∀ m ∈ q.messages, partitionOf q.topic m.key ∈ q.written →
    Publication.mk q.topic m ∈ s.log

structure Inv (partitionOf : Topic → String → Nat) (s : State) : Prop where
  ofEvent : ∀ e ∈ s.outbox, Database.OfEvent e.row
  nodup : (s.outbox.map fun e => e.row.id).Nodup
  older : ∀ e ∈ s.outbox, e.tx < s.txs
  known : ∀ id ∈ s.sent, ∃ e ∈ s.outbox, e.row.id = id
  sent : ∀ e ∈ s.outbox, e.row.id ∈ s.sent → publicationOf e.row ∈ s.log
  ticks : ∀ r tick, s.ticks.get? r = some tick → TickOk s tick
  requests : ∀ q ∈ s.requests, RequestOk partitionOf s q
  log : Follows s.before (fun _ => False) s.log
  logged : ∀ p ∈ s.log, s.Known p

structure Extends (s s' : State) : Prop where
  rows : ∀ e ∈ s.outbox, e ∈ s'.outbox
  before : ∀ p, s.Known p → ∀ p', s'.before p' p → s.before p' p
  log : ∀ p ∈ s.log, p ∈ s'.log
  requests : ∀ (k : Nat) (q : Request), s.requests[k]? = some q →
    ∃ q', s'.requests[k]? = some q' ∧ q'.topic = q.topic ∧ q'.messages = q.messages

variable {partitionOf : Topic → String → Nat} {s s' : State} {r : Nat}

theorem Extends.known (h : Extends s s') (hp : s.Known p) : s'.Known p := by
  obtain ⟨e, he, hpub⟩ := hp
  exact ⟨e, h.rows e he, hpub⟩

theorem Ready.extend (h : Extends s s') (hps : Ready s ps) :
    Ready s' ps where
  follows := hps.follows.mono (fun p hp => h.before p (hps.known p hp)) h.log
  known p hp := h.known (hps.known p hp)

variable {phase : Phase}

theorem Phase.Covers.extend (h : Extends s s') (hp : phase.Covers s p) :
    phase.Covers s' p := by
  cases phase with
  | sending rest => exact hp.imp_left (h.log p)
  | waiting k rest =>
    refine hp.imp (h.log p) (Or.imp_right fun ⟨q, hq, hmem⟩ => ?_)
    obtain ⟨q', hq', htopic, hmessages⟩ := h.requests k q hq
    exact ⟨q', hq', by rw [htopic, hmessages]; exact hmem⟩
  | failed => trivial

theorem TickOk.extend (h : Extends s s') {tick : Tick} (htick : TickOk s tick) :
    TickOk s' tick where
  rows row hrow := by
    obtain ⟨e, he, heq⟩ := htick.rows row hrow
    exact ⟨e, h.rows e he, heq⟩
  ready g hg := (htick.ready g hg).extend h
  covers row hrow := (htick.covers row hrow).extend h

variable {q : Request}

theorem RequestOk.extend (h : Extends s s') (hq : RequestOk partitionOf s q) :
    RequestOk partitionOf s' q where
  ready := hq.ready.extend h
  written m hm hpartition := h.log _ (hq.written m hm hpartition)

theorem extends_of_outbox (houtbox : s'.outbox = s.outbox) (hlog : ∀ p ∈ s.log, p ∈ s'.log)
    (hrequests : ∀ (k : Nat) (q : Request), s.requests[k]? = some q →
      ∃ q', s'.requests[k]? = some q' ∧ q'.topic = q.topic ∧ q'.messages = q.messages) :
    Extends s s' where
  rows e he := houtbox ▸ he
  before p _ p' hp' := by
    rw [State.before, houtbox] at hp'
    exact hp'
  log := hlog
  requests := hrequests

section
variable (hs : Inv partitionOf s) {e e' : Entry} (he : e ∈ s.outbox) (he' : e' ∈ s.outbox)
include hs he he'

theorem Inv.entry_ext (hid : e.row.id = e'.row.id) : e = e' :=
  inj_on_of_nodup_map hs.nodup he he' hid

theorem Inv.publication_ext (hpub : publicationOf e.row = publicationOf e'.row) : e = e' := by
  have hpayload : e.row.payload = e'.row.payload := congrArg (fun p => p.message.value) hpub
  refine hs.entry_ext he he' ?_
  rw [(hs.ofEvent e he).id, (hs.ofEvent e' he').id, hpayload]

end

variable {rows : List OutboxRow}

theorem Inv.goto (hs : Inv partitionOf s) (htick : TickOk s ⟨rows, phase⟩) :
    Inv partitionOf (s.goto r rows phase) := by
  have hext : Extends s (s.goto r rows phase) :=
    extends_of_outbox rfl (fun _ h => h) fun k q h => ⟨q, h, rfl, rfl⟩
  refine ⟨hs.ofEvent, hs.nodup, hs.older, hs.known, hs.sent, ?_, ?_, hs.log, hs.logged⟩
  · intro r' tick htick'
    rw [State.goto, Table.get?_set] at htick'
    split at htick'
    · cases htick'
      exact htick.extend hext
    · exact (hs.ticks r' tick htick').extend hext
  · exact fun q hq => (hs.requests q hq).extend hext

theorem Inv.release (hs : Inv partitionOf s) {sent : List String}
    (hknown : ∀ id ∈ sent, ∃ e ∈ s.outbox, e.row.id = id)
    (hsent : ∀ e ∈ s.outbox, e.row.id ∈ sent → publicationOf e.row ∈ s.log) :
    Inv partitionOf { s with sent := sent, ticks := s.ticks.erase r } := by
  have hext : Extends s { s with sent := sent, ticks := s.ticks.erase r } :=
    extends_of_outbox rfl (fun _ h => h) fun k q h => ⟨q, h, rfl, rfl⟩
  refine ⟨hs.ofEvent, hs.nodup, hs.older, hknown, hsent, ?_, ?_, hs.log, hs.logged⟩
  · intro r' tick htick
    rw [Table.get?_erase] at htick
    split at htick <;> try cases htick
    exact (hs.ticks r' tick htick).extend hext
  · exact fun q hq => (hs.requests q hq).extend hext

/-! ## The steps -/

section
variable {createdAt : Nat} {events : List Envelope} (hs : Inv partitionOf s)
    (h : s.transact createdAt events = some s')
include hs h

theorem transact_spec :
    ∃ rows : List OutboxRow,
      s' = { s with
        outbox := s.outbox ++ rows.map fun row => ⟨row, createdAt, s.txs⟩, txs := s.txs + 1 } ∧
      (∀ row ∈ rows, Database.OfEvent row) ∧ (s'.outbox.map fun e => e.row.id).Nodup := by
  rw [State.transact] at h
  split at h <;> cases h
  rename_i db hdb
  obtain ⟨rows, hrows, hof, hnodup⟩ := Database.emitEvents_appends hdb
  have hdrop : db.outbox.drop s.outbox.length = rows := by
    rw [hrows]
    simp
  refine ⟨rows, by rw [hdrop], hof, ?_⟩
  have hids := hnodup (by simpa [Function.comp_def] using hs.nodup)
  rw [hrows] at hids
  rw [hdrop]
  simpa [Function.comp_def] using hids

theorem transaction_inv : Inv partitionOf s' := by
  obtain ⟨rows, rfl, hof, hnodup⟩ := transact_spec hs h
  have hold {e : Entry} (he : e ∈ s.outbox ++ rows.map fun row => ⟨row, createdAt, s.txs⟩) :
      e ∈ s.outbox ∨ Database.OfEvent e.row ∧ e.tx = s.txs := by
    obtain he | he := mem_append.mp he
    · exact .inl he
    · obtain ⟨row, hrow, rfl⟩ := mem_map.mp he
      exact .inr ⟨hof row hrow, rfl⟩
  have hofEvent : ∀ e ∈ s.outbox ++ rows.map fun row => ⟨row, createdAt, s.txs⟩,
      Database.OfEvent e.row := by
    intro e he
    obtain he | ⟨hof, -⟩ := hold he
    · exact hs.ofEvent e he
    · exact hof
  have hext : Extends s { s with
      outbox := s.outbox ++ rows.map fun row => ⟨row, createdAt, s.txs⟩, txs := s.txs + 1 } := by
    refine ⟨fun e he => mem_append_left _ he, ?_, fun _ hp => hp, fun k q hq => ⟨q, hq, rfl, rfl⟩⟩
    -- a row that is there already is younger than no new one
    rintro p ⟨e₀, he₀, rfl⟩ p' ⟨e', he', e, he, rfl, hpub, hbefore⟩
    have heq : e = e₀ := by
      refine inj_on_of_nodup_map hnodup he (mem_append_left _ he₀) ?_
      have hpayload : e.row.payload = e₀.row.payload := congrArg (fun p => p.message.value) hpub
      rw [(hofEvent e he).id, (hs.ofEvent e₀ he₀).id, hpayload]
    subst heq
    obtain he' | ⟨-, htx⟩ := hold he'
    · exact ⟨e', he', e, he₀, rfl, rfl, hbefore⟩
    have hlt := hs.older e he₀
    have hlt' := hbefore.1
    omega
  refine ⟨hofEvent, hnodup, ?_, ?_, ?_, fun r tick h => (hs.ticks r tick h).extend hext,
    fun q hq => (hs.requests q hq).extend hext, ?_, fun p hp => hext.known (hs.logged p hp)⟩
  · intro e he
    show e.tx < s.txs + 1
    obtain he | ⟨-, htx⟩ := hold he
    · exact Nat.lt_succ_of_lt (hs.older e he)
    · omega
  · intro id hid
    obtain ⟨e, he, heq⟩ := hs.known id hid
    exact ⟨e, hext.rows e he, heq⟩
  · intro e he hid
    obtain ⟨e₀, he₀, heq⟩ := hs.known _ hid
    have hsame : e₀ = e := inj_on_of_nodup_map hnodup (mem_append_left _ he₀) he heq
    subst hsame
    exact hs.sent e₀ he₀ hid
  · exact hs.log.mono (fun p hp => hext.before p (hs.logged p hp)) fun _ => id

end

variable {batch : Nat}

theorem select_ready {rows : List Entry} (hs : Inv partitionOf s) (hselects : s.selects batch rows)
    (hseen : Seen s (.select r rows)) :
    Ready s ((rows.map Entry.row).map publicationOf) := by
  obtain ⟨-, hsorted, -, hrows, hall⟩ := hselects
  constructor
  · intro past p rest hsplit p' hbefore
    obtain ⟨e', he', e, he, rfl, hpub, hbefore⟩ := hbefore
    rw [map_map] at hsplit
    obtain ⟨l₁, l₂, rfl, rfl, hrest⟩ := map_eq_append_iff.mp hsplit
    obtain ⟨x, l₃, rfl, rfl, -⟩ := map_eq_cons_iff.mp hrest
    have hx : x ∈ l₁ ++ x :: l₃ := mem_append_right _ mem_cons_self
    have heq : e = x := hs.publication_ext he (hrows x hx).1 hpub
    subst heq
    by_cases hlogged : publicationOf e'.row ∈ s.log
    · exact .inl hlogged
    obtain ⟨hfree, hcreated⟩ := hseen e hx e' he' hbefore hlogged
    have heligible : s.eligible e' = true := by
      refine decide_eq_true ⟨fun hsent => hlogged (hs.sent e' he' hsent), hfree⟩
    have hmem : e' ∈ l₁ ++ e :: l₃ := by
      by_contra hnot
      have hle := (hall e' he' heligible hnot).2 e hx
      omega
    refine .inr (mem_map.mpr ⟨e', ?_, rfl⟩)
    -- the batch is sorted, so the older row is not behind the younger one
    obtain hmem | hmem := mem_append.mp hmem
    · exact hmem
    obtain hmem | hmem := mem_cons.mp hmem
    · subst hmem
      exact absurd hcreated (Nat.lt_irrefl _)
    · have hle := rel_of_pairwise_cons (pairwise_append.mp hsorted).2.1 hmem
      omega
  · intro p hp
    obtain ⟨row, hrow, rfl⟩ := mem_map.mp hp
    obtain ⟨e, he, rfl⟩ := mem_map.mp hrow
    exact ⟨e, (hrows e he).1, rfl⟩

theorem Ready.filter (h : Ready s ps) {keep : Publication → Bool}
    (hkeep : ∀ p p', s.before p' p → keep p = true → keep p' = true) :
    Ready s (ps.filter keep) where
  follows := h.follows.filter hkeep
  known p hp := h.known p (mem_filter.mp hp).1

theorem select_inv {rows : List Entry} (hs : Inv partitionOf s) (hselects : s.selects batch rows)
    (hseen : Seen s (.select r rows)) :
    Inv partitionOf
      (s.goto r (rows.map Entry.row) (.sending (byTopic (rows.map Entry.row)))) := by
  have hready := select_ready hs hselects hseen
  have hgrouped := grouped_byTopic (rows.map Entry.row)
  refine hs.goto ⟨?_, ?_, ?_⟩
  · intro row hrow
    obtain ⟨e, he, rfl⟩ := mem_map.mp hrow
    exact ⟨e, (hselects.2.2.2.1 e he).1, rfl⟩
  · intro g hg
    rw [hgrouped.group g hg]
    refine hready.filter ?_
    rintro p p' ⟨e', -, e, -, rfl, rfl, hbefore⟩ htopic
    have htopic : e.row.topic = g.1 := of_decide_eq_true htopic
    exact decide_eq_true (hbefore.2.2.trans htopic)
  · intro row hrow
    obtain ⟨g, hg, htopic⟩ := mem_map.mp (hgrouped.covers row hrow)
    refine .inr ⟨g, hg, ?_⟩
    rw [hgrouped.group g hg, mem_filter]
    exact ⟨mem_map.mpr ⟨row, hrow, rfl⟩, decide_eq_true htopic.symm⟩

variable {rest : List (Topic × List Message)}

theorem send_inv {messages : List Message} (hs : Inv partitionOf s)
    (htick : TickOk s ⟨rows, .sending ((topic, messages) :: rest)⟩) :
    Inv partitionOf (State.goto { s with requests := s.requests ++ [⟨topic, messages, []⟩] } r rows
      (.waiting s.requests.length rest)) := by
  have hext : Extends s { s with requests := s.requests ++ [⟨topic, messages, []⟩] } := by
    refine extends_of_outbox rfl (fun _ h => h) fun k q hq => ⟨q, ?_, rfl, rfl⟩
    obtain ⟨hk, -⟩ := List.getElem?_eq_some_iff.mp hq
    rw [getElem?_append_left hk, hq]
  have hsent : Inv partitionOf { s with requests := s.requests ++ [⟨topic, messages, []⟩] } := by
    refine ⟨hs.ofEvent, hs.nodup, hs.older, hs.known, hs.sent,
      fun r tick h => (hs.ticks r tick h).extend hext, fun q hq => ?_, hs.log, hs.logged⟩
    obtain hq | rfl := mem_concat_cases hq
    · exact (hs.requests q hq).extend hext
    refine ⟨(htick.ready (topic, messages) mem_cons_self).extend hext, fun m _ hw => ?_⟩
    cases hw
  have htick' := htick.extend hext
  refine hsent.goto ⟨htick'.rows, fun g hg => htick'.ready g (mem_cons_of_mem _ hg), ?_⟩
  intro row hrow
  obtain hlog | ⟨g, hg, hmem⟩ := htick.covers row hrow
  · exact .inl hlog
  obtain hg | hg := mem_cons.mp hg
  · subst hg
    exact .inr (.inr ⟨⟨topic, messages, []⟩, by simp, hmem⟩)
  · exact .inr (.inl ⟨g, hg, hmem⟩)

theorem partition_ready (hs : Inv partitionOf s) (hq : RequestOk partitionOf s q) (p : Nat) :
    Ready s (publications q.topic (q.messagesFor partitionOf p)) := by
  have heq : publications q.topic (q.messagesFor partitionOf p) =
      (publications q.topic q.messages).filter fun x =>
        partitionOf x.topic x.message.key = p := by
    rw [publications, Request.messagesFor, publications, filter_map]
    rfl
  rw [heq]
  refine hq.ready.filter ?_
  rintro x x' ⟨e', he', e, he, rfl, rfl, hbefore⟩ hp
  have hkey : e'.row.msgKey = e.row.msgKey := by
    rw [(hs.ofEvent e' he').msgKey, (hs.ofEvent e he).msgKey, ← (hs.ofEvent e' he').aggregateId,
      ← (hs.ofEvent e he).aggregateId, hbefore.2.1]
  have hp : partitionOf e.row.topic e.row.msgKey = p := of_decide_eq_true hp
  refine decide_eq_true ?_
  show partitionOf e'.row.topic e'.row.msgKey = p
  rw [hkey, hbefore.2.2, hp]

theorem arrive_inv {p : Nat} (hs : Inv partitionOf s) (hq : s.requests[k]? = some q) :
    Inv partitionOf (s.append partitionOf k p q) := by
  have hmem : q ∈ s.requests := mem_of_getElem? hq
  have hready := partition_ready hs (hs.requests q hmem) p
  have hext : Extends s (s.append partitionOf k p q) := by
    refine extends_of_outbox rfl (fun x hx => mem_append_left _ hx) fun k' q' hq' => ?_
    obtain ⟨hk, -⟩ := List.getElem?_eq_some_iff.mp hq
    by_cases hkk : k = k'
    · subst hkk
      cases hq.symm.trans hq'
      exact ⟨_, getElem?_set_self hk, rfl, rfl⟩
    · exact ⟨q', (getElem?_set_ne hkk).trans hq', rfl, rfl⟩
  refine ⟨hs.ofEvent, hs.nodup, hs.older, hs.known,
    fun e he hsent => hext.log _ (hs.sent e he hsent),
    fun r tick h => (hs.ticks r tick h).extend hext, fun q' hq' => ?_, ?_, fun x hx => ?_⟩
  · obtain hq' | rfl := mem_or_eq_of_mem_set hq'
    · exact (hs.requests q' hq').extend hext
    refine ⟨(hs.requests q hmem).ready.extend hext, fun m hm hw => ?_⟩
    obtain hw | hw := mem_append.mp hw
    · exact hext.log _ ((hs.requests q hmem).written m hm hw)
    have hp : partitionOf q.topic m.key = p := mem_singleton.mp hw
    refine mem_append_right _ (mem_map.mpr ⟨m, ?_, rfl⟩)
    exact mem_filter.mpr ⟨hm, decide_eq_true hp⟩
  · refine hs.log.append ?_
    exact hready.follows.mono (fun _ _ _ h => h) fun x hx => .inr hx
  · obtain hx | hx := mem_append.mp hx
    · exact hs.logged x hx
    · exact hready.known x hx

theorem acked_inv (hs : Inv partitionOf s) (htick : TickOk s ⟨rows, .waiting k rest⟩)
    (hq : s.requests[k]? = some q)
    (hwritten : ∀ m ∈ q.messages, partitionOf q.topic m.key ∈ q.written) :
    Inv partitionOf (s.goto r rows (.sending rest)) := by
  refine hs.goto ⟨htick.rows, htick.ready, fun row hrow => ?_⟩
  obtain hlog | hgroup | ⟨q', hq', hmem⟩ := htick.covers row hrow
  · exact .inl hlog
  · exact .inr hgroup
  cases hq.symm.trans hq'
  obtain ⟨m, hm, heq⟩ := mem_map.mp hmem
  have hlogged := (hs.requests q (mem_of_getElem? hq)).written m hm (hwritten m hm)
  exact .inl (heq ▸ hlogged)

theorem failed_inv (hs : Inv partitionOf s) (htick : TickOk s ⟨rows, phase⟩) :
    Inv partitionOf (s.goto r rows .failed) :=
  hs.goto ⟨htick.rows, fun _ hg => (not_mem_nil hg).elim, fun _ _ => trivial⟩

theorem update_inv (hs : Inv partitionOf s) (htick : TickOk s ⟨rows, .sending []⟩) :
    Inv partitionOf
      { s with sent := s.sent ++ rows.map OutboxRow.id, ticks := s.ticks.erase r } := by
  refine hs.release (fun id hid => ?_) fun e he hid => ?_
  · obtain hid | hid := mem_append.mp hid
    · exact hs.known id hid
    · obtain ⟨row, hrow, rfl⟩ := mem_map.mp hid
      obtain ⟨e, he, rfl⟩ := htick.rows row hrow
      exact ⟨e, he, rfl⟩
  obtain hid | hid := mem_append.mp hid
  · exact hs.sent e he hid
  obtain ⟨row, hrow, heq⟩ := mem_map.mp hid
  obtain ⟨e', he', rfl⟩ := htick.rows row hrow
  cases hs.entry_ext he' he heq
  obtain hlog | ⟨g, hg, -⟩ := htick.covers _ hrow
  · exact hlog
  · cases hg

theorem next_inv (hs : Inv partitionOf s) (htick : TickOk s ⟨rows, phase⟩)
    (h : s.next partitionOf r rows phase a = some s') :
    Inv partitionOf s' := by
  rw [State.next.eq_def] at h
  split at h <;> try cases h
  · exact send_inv hs htick
  · split at h
    · cases h
    rename_i q hq
    split at h <;> cases h
    rename_i hwritten
    exact acked_inv hs htick hq hwritten
  · exact failed_inv hs htick
  · split at h <;> cases h
    · exact update_inv hs htick
    · exact failed_inv hs htick
  all_goals exact hs.release hs.known hs.sent

theorem step_inv (hs : Inv partitionOf s) (hseen : Seen s a)
    (h : step batch partitionOf s a = some s') : Inv partitionOf s' := by
  have hrelay {r : Nat} (h : (match s.ticks.get? r with
      | none => none
      | some tick => s.next partitionOf r tick.rows tick.phase a) = some s') :
      Inv partitionOf s' := by
    cases hget : s.ticks.get? r with
    | none =>
      rw [hget] at h
      cases h
    | some tick =>
      rw [hget] at h
      exact next_inv hs (hs.ticks r tick hget) h
  cases a with
  | transaction createdAt events => exact transaction_inv hs h
  | select r rows =>
    simp only [step, Option.ite_none_right_eq_some] at h
    obtain ⟨⟨-, hselects⟩, h⟩ := h
    cases h
    exact select_inv hs hselects hseen
  | arrive k p =>
    rw [step] at h
    split at h
    · cases h
    rename_i q hq
    split at h <;> cases h
    exact arrive_inv hs hq
  | send r | acked r | sendFailed r | update r ok | rollback r | crash r => exact hrelay h

theorem inv_initial (partitionOf : Topic → String → Nat) : Inv partitionOf initial where
  ofEvent := by simp [initial]
  nodup := List.nodup_nil
  older := by simp [initial]
  known := by simp [initial]
  sent := by simp [initial]
  ticks := by
    intro r tick h
    cases h
  requests := by simp [initial]
  log := follows_nil
  logged := by simp [initial]

end

/-- In every run of any number of relays in which each select sees the older rows of the order
and topic, an event is published after all events that were committed for its order and topic
before it. -/
theorem published_in_commit_order (batch : Nat) (partitionOf : Topic → String → Nat)
    {as : List Label} {s : State} (hrun : run (step batch partitionOf) initial as = some s)
    (hseen : RunMeets (step batch partitionOf) Seen initial as)
    {past rest : List Publication} {e e' : Entry} (he : e ∈ s.outbox) (he' : e' ∈ s.outbox)
    (hbefore : e.Before e') (hlog : s.log = past ++ publicationOf e'.row :: rest) :
    publicationOf e.row ∈ past := by
  have hs : Inv partitionOf s :=
    run_invariant_of_meets (fun s a s' => step_inv) (inv_initial partitionOf) hseen hrun
  have hfollows := hs.log past _ rest hlog (publicationOf e.row)
    ⟨e, he, e', he', rfl, rfl, hbefore⟩
  exact hfollows.resolve_left id

/-! ## The two events of the kitchen -/

def preparing : Envelope := makeEvent "e1" "12:00" .foodPreparing "order-1" {}

def ready : Envelope := makeEvent "e2" "12:01" .foodReady "order-1" {}

def preparingRow : Entry :=
  ⟨⟨"e1", "order-1", .restaurantEvents, "order-1", preparing⟩, 1, 0⟩

def readyRow : Entry :=
  ⟨⟨"e2", "order-1", .restaurantEvents, "order-1", ready⟩, 2, 1⟩

theorem published_in_commit_order_one_relay :
    ∃ s, run (step 100 fun _ _ => 0) initial
        [.transaction 1 [preparing], .select 1 [preparingRow], .send 1, .arrive 0 0, .acked 1,
          .transaction 2 [ready], .update 1 true, .select 1 [readyRow], .send 1, .arrive 1 0] =
        some s ∧
      s.log = [publicationOf preparingRow.row] ++ publicationOf readyRow.row :: [] ∧
      publicationOf preparingRow.row ∈ [publicationOf preparingRow.row] := by
  refine exists_some_imp (A := fun s => preparingRow ∈ s.outbox ∧ readyRow ∈ s.outbox ∧
    s.log = [publicationOf preparingRow.row] ++ publicationOf readyRow.row :: [])
    (by decide +kernel) fun s hrun ⟨he, he', hlog⟩ => ?_
  exact ⟨hlog, published_in_commit_order 100 (fun _ _ => 0) hrun (by decide +kernel) he he'
    (by decide) hlog⟩

/-- The first relay has the older event and has not sent it when the second relay selects. -/
theorem second_relay_overtakes :
    preparingRow.Before readyRow ∧ (run (step 100 fun _ _ => 0) initial
        [.transaction 1 [preparing], .select 1 [preparingRow], .transaction 2 [ready],
          .select 2 [readyRow], .send 2, .arrive 0 0, .acked 2, .update 2 true, .send 1,
          .arrive 1 0, .acked 1, .update 1 true]).map (fun s => (s.outbox, s.log)) =
        some ([preparingRow, readyRow],
          [publicationOf readyRow.row, publicationOf preparingRow.row]) := by
  decide +kernel

end GoServices.FoodDelivery.Relay
