/-
The Kafka consumer loop of `platform/consumer`, with crashes and restarts.

`Run` fetches a message, processes it in one database transaction and commits its offset.
-/
import GoServices.Base.Run
import GoServices.Base.Table

namespace GoServices.KafkaEda

open List

structure Envelope where
  eventID : String
  eventType : String
  schemaVersion : Int
  data : String

/-- What `json.Unmarshal` makes of a message's bytes. -/
abbrev Message := Except String Envelope

structure Config where
  topic : String
  consumerName : String

/-- The rows of `platform.processed_events` beside the state the handler writes. -/
structure Database (δ : Type) where
  processed : Table (String × String) Unit
  state : δ

/-- A handler runs inside the transaction: an error discards what it wrote. -/
abbrev Handler (δ : Type) := δ → Envelope → Except String δ

/-! ## One message -/

inductive ProcessError
  | begin (cause : String)
  | record (cause : String)
  | handler (cause : String)
  | commit (cause : String)

inductive TxFault
  | none
  | begin (cause : String)
  | record (cause : String)
  | handler (cause : String)
  | commit (cause : String)
  | answerLost (cause : String)

section
variable {δ : Type} (handler : Handler δ) (consumerName : String)

def transaction (db : Database δ) (e : Envelope) (fault : TxFault) :
    Except String (Database δ) :=
  match db.processed.get? (consumerName, e.eventID), fault with
  | some (), _ => .ok db
  | none, .handler cause => .error cause
  | none, _ =>
    match handler db.state e with
    | .error cause => .error cause
    | .ok state =>
      .ok { processed := db.processed.set (consumerName, e.eventID) (), state := state }

/-- The database after `process`, whether the transaction was committed, and what
`process` returns. -/
def process (db : Database δ) (e : Envelope) (fault : TxFault) :
    Database δ × Bool × Except ProcessError Unit :=
  match fault, transaction handler consumerName db e fault with
  | .begin cause, _ => (db, false, .error (.begin cause))
  | .record cause, _ => (db, false, .error (.record cause))
  | _, .error cause => (db, false, .error (.handler cause))
  | .commit cause, .ok _ => (db, false, .error (.commit cause))
  | .answerLost cause, .ok db' => (db', true, .error (.commit cause))
  | _, .ok db' => (db', true, .ok ())

end

/-! ## The loop -/

inductive RunError
  | fetch (topic cause : String)
  | decode (topic : String) (offset : Nat) (cause : String)
  | invalid (topic : String) (offset : Nat)
  | commit (topic : String) (offset : Nat) (cause : String)

inductive Pc
  | fetch
  | process (offset : Nat) (event : Envelope)
  | sleep
  | commit (offset : Nat)

structure Reader where
  /-- The offset the next `FetchMessage` returns. -/
  position : Nat
  pc : Pc
  passed : List Nat

inductive Loop
  | down
  | running (r : Reader)
  | returned (result : Option RunError)

structure State (δ : Type) where
  partition : List Message
  committed : Nat
  db : Database δ
  loop : Loop

inductive CommitFault
  | none
  | lost (cause : String)
  | answerLost (cause : String)

inductive Label
  | produce (m : Message)
  | start
  | fetch
  /-- `FetchMessage` fails, with `none` when the context is cancelled. -/
  | fetchError (cause : Option String)
  | process (fault : TxFault)
  | wake
  | cancel
  | commit (fault : CommitFault)
  | crash

def Envelope.valid (e : Envelope) : Bool :=
  !(e.eventID = "" || e.eventType = "" || e.schemaVersion ≠ 1)

section
variable {δ : Type} (cfg : Config) (handler : Handler δ)

def receive (r : Reader) : Message → Loop
  | .error cause => .returned (some (.decode cfg.topic r.position cause))
  | .ok e =>
    if e.valid then .running { r with position := r.position + 1, pc := .process r.position e }
    else .returned (some (.invalid cfg.topic r.position))

/-- The loop after `process` of the message at `offset`. -/
def afterProcess (r : Reader) (offset : Nat) : Except ProcessError Unit → Loop
  | .ok () => .running { r with pc := .commit offset }
  | .error _ => .running { r with pc := .sleep, passed := r.passed ++ [offset] }

def step (s : State δ) (a : Label) : Option (State δ) :=
  match a, s.loop with
  | .produce m, _ => some { s with partition := s.partition ++ [m] }
  | .crash, _ => some { s with loop := .down }
  | .start, .running _ => none
  | .start, _ =>
    some { s with loop := .running { position := s.committed, pc := .fetch, passed := [] } }
  | .fetch, .running ⟨position, .fetch, passed⟩ =>
    match s.partition[position]? with
    | none => none
    | some m => some { s with loop := receive cfg ⟨position, .fetch, passed⟩ m }
  | .fetchError cause, .running ⟨_, .fetch, _⟩ =>
    some { s with loop := .returned (cause.map (.fetch cfg.topic)) }
  | .process fault, .running ⟨position, .process offset e, passed⟩ =>
    let result := process handler cfg.consumerName s.db e fault
    some { s with
      db := result.1
      loop := afterProcess ⟨position, .process offset e, passed⟩ offset result.2.2 }
  | .wake, .running ⟨position, .sleep, passed⟩ =>
    some { s with loop := .running ⟨position, .fetch, passed⟩ }
  | .cancel, .running ⟨_, .sleep, _⟩ => some { s with loop := .returned none }
  | .commit fault, .running ⟨position, .commit offset, passed⟩ =>
    match fault with
    | .none =>
      some { s with committed := offset + 1, loop := .running ⟨position, .fetch, passed⟩ }
    | .lost cause =>
      some { s with loop := .returned (some (.commit cfg.topic offset cause)) }
    | .answerLost cause =>
      some { s with
        committed := offset + 1
        loop := .returned (some (.commit cfg.topic offset cause)) }
  | _, _ => none

def handled (s : State δ) : Label → List Nat
  | .process fault =>
    match s.loop with
    | .running ⟨_, .process offset e, _⟩ =>
      if (process handler cfg.consumerName s.db e fault).2.1 then [offset] else []
    | _ => []
  | _ => []

def passesNothing (p : State δ × List Nat) : Label → Prop
  | .commit .none | .commit (.answerLost _) =>
    match p.1.loop with
    | .running r => ∀ o ∈ r.passed, o ∈ p.2
    | _ => True
  | _ => True

instance (p : State δ × List Nat) (a : Label) : Decidable (passesNothing p a) := by
  unfold passesNothing
  split
  · split <;> infer_instance
  · split <;> infer_instance
  · infer_instance

def Covered (p : State δ × List Nat) : Prop := ∀ o < p.1.committed, o ∈ p.2

end

/-! ## What the steps do -/

section
variable {δ : Type} {cfg : Config} {handler : Handler δ} {e : Envelope} {passed : List Nat}

theorem transaction_spec {name : String} {db db' : Database δ} {fault : TxFault}
    (h : transaction handler name db e fault = .ok db') :
    db'.processed.get? (name, e.eventID) = some () ∧
      ∀ k, db.processed.get? k = some () → db'.processed.get? k = some () := by
  unfold transaction at h
  split at h <;> try cases h
  · rename_i hrow
    exact ⟨hrow, fun _ hk => hk⟩
  split at h <;> cases h
  refine ⟨Table.get?_set_self .., fun k hk => ?_⟩
  rw [Table.get?_set]
  split
  · rfl
  · exact hk

theorem process_spec (handler : Handler δ) (name : String) (db : Database δ) (e : Envelope)
    (fault : TxFault) :
    let r := process handler name db e fault
    (r.2.2 = .ok () → r.2.1 = true) ∧
      (r.2.1 = true → r.1.processed.get? (name, e.eventID) = some ()) ∧
      ∀ k, db.processed.get? k = some () → r.1.processed.get? k = some () := by
  unfold process
  split
  all_goals try exact ⟨nofun, nofun, fun _ hk => hk⟩
  · rename_i htx
    exact ⟨nofun, fun _ => (transaction_spec htx).1, (transaction_spec htx).2⟩
  · rename_i htx
    exact ⟨fun _ => rfl, fun _ => (transaction_spec htx).1, (transaction_spec htx).2⟩

def TxFault.commits : TxFault → Bool
  | .none | .answerLost _ => true
  | _ => false

theorem process_cases (handler : Handler δ) (name : String) (db : Database δ) (e : Envelope)
    (fault : TxFault) :
    let db' := (process handler name db e fault).1
    (db' = db ∧ (fault.commits = true → db.processed.get? (name, e.eventID) = some () ∨
        ∃ cause, handler db.state e = .error cause)) ∨
      (fault.commits = true ∧ db.processed.get? (name, e.eventID) = none ∧
        ∃ state, handler db.state e = .ok state ∧
          db' = { processed := db.processed.set (name, e.eventID) (), state := state }) := by
  cases hrow : db.processed.get? (name, e.eventID) with
  | some u =>
    have htx : transaction handler name db e fault = .ok db := by simp [transaction, hrow]
    refine .inl ⟨?_, fun _ => .inl rfl⟩
    unfold process
    rw [htx]
    cases fault <;> rfl
  | none =>
    cases hstate : handler db.state e with
    | error cause =>
      refine .inl ⟨?_, fun _ => .inr ⟨cause, rfl⟩⟩
      unfold process transaction
      cases fault <;> simp [hrow, hstate]
    | ok state =>
      cases fault with
      | begin cause | record cause => exact .inl ⟨rfl, nofun⟩
      | handler cause | commit cause =>
        refine .inl ⟨?_, nofun⟩
        simp [process, transaction, hrow, hstate]
      | none | answerLost cause =>
        refine .inr ⟨rfl, rfl, state, rfl, ?_⟩
        simp [process, transaction, hrow, hstate]

/-- From the committed offset up to `limit` the loop has been through every message. -/
def Through (p : State δ × List Nat) (passed : List Nat) (limit : Nat) : Prop :=
  p.1.committed ≤ limit ∧ ∀ o, p.1.committed ≤ o → o < limit → o ∈ p.2 ∨ o ∈ passed

def Reader.Sound (p : State δ × List Nat) (r : Reader) : Prop :=
  (∀ o ∈ r.passed, o < r.position) ∧ match r.pc with
    | .fetch | .sleep => Through p r.passed r.position
    | .process offset e =>
      offset + 1 = r.position ∧ p.1.partition[offset]? = some (.ok e) ∧ Through p r.passed offset
    | .commit offset => offset + 1 = r.position ∧ offset ∈ p.2 ∧ Through p r.passed offset

structure Sound (cfg : Config) (p : State δ × List Nat) : Prop where
  recorded : ∀ o ∈ p.2, ∃ e, p.1.partition[o]? = some (.ok e) ∧
    p.1.db.processed.get? (cfg.consumerName, e.eventID) = some ()
  reader : ∀ r, p.1.loop = .running r → r.Sound p

variable {s : State δ} {log : List Nat}

theorem through_next {s' : State δ} {log' passed' : List Nat} {limit : Nat}
    (h : Through (s, log) passed limit) (hs : s'.committed = s.committed)
    (hlog : ∀ o ∈ log, o ∈ log') (hpassed : ∀ o ∈ passed, o ∈ passed')
    (hnext : limit ∈ log' ∨ limit ∈ passed') : Through (s', log') passed' (limit + 1) := by
  obtain ⟨hle, hdone⟩ := h
  have hle : s'.committed ≤ limit := hs ▸ hle
  refine ⟨Nat.le_succ_of_le hle, fun o hlo hhi => ?_⟩
  rcases Nat.lt_succ_iff_lt_or_eq.mp hhi with hlt | rfl
  · exact (hdone o (hs ▸ hlo) hlt).imp (hlog o) (hpassed o)
  · exact hnext

theorem through_committed {position : Nat} (h : s.committed = position) :
    Through (s, log) passed position :=
  ⟨h.le, fun _ hlo hhi => absurd (h ▸ hlo) (Nat.not_le.mpr hhi)⟩

theorem getElem?_append_of_some {α : Type} {l : List α} {i : Nat} {a : α} (h : l[i]? = some a)
    (b : α) : (l ++ [b])[i]? = some a :=
  (getElem?_append_left (List.getElem?_eq_some_iff.mp h).1).trans h

theorem sound_produce (hp : Sound cfg (s, log)) (m : Message) :
    Sound cfg ({ s with partition := s.partition ++ [m] }, log) where
  recorded o ho := by
    obtain ⟨e, hget, hrow⟩ := hp.recorded o ho
    exact ⟨e, getElem?_append_of_some hget m, hrow⟩
  reader r hr := by
    obtain ⟨hpassed, hpc⟩ := hp.reader r hr
    refine ⟨hpassed, ?_⟩
    cases hrpc : r.pc with
    | process offset e =>
      rw [hrpc] at hpc
      exact ⟨hpc.1, getElem?_append_of_some hpc.2.1 m, hpc.2.2⟩
    | _ =>
      rw [hrpc] at hpc
      exact hpc

theorem sound_stopped (hp : Sound cfg (s, log)) (committed : Nat) {loop : Loop}
    (h : ∀ r, loop ≠ .running r) :
    Sound cfg ({ s with committed := committed, loop := loop }, log) where
  recorded := hp.recorded
  reader r hr := absurd hr (h r)

variable {r : Reader}

theorem sound_running (hp : Sound cfg (s, log)) (committed : Nat)
    (h : r.Sound ({ s with committed := committed, loop := .running r }, log)) :
    Sound cfg ({ s with committed := committed, loop := .running r }, log) where
  recorded := hp.recorded
  reader r' hr' := by
    cases hr'
    exact h

theorem sound_receive (hp : Sound cfg (s, log)) (hloop : s.loop = .running r) (hpc : r.pc = .fetch)
    {m : Message} (hm : s.partition[r.position]? = some m) :
    Sound cfg ({ s with loop := receive cfg r m }, log) := by
  obtain ⟨hpassed, hfetch⟩ := hp.reader r hloop
  rw [hpc] at hfetch
  cases m with
  | error cause => exact sound_stopped hp s.committed nofun
  | ok e =>
    rw [receive]
    split
    · refine sound_running hp s.committed ⟨fun o ho => Nat.lt_succ_of_lt (hpassed o ho), ?_⟩
      exact ⟨rfl, hm, hfetch⟩
    · exact sound_stopped hp s.committed nofun

theorem sound_process (hp : Sound cfg (s, log)) (hloop : s.loop = .running r) {offset : Nat}
    (hpc : r.pc = .process offset e) (fault : TxFault) :
    let result := process handler cfg.consumerName s.db e fault
    Sound cfg
      ({ s with db := result.1, loop := afterProcess r offset result.2.2 },
        log ++ if result.2.1 then [offset] else []) := by
  intro result
  obtain ⟨hpassed, hprocess⟩ := hp.reader r hloop
  rw [hpc] at hprocess
  obtain ⟨hpos, hget, hthrough⟩ := hprocess
  obtain ⟨hok, hrow, hkeep⟩ := process_spec handler cfg.consumerName s.db e fault
  constructor
  · intro o ho
    rcases mem_append.mp ho with ho | ho
    · obtain ⟨e', hget', hrow'⟩ := hp.recorded o ho
      exact ⟨e', hget', hkeep _ hrow'⟩
    split at ho
    · rename_i hcommitted
      cases mem_singleton.mp ho
      exact ⟨e, hget, hrow hcommitted⟩
    · cases ho
  intro r' hr'
  have hlog : ∀ o ∈ log, o ∈ log ++ if result.2.1 then [offset] else [] :=
    fun o ho => mem_append_left _ ho
  cases hres : result.2.2 with
  | ok u =>
    have hcommitted : result.2.1 = true := hok hres
    rw [hres, afterProcess] at hr'
    cases hr'
    refine ⟨hpassed, hpos, ?_, hthrough.1, fun o hlo hhi => ?_⟩
    · rw [hcommitted]
      exact mem_concat_self
    · exact (hthrough.2 o hlo hhi).imp_left (hlog o)
  | error err =>
    rw [hres, afterProcess] at hr'
    cases hr'
    refine ⟨fun o ho => ?_, ?_⟩
    · obtain ho | heq := mem_concat_cases ho
      · exact hpassed o ho
      · cases heq
        show offset < r.position
        omega
    · rw [← hpos]
      exact through_next hthrough rfl hlog (fun o ho => mem_append_left _ ho)
        (.inr mem_concat_self)

variable {a : Label}

theorem sound_step {p q : State δ × List Nat} (hp : Sound cfg p)
    (h : logged (step cfg handler) (handled cfg handler) p a = some q) : Sound cfg q := by
  obtain ⟨s, log⟩ := p
  obtain ⟨s', log'⟩ := q
  obtain ⟨hstep, hlog⟩ := logged_eq_some.mp h
  subst hlog
  revert hstep
  fun_cases step cfg handler s a <;> rintro ⟨⟩
  case case8 =>
    rename_i fault position offset e passed hloop _
    simp only [handled, hloop]
    exact sound_process hp hloop rfl fault
  all_goals simp only [handled, append_nil]
  · exact sound_produce hp _
  · exact sound_stopped hp _ nofun
  · exact sound_running hp s.committed ⟨nofun, through_committed rfl⟩
  · exact sound_receive hp ‹_› rfl ‹_›
  · exact sound_stopped hp _ nofun
  · obtain ⟨hpassed, hthrough⟩ := hp.reader _ ‹_›
    exact sound_running hp s.committed ⟨hpassed, hthrough⟩
  · exact sound_stopped hp _ nofun
  · obtain ⟨hpassed, hpos, -⟩ := hp.reader _ ‹_›
    exact sound_running hp _ ⟨hpassed, through_committed hpos⟩
  all_goals exact sound_stopped hp _ nofun

/-! ## Coverage -/

theorem handled_ge (hp : Sound cfg (s, log)) {o : Nat} (ho : o ∈ handled cfg handler s a) :
    s.committed ≤ o := by
  unfold handled at ho
  split at ho
  · split at ho
    · rename_i position offset e passed hloop
      obtain ⟨-, -, -, hthrough⟩ := hp.reader _ hloop
      split at ho
      · cases mem_singleton.mp ho
        exact hthrough.1
      · cases ho
    · cases ho
  · cases ho

theorem committed_step {s' : State δ} (h : step cfg handler s a = some s') :
    (s'.committed = s.committed ∧ ∀ log, passesNothing (s, log) a) ∨
      ∃ position offset passed, s.loop = .running ⟨position, .commit offset, passed⟩ ∧
        s'.committed = offset + 1 ∧ (handled cfg handler s a = []) ∧
        ∀ log, passesNothing (s, log) a ↔ ∀ o ∈ passed, o ∈ log := by
  revert h
  fun_cases step cfg handler s a <;> rintro ⟨⟩
  case case11 | case13 =>
    have hloop := ‹s.loop = _›
    refine .inr ⟨_, _, _, hloop, rfl, rfl, fun log => ?_⟩
    simp only [passesNothing, hloop]
  all_goals exact .inl ⟨rfl, fun _ => trivial⟩

theorem covered_step {p q : State δ × List Nat} (hp : Sound cfg p)
    (h : logged (step cfg handler) (handled cfg handler) p a = some q) :
    Covered q ↔ Covered p ∧ passesNothing p a := by
  obtain ⟨s, log⟩ := p
  obtain ⟨s', log'⟩ := q
  obtain ⟨hstep, hlog⟩ := logged_eq_some.mp h
  dsimp only at hstep hlog
  subst hlog
  rcases committed_step hstep with
    ⟨hsame, hok⟩ | ⟨position, offset, passed, hloop, hnew, hnone, hok⟩
  · simp only [Covered, hsame, hok, and_true]
    refine forall₂_congr fun o ho => ?_
    rw [mem_append, or_iff_left]
    exact fun hmem => absurd (handled_ge hp hmem) (Nat.not_le.mpr ho)
  obtain ⟨hpassed, hpos, hdone, hle, hthrough⟩ := hp.reader _ hloop
  rw [hok, hnone, append_nil]
  simp only [Covered, hnew]
  constructor
  · intro h
    exact ⟨fun o ho => h o (by dsimp only at hle; omega), fun o ho => h o (hpos ▸ hpassed o ho)⟩
  rintro ⟨hbelow, hall⟩ o ho
  rcases Nat.lt_or_ge o s.committed with hlt | hge
  · exact hbelow o hlt
  rcases Nat.lt_succ_iff_lt_or_eq.mp ho with hlt | rfl
  · exact (hthrough o hge hlt).elim (fun h => h) (hall o)
  · exact hdone

def initial (state : δ) : State δ :=
  { partition := [], committed := 0, db := { processed := .empty, state := state }, loop := .down }

theorem sound_initial (state : δ) : Sound cfg (initial state, []) where
  recorded _ ho := nomatch ho
  reader _ hr := nomatch hr

/-- Along every run the rows of the committed transactions are in the database, and
every message below the committed offset has had its transaction committed if and only if
no commit that took effect covered a message the loop had failed on. -/
theorem covered_iff {state : δ} {as : List Label} {s : State δ} {log : List Nat}
    (hrun : run (logged (step cfg handler) (handled cfg handler)) (initial state, []) as =
      some (s, log)) :
    (Covered (s, log) ↔ RunMeets (logged (step cfg handler) (handled cfg handler)) passesNothing
        (initial state, []) as) ∧
    ∀ o ∈ log, ∃ e, s.partition[o]? = some (.ok e) ∧
      s.db.processed.get? (cfg.consumerName, e.eventID) = some () := by
  have hinv := run_invariant (fun _ _ _ hp h => sound_step hp h) (sound_initial state) hrun
  refine ⟨?_, hinv.recorded⟩
  rw [run_iff_meets (P := Covered) (fun _ _ _ hp h => sound_step hp h)
    (fun _ _ _ hp h => covered_step hp h) (sound_initial state) hrun]
  exact and_iff_right fun o ho => absurd ho (Nat.not_lt_zero o)

end

def demoConfig : Config := { topic := "ride.requested.v1", consumerName := "dispatch" }

def demoHandler : Handler Nat := fun n _ => .ok (n + 1)

def demoEvent (id : String) : Message :=
  .ok { eventID := id, eventType := "ride.requested", schemaVersion := 1, data := "" }

theorem covered_iff_restarted :
    ∃ p ∈ run (logged (step demoConfig demoHandler) (handled demoConfig demoHandler))
        (initial 0, [])
        [.produce (demoEvent "evt-1"), .start, .fetch, .process (.begin "timeout"), .crash, .start,
          .fetch, .process .none, .commit .none],
      p.1.committed = 1 ∧ Covered p := by
  refine exists_some_imp (A := fun p => p.1.committed = 1) (by decide) fun p hrun hcommitted => ?_
  exact ⟨hcommitted, (covered_iff hrun).1.mpr (by decide)⟩

/-- The first event fails, the loop goes on with the second and commits it. -/
theorem failed_event_skipped :
    ∃ p ∈ run (logged (step demoConfig demoHandler) (handled demoConfig demoHandler))
        (initial 0, [])
        [.produce (demoEvent "evt-1"), .produce (demoEvent "evt-2"), .start, .fetch,
          .process (.begin "timeout"), .wake, .fetch, .process .none, .commit .none],
      p.1.committed = 2 ∧ 0 ∉ p.2 ∧ p.1.db.processed.get? ("dispatch", "evt-1") = none := by
  decide

end GoServices.KafkaEda
