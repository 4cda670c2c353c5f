/-
When the effects of an event are committed once.

The transactions of a handler and the mark that the event is processed are committed apart.
-/
import GoServices.FoodDelivery.Consumer

namespace GoServices.FoodDelivery

open List Table Option

def Pc.attempt : Pc → Option Nat
  | .handling _ k _ | .marking _ k => some k
  | _ => none

def Pc.live : Pc → Option Envelope
  | .handling e .. | .marking e _ | .backoff e _ => some e
  | _ => none

def Delivery.key (dl : Delivery) : Option (String × String) :=
  dl.pc.live.map fun e => (dl.group, e.id)

def Commit.key (c : Commit) : String × String := (c.group, c.eventId)

def Commit.Running (s : State) (c : Commit) : Prop :=
  (s.deliveries.get? c.delivery).bind (fun dl => dl.pc.attempt) = some c.attempt
  deriving Decidable

def aborts (s : State) (a : Label) (d : Nat) : Bool :=
  match a with
  | .crash process => (s.deliveries.get? d).any fun dl => dl.process = process
  | .readOrder d' (some _) | .publish d' (some _) | .mark d' (.failed _) | .mark d' (.unanswered _)
  | .commit d' (.failed _) | .commit d' (.unanswered _) => d' = d
  | .commit d' .committed =>
    match s.deliveries.get? d' with
    | some ⟨_, _, _, .handling _ _ (.emit events _)⟩ =>
      d' = d && !(s.db.emitEvents events).isOk
    | _ => false
  | .finish d' =>
    match s.deliveries.get? d' with
    | some ⟨_, _, _, .handling _ _ (.throw _)⟩ => d' = d
    | _ => false
  | _ => false

def overlaps (s : State) : Label → Bool
  | .select d _ =>
    match s.deliveries.get? d with
    | some ⟨_, group, _, .pgCheck e⟩ =>
      s.deliveries.toList.any fun x => x.2.key = some (group, e.id)
    | _ => false
  | _ => false

def Orderly (p : State × List Commit) (a : Label) : Prop :=
  (∀ c ∈ p.2 ++ commits p.1 a, c.Running p.1 → aborts p.1 a c.delivery = false) ∧
    overlaps p.1 a = false
  deriving Decidable

/-! ## How much a handler emits -/

/-- No run of the program has more than `n` transactions of `emitEvents`. -/
def Program.EmitsAtMost : Program → Nat → Prop
  | .done, _ | .throw _, _ => True
  | .uuid next, n | .now next, n => ∀ text, (next text).EmitsAtMost n
  | .chance next, n => ∀ b, (next b).EmitsAtMost n
  | .pick _ next, n => ∀ i, (next i).EmitsAtMost n
  | .getOrder _ next, n => ∀ order, (next order).EmitsAtMost n
  | .emit _ next, n => ∃ m, n = m + 1 ∧ next.EmitsAtMost m
  | .project _ _ _ _ next, n | .publish _ _ next, n => next.EmitsAtMost n

theorem emitNew_emitsAtMost {next : Program} {n : Nat} (h : next.EmitsAtMost n) (type : EventType)
    (orderId : String) (payload : Payload) :
    (Program.emitNew type orderId payload next).EmitsAtMost (n + 1) :=
  fun _ _ => ⟨n, rfl, h⟩

theorem payment_emitsAtMost (e : Envelope) : (payment e).EmitsAtMost 1 := by
  have hlast : ∀ type payload, (Program.emitNew type e.orderId payload .done).EmitsAtMost 1 :=
    fun type payload =>
      emitNew_emitsAtMost (show Program.EmitsAtMost .done 0 from trivial) type e.orderId payload
  unfold payment
  split
  · intro timeout
    cases timeout with
    | true => trivial
    | false =>
      intro declined
      cases declined with
      | true => exact hlast _ _
      | false => exact fun txnId => hlast _ _
  · exact fun txnId => hlast _ _
  · trivial

theorem resume_emitsAtMost {p p' : Program} {a : Answer} (hp : p.resume a = some p') {n : Nat}
    (hn : p.EmitsAtMost n) : p'.EmitsAtMost n := by
  unfold Program.resume at hp
  split at hp <;> try cases hp
  · exact hn _
  · exact hn _
  · exact hn _
  · split at hp <;> cases hp
    exact hn _

/-! ## What a step does -/

section
variable {handler : String → Handler} {maxAttempts : Nat}

inductive Move (handler : String → Handler) (processed : Table (String × String) Unit)
    (group : String) : Pc → Pc → List (List Envelope) → Bool → Bool → Prop
  | idle {pc pc' : _} (hpc : pc.live = none) (hpc' : pc'.live = none) :
      Move handler processed group pc pc' [] false false
  | begins {e : _} (hnew : processed.get? (group, e.id) = none) :
      Move handler processed group (.pgCheck e)
        (.handling e 1 (handler group { e with attempt := 1 })) [] false false
  | works {e k p p' : _} (hp : ∀ n, p.EmitsAtMost n → p'.EmitsAtMost n) :
      Move handler processed group (.handling e k p) (.handling e k p') [] false false
  | emits {e k events next : _} :
      Move handler processed group (.handling e k (.emit events next)) (.handling e k next)
        [events] false false
  | finishes {e k : _} :
      Move handler processed group (.handling e k .done) (.marking e k) [] false false
  | fails {pc pc' e k : _} (hpc : pc.live = some e)
      (hk : pc.attempt = some k) (hpc' : pc'.live = none ∨ pc' = .backoff e k)
      (emitted marked : _) :
      Move handler processed group pc pc' emitted marked true
  | marks {e k : _} :
      Move handler processed group (.marking e k) (.caching e) [] true false
  | retries {e k : _} :
      Move handler processed group (.backoff e k)
        (.handling e (k + 1) (handler group { e with attempt := k + 1 })) [] false false
  | stops {e k : _} :
      Move handler processed group (.backoff e k) .returned [] false false

def Delivery.commit (d : Nat) (dl : Delivery) (events : List Envelope) : Commit :=
  { delivery := d
    attempt := dl.pc.attempt.getD 0
    group := dl.group
    eventId := (dl.pc.live.map Envelope.id).getD ""
    events := events }

inductive Effect (handler : String → Handler) (s : State) (a : Label) (s' : State) : Prop
  | starts (d dl : _) (hnew : s.deliveries.get? d = none)
      (hidle : dl.pc.live = none) (hdl : s'.deliveries = s.deliveries.set d dl)
      (hdb : s'.db = s.db) (hcommits : commits s a = [])
  | evicts (hdl : s'.deliveries = s.deliveries) (hdb : s'.db = s.db) (hcommits : commits s a = [])
  | crashes (process : _) (ha : a = .crash process)
      (hdl : s'.deliveries = s.deliveries.mapValues (Delivery.crash process)) (hdb : s'.db = s.db)
  | moves (d dl pc' emitted marked aborted : _) (hget : s.deliveries.get? d = some dl)
      (hmove : Move handler s.db.processed dl.group dl.pc pc' emitted marked aborted)
      (hdl : s'.deliveries = s.deliveries.set d { dl with pc := pc' })
      (hprocessed : ∀ key, s'.db.processed.get? key =
        if marked = true ∧ dl.key = some key then some () else s.db.processed.get? key)
      (hrows : ∀ row ∈ s'.db.outbox, row ∈ s.db.outbox ∨ ∃ events ∈ emitted, row.payload ∈ events)
      (hcommits : commits s a = emitted.map (dl.commit d))
      (habort : aborted = true → aborts s a d = true)
      (hbegins : ∀ e, dl.pc = .pgCheck e → ∃ ok, a = .select d ok)

section
variable {s t : State} {a : Label} {d : Nat} {dl : Delivery} {pc' : Pc}

theorem Effect.goes (hget : s.deliveries.get? d = some dl)
    (hmove : Move handler s.db.processed dl.group dl.pc pc' [] false false)
    (hdl : t.deliveries = s.deliveries) (hdb : t.db.processed = s.db.processed)
    (houtbox : t.db.outbox = s.db.outbox) (hcommits : commits s a = [])
    (hbegins : ∀ e, dl.pc = .pgCheck e → ∃ ok, a = .select d ok) :
    Effect handler s a (t.setPc d dl pc') := by
  refine .moves d dl pc' [] false false hget hmove ?_ (fun key => ?_) (fun row hrow => .inl ?_)
    hcommits nofun hbegins
  · rw [State.setPc, hdl]
  · exact congrArg (fun processed => processed.get? key) hdb
  · rw [← houtbox]
    exact hrow

theorem failAttempt_cases (maxAttempts : Nat) (e : Envelope) (k : Nat) (error : String) :
    (failAttempt maxAttempts e k error).live = none ∨
      failAttempt maxAttempts e k error = .backoff e k := by
  unfold failAttempt
  split
  · exact .inl rfl
  · exact .inr rfl

theorem Effect.fails {e : Envelope} {k : Nat} (hget : s.deliveries.get? d = some dl)
    (hlive : dl.pc.live = some e) (hk : dl.pc.attempt = some k) (error : String)
    (hdl : t.deliveries = s.deliveries) (hdb : t.db.processed = s.db.processed)
    (emitted : List (List Envelope))
    (hrows : ∀ row ∈ t.db.outbox, row ∈ s.db.outbox ∨ ∃ events ∈ emitted, row.payload ∈ events)
    (hcommits : commits s a = emitted.map (dl.commit d)) (habort : aborts s a d = true) :
    Effect handler s a (t.setPc d dl (failAttempt maxAttempts e k error)) := by
  refine .moves d dl _ emitted false true hget
    (.fails hlive hk (failAttempt_cases maxAttempts e k error) emitted false) ?_ (fun key => ?_)
    hrows hcommits (fun _ => habort) (fun e' he' => ?_)
  · rw [State.setPc, hdl]
  · exact congrArg (fun processed => processed.get? key) hdb
  · rw [he'] at hlive
    cases hlive

/-- What a step of delivery `d` does is an effect. -/
def Effects (handler : String → Handler) (maxAttempts : Nat) (s : State) (d : Nat) (a : Label) :
    Prop :=
  ∀ dl s', s.deliveries.get? d = some dl → s.next handler maxAttempts d dl a = some s' →
    Effect handler s a s'

variable {s' : State} {ok up : Bool} {error : Option String}

theorem redisExists_effect : Effects handler maxAttempts s d (.redisExists d up) := by
  rintro ⟨process, group, topic, pc⟩ s' hget hnext
  cases pc with
  | redisCheck e =>
    cases hnext
    refine .goes hget (.idle rfl ?_) rfl rfl rfl rfl fun _ h => by cases h
    split <;> rfl
  | _ => cases hnext

theorem select_effect : Effects handler maxAttempts s d (.select d ok) := by
  rintro ⟨process, group, topic, pc⟩ s' hget hnext
  cases pc with
  | pgCheck e =>
    cases hnext
    refine .goes hget ?_ rfl rfl rfl rfl fun _ _ => ⟨ok, rfl⟩
    split
    · exact .idle rfl rfl
    split
    · exact .idle rfl rfl
    rename_i hnew
    unfold beginAttempt
    split
    · exact .begins (not_isSome_iff_eq_none.mp hnew)
    · exact .idle rfl rfl
  | _ => cases hnext

theorem answer_effect {x : Answer} : Effects handler maxAttempts s d (.answer d x) := by
  rintro ⟨process, group, topic, pc⟩ s' hget hnext
  cases pc with
  | handling e k p =>
    obtain ⟨p', hp, rfl⟩ := map_eq_some_iff.mp hnext
    exact .goes hget (.works fun n hn => resume_emitsAtMost hp hn) rfl rfl rfl rfl
      fun _ h => by cases h
  | _ => cases hnext

theorem readOrder_effect : Effects handler maxAttempts s d (.readOrder d error) := by
  rintro ⟨process, group, topic, pc⟩ s' hget hnext
  cases pc with
  | handling e k p =>
    cases p with
    | getOrder orderId next =>
      cases hnext
      cases error with
      | none => exact .goes hget (.works fun n hn => hn _) rfl rfl rfl rfl fun _ h => by cases h
      | some error =>
        exact .fails hget rfl rfl error rfl rfl [] (fun _ h => .inl h) rfl (decide_eq_true rfl)
    | _ => cases hnext
  | _ => cases hnext

theorem publish_effect : Effects handler maxAttempts s d (.publish d error) := by
  rintro ⟨process, group, topic, pc⟩ s' hget hnext
  cases pc with
  | handling e k p =>
    cases p with
    | publish event status next =>
      cases hnext
      cases error with
      | none => exact .goes hget (.works fun n hn => hn) rfl rfl rfl rfl fun _ h => by cases h
      | some error =>
        exact .fails hget rfl rfl error rfl rfl [] (fun _ h => .inl h) rfl (decide_eq_true rfl)
    | _ => cases hnext
  | _ => cases hnext

theorem finish_effect : Effects handler maxAttempts s d (.finish d) := by
  rintro ⟨process, group, topic, pc⟩ s' hget hnext
  cases pc with
  | handling e k p =>
    cases p with
    | done =>
      cases hnext
      exact .goes hget .finishes rfl rfl rfl rfl fun _ h => by cases h
    | throw message =>
      cases hnext
      refine .fails hget rfl rfl message rfl rfl [] (fun _ h => .inl h) rfl ?_
      simp [aborts, hget]
    | _ => cases hnext
  | _ => cases hnext

variable {outcome : Outcome} {next : Program}

theorem mark_effect : Effects handler maxAttempts s d (.mark d outcome) := by
  rintro ⟨process, group, topic, pc⟩ s' hget hnext
  cases pc with
  | marking e k =>
    cases hnext
    have hmarked (key : String × String) :
        (s.db.markProcessed group e.id).processed.get? key =
          if true = true ∧ some (group, e.id) = some key then some ()
          else s.db.processed.get? key := by
      simp [Database.markProcessed, get?_set, eq_comm]
    cases outcome with
    | committed =>
      exact .moves d _ _ [] true false hget .marks rfl hmarked
        (fun _ h => .inl h) rfl (fun h => by cases h) fun _ h => by cases h
    | failed error =>
      exact .fails hget rfl rfl error rfl rfl [] (fun _ h => .inl h) rfl (decide_eq_true rfl)
    | unanswered error =>
      exact .moves d _ _ [] true true hget
        (.fails rfl rfl (failAttempt_cases maxAttempts e k error) [] true) rfl hmarked
        (fun _ h => .inl h) rfl
        (fun _ => decide_eq_true rfl) fun _ h => by cases h
  | _ => cases hnext

theorem redisSet_effect : Effects handler maxAttempts s d (.redisSet d up) := by
  rintro ⟨process, group, topic, pc⟩ s' hget hnext
  cases pc with
  | caching e =>
    cases hnext
    exact .goes hget (.idle rfl rfl) rfl rfl rfl rfl fun _ h => by cases h
  | _ => cases hnext

theorem wake_effect : Effects handler maxAttempts s d (.wake d) := by
  rintro ⟨process, group, topic, pc⟩ s' hget hnext
  cases pc with
  | backoff e k =>
    cases hnext
    refine .goes hget ?_ rfl rfl rfl rfl fun _ h => by cases h
    unfold beginAttempt
    split
    · exact .retries
    · exact .stops
  | _ => cases hnext

theorem sendDead_effect : Effects handler maxAttempts s d (.sendDead d ok) := by
  rintro ⟨process, group, topic, pc⟩ s' hget hnext
  cases pc with
  | deadLettering event error =>
    cases ok with
    | true | false =>
      cases hnext
      exact .goes hget (.idle rfl rfl) rfl rfl rfl rfl fun _ h => by cases h
  | _ => cases hnext

theorem commit_effect : Effects handler maxAttempts s d (.commit d outcome) := by
  rintro ⟨process, group, topic, pc⟩ s' hget hnext
  cases pc with
  | handling e k p =>
    cases p with
    | emit events next =>
      unfold State.next at hnext
      dsimp only at hnext
      cases hdb : s.db.emitEvents events with
      | ok db =>
        rw [hdb] at hnext
        cases hnext
        obtain ⟨hprocessed, -, hrows⟩ := Database.emitEvents_spec hdb
        have hrows' : ∀ row ∈ db.outbox,
            row ∈ s.db.outbox ∨ ∃ x ∈ [events], row.payload ∈ x :=
          fun row hrow => (hrows row hrow).imp_right fun h => ⟨events, mem_singleton_self _, h⟩
        cases outcome with
        | committed =>
          refine .moves d _ _ [events] false false hget .emits rfl (fun key => ?_)
            hrows' ?_ (fun h => by cases h) fun _ h => by cases h
          · rw [if_neg (fun h => nomatch h.1)]
            exact congrArg (fun processed => processed.get? key) hprocessed
          · simp [commits, hget, hdb, Delivery.commit, Pc.attempt, Pc.live]
        | failed error =>
          refine .fails hget rfl rfl error rfl rfl [] (fun _ h => .inl h) ?_ (decide_eq_true rfl)
          simp [commits, hget]
        | unanswered error =>
          refine .fails hget rfl rfl error rfl hprocessed [events] hrows' ?_ (decide_eq_true rfl)
          simp [commits, hget, hdb, Delivery.commit, Pc.attempt, Pc.live]
      | error error =>
        rw [hdb] at hnext
        cases hnext
        refine .fails hget rfl rfl error rfl rfl [] (fun _ h => .inl h) ?_ ?_
        · simp [commits, hget, hdb]
        · cases outcome <;> simp [aborts, hget, hdb, Except.isOk, Except.toBool]
    | project orderId status type patch next =>
      cases hnext
      cases outcome with
      | committed =>
        refine .goes hget (.works fun n hn => hn) rfl rfl rfl ?_ fun _ h => by cases h
        simp [commits, hget]
      | failed error | unanswered error =>
        refine .fails hget rfl rfl error rfl rfl [] (fun _ h => .inl h) ?_ (decide_eq_true rfl)
        simp [commits, hget]
    | _ => cases hnext
  | _ => cases hnext

theorem step_effect {a : Label} (hstep : step handler maxAttempts s a = some s') :
    Effect handler s a s' := by
  have hof {d : Nat} (heffect : Effects handler maxAttempts s d a)
      (h : ((s.deliveries.get? d).bind fun dl => s.next handler maxAttempts d dl a) = some s') :
      Effect handler s a s' := by
    obtain ⟨dl, hget, hnext⟩ := bind_eq_some_iff.mp h
    exact heffect dl s' hget hnext
  cases a with
  | deliver d process group topic value =>
    simp only [step] at hstep
    split at hstep <;> cases hstep
    rename_i hnew
    refine .starts d _ hnew ?_ rfl rfl rfl
    cases value <;> rfl
  | evict group eventId =>
    cases hstep
    exact .evicts rfl rfl rfl
  | crash process =>
    cases hstep
    exact .crashes process rfl rfl rfl
  | redisExists => exact hof redisExists_effect hstep
  | select => exact hof select_effect hstep
  | answer => exact hof answer_effect hstep
  | readOrder => exact hof readOrder_effect hstep
  | commit => exact hof commit_effect hstep
  | publish => exact hof publish_effect hstep
  | finish => exact hof finish_effect hstep
  | mark => exact hof mark_effect hstep
  | redisSet => exact hof redisSet_effect hstep
  | wake => exact hof wake_effect hstep
  | sendDead => exact hof sendDead_effect hstep

/-! ## One attempt at a time -/

variable (log : List Commit)

def committedFor (key : String × String) : Nat :=
  log.countP fun c => c.key = key

def Free (key : String × String) : Prop := ∀ c ∈ log, c.key ≠ key

theorem Free.committedFor {log : List Commit} {key : String × String} (h : Free log key) :
    committedFor log key = 0 :=
  countP_eq_zero.mpr fun c hc => by simpa using h c hc

structure Inv (handler : String → Handler) (p : State × List Commit) : Prop where
  alone : ∀ d dl d' dl' key, p.1.deliveries.get? d = some dl → p.1.deliveries.get? d' = some dl' →
    dl.key = some key → dl'.key = some key → d = d'
  own : ∀ d dl key, p.1.deliveries.get? d = some dl → dl.key = some key →
    ∀ c ∈ p.2, c.key = key → c.delivery = d ∧ dl.pc.attempt = some c.attempt
  settled : ∀ c ∈ p.2, p.1.db.processed.get? c.key = some () ∨
    ∃ dl, p.1.deliveries.get? c.delivery = some dl ∧ dl.key = some c.key
  once : ∀ c ∈ p.2, ∀ c' ∈ p.2, c.key = c'.key → c.delivery = c'.delivery ∧ c.attempt = c'.attempt
  bound : ∀ key n, (∀ e : Envelope, e.id = key.2 → (handler key.1 e).EmitsAtMost n) →
    committedFor p.2 key ≤ n
  rest : ∀ d dl e k program, p.1.deliveries.get? d = some dl → dl.pc = .handling e k program →
    ∀ n, (handler dl.group { e with attempt := k }).EmitsAtMost n →
      ∃ m, program.EmitsAtMost m ∧ committedFor p.2 (dl.group, e.id) + m ≤ n

variable {p : State × List Commit} {s' : State}

theorem Inv.update (hp : Inv handler p) (hget : p.1.deliveries.get? d = some dl)
    (hdl : s'.deliveries = p.1.deliveries.set d { dl with pc := pc' })
    (hgrow : ∀ key, p.1.db.processed.get? key = some () → s'.db.processed.get? key = some ())
    (hnew : ∀ e, pc'.live = some e → (dl.pc.live = some e ∧ pc'.attempt = dl.pc.attempt) ∨
      (Free p.2 (dl.group, e.id) ∧ ∀ d' dl', p.1.deliveries.get? d' = some dl' →
        dl'.key = some (dl.group, e.id) → d' = d))
    (hleft : ∀ e, dl.pc.live = some e → pc'.live = some e ∨ Free p.2 (dl.group, e.id) ∨
      s'.db.processed.get? (dl.group, e.id) = some ())
    (hrest : ∀ e k program, pc' = .handling e k program →
      ∀ n, (handler dl.group { e with attempt := k }).EmitsAtMost n →
        ∃ m, program.EmitsAtMost m ∧ committedFor p.2 (dl.group, e.id) + m ≤ n) :
    Inv handler (s', p.2) := by
  have hread {j : Nat} {x : Delivery} (hj : s'.deliveries.get? j = some x) :
      (j = d ∧ x = { dl with pc := pc' }) ∨ (j ≠ d ∧ p.1.deliveries.get? j = some x) := by
    rw [hdl] at hj
    exact set_cases hj
  -- the event the delivery goes on with was its own before or is nobody else's
  have hother {j : Nat} {x : Delivery} {key : String × String}
      (hj : p.1.deliveries.get? j = some x) (hx : x.key = some key)
      (hkey : Delivery.key { dl with pc := pc' } = some key) : j = d := by
    obtain ⟨e, he, rfl⟩ := map_eq_some_iff.mp hkey
    rcases hnew e he with ⟨hlive, -⟩ | ⟨-, honly⟩
    · exact hp.alone j x d dl _ hj hget hx (by rw [Delivery.key, hlive]; rfl)
    · exact honly j x hj hx
  refine ⟨fun j x j' x' key hj hj' hx hx' => ?_, fun j x key hj hx c hc hkey => ?_, fun c hc => ?_,
    hp.once, hp.bound, fun j x e k program hj hpc => ?_⟩
  · rcases hread hj with ⟨rfl, rfl⟩ | ⟨-, hold⟩
    · rcases hread hj' with ⟨rfl, rfl⟩ | ⟨-, hold'⟩
      · rfl
      · exact (hother hold' hx' hx).symm
    · rcases hread hj' with ⟨rfl, rfl⟩ | ⟨-, hold'⟩
      · exact hother hold hx hx'
      · exact hp.alone j x j' x' key hold hold' hx hx'
  · rcases hread hj with ⟨rfl, rfl⟩ | ⟨-, hold⟩
    · obtain ⟨e, he, rfl⟩ := map_eq_some_iff.mp hx
      rcases hnew e he with ⟨hlive, hattempt⟩ | ⟨hfree, -⟩
      · have hown := hp.own j dl _ hget (by rw [Delivery.key, hlive]; rfl) c hc hkey
        exact ⟨hown.1, hattempt.trans hown.2⟩
      · exact absurd hkey (hfree c hc)
    · exact hp.own j x key hold hx c hc hkey
  · rcases hp.settled c hc with hdone | ⟨x, hx, hkey⟩
    · exact .inl (hgrow _ hdone)
    by_cases hd : c.delivery = d
    · rw [hd, hget] at hx
      cases hx
      obtain ⟨e, he, hkey⟩ := map_eq_some_iff.mp hkey
      rcases hleft e he with hstays | hfree | hdone
      · refine .inr ⟨{ dl with pc := pc' }, ?_, ?_⟩
        · rw [hdl, hd, get?_set_self]
        · rw [Delivery.key, hstays, ← hkey]
          rfl
      · exact absurd hkey.symm (hfree c hc)
      · rw [← hkey]
        exact .inl hdone
    · refine .inr ⟨x, ?_, hkey⟩
      rw [hdl, get?_set, if_neg hd]
      exact hx
  · rcases hread hj with ⟨rfl, rfl⟩ | ⟨-, hold⟩
    · exact hrest e k program hpc
    · exact hp.rest j x e k program hold hpc

theorem committedFor_append (c : Commit) (key : String × String) :
    committedFor (log ++ [c]) key = committedFor log key + if c.key = key then 1 else 0 := by
  rw [committedFor, countP_append, countP_singleton]
  simp only [committedFor, decide_eq_true_eq]

variable {e : Envelope}

theorem Inv.append (hp : Inv handler p) {c : Commit}
    (hget : p.1.deliveries.get? c.delivery = some dl) (hpc : dl.pc = .handling e c.attempt next)
    (hkey : c.key = (dl.group, e.id))
    (hrest : ∀ n, (handler dl.group { e with attempt := c.attempt }).EmitsAtMost n →
      ∃ m, next.EmitsAtMost m ∧ committedFor p.2 c.key + 1 + m ≤ n) :
    Inv handler (p.1, p.2 ++ [c]) := by
  have hlive : dl.key = some c.key := by rw [Delivery.key, hpc, hkey]; rfl
  have hmine := hp.own c.delivery dl c.key hget hlive
  have hattempt : dl.pc.attempt = some c.attempt := by rw [hpc]; rfl
  -- what was committed for the event before is this attempt's
  have hsame (x : Commit) (hx : x ∈ p.2) (hxkey : x.key = c.key) :
      x.delivery = c.delivery ∧ x.attempt = c.attempt := by
    obtain ⟨hd, ha⟩ := hmine x hx hxkey
    rw [hattempt] at ha
    exact ⟨hd, (some.inj ha).symm⟩
  refine ⟨hp.alone, fun j x key hj hx c' hc' hc'key => ?_, fun c' hc' => ?_,
    fun x hx x' hx' hxx' => ?_, fun key n hn => ?_, fun j x e' k' program hj hxpc n hn => ?_⟩
  · obtain hold | heq := mem_concat_cases hc'
    · exact hp.own j x key hj hx c' hold hc'key
    cases heq
    rw [← hc'key] at hx
    cases hp.alone j x c.delivery dl c.key hj hget hx hlive
    rw [hget] at hj
    cases hj
    exact ⟨rfl, hattempt⟩
  · obtain hold | rfl := mem_concat_cases hc'
    · exact hp.settled c' hold
    · exact .inr ⟨dl, hget, hlive⟩
  · rcases mem_append.mp hx with hold | hnew
    · obtain hold' | rfl := mem_concat_cases hx'
      · exact hp.once x hold x' hold' hxx'
      · exact hsame x hold hxx'
    cases mem_singleton.mp hnew
    obtain hold' | rfl := mem_concat_cases hx'
    · obtain ⟨hd, ha⟩ := hsame x' hold' hxx'.symm
      exact ⟨hd.symm, ha.symm⟩
    · exact ⟨rfl, rfl⟩
  · rw [committedFor_append]
    split
    · rename_i hck
      subst hck
      rw [hkey] at hn
      obtain ⟨m, -, hm⟩ := hrest n (hn _ rfl)
      omega
    · exact hp.bound key n hn
  rw [committedFor_append]
  split
  · rename_i hck
    have hxlive : x.key = some c.key := by rw [Delivery.key, hxpc, hck]; rfl
    cases hp.alone j x c.delivery dl c.key hj hget hxlive hlive
    rw [hget] at hj
    cases hj
    rw [hpc] at hxpc
    cases hxpc
    rw [← hck]
    exact hrest n hn
  · exact hp.rest j x e' k' program hj hxpc n hn

variable {k : Nat}

theorem Inv.emits (hp : Inv handler p) {events : List Envelope}
    (hget : p.1.deliveries.get? d = some dl) (hpc : dl.pc = .handling e k (.emit events next))
    (hdl : s'.deliveries = p.1.deliveries.set d { dl with pc := .handling e k next })
    (hgrow : ∀ key, p.1.db.processed.get? key = some () → s'.db.processed.get? key = some ()) :
    Inv handler (s', p.2 ++ [dl.commit d events]) := by
  have hcommit : dl.commit d events = ⟨d, k, dl.group, e.id, events⟩ := by
    rw [Delivery.commit, hpc]
    rfl
  have hroom (n : Nat) (hn : (handler dl.group { e with attempt := k }).EmitsAtMost n) :
      ∃ m, next.EmitsAtMost m ∧ committedFor p.2 (dl.group, e.id) + 1 + m ≤ n := by
    obtain ⟨_, ⟨m, rfl, hm⟩, hle⟩ := hp.rest d dl e k _ hget hpc n hn
    exact ⟨m, hm, by omega⟩
  have hs' : Inv handler (s', p.2) := by
    refine hp.update hget hdl hgrow (fun e' he' => .inl ?_) (fun e' he' => .inl ?_) ?_
    · rw [hpc]
      exact ⟨he', rfl⟩
    · rw [hpc] at he'
      exact he'
    intro e' k' program hprogram n hn
    cases hprogram
    obtain ⟨m, hm, hle⟩ := hroom n hn
    exact ⟨m, hm, by omega⟩
  have hget' : s'.deliveries.get? d = some { dl with pc := .handling e k next } := by
    rw [hdl, get?_set_self]
  rw [hcommit]
  exact hs'.append (c := ⟨d, k, dl.group, e.id, events⟩) hget' rfl rfl hroom

variable {a : Label}

section
variable (hp : Inv handler p)
include hp

theorem Inv.free_of_aborts (hok : Orderly p a) (hget : p.1.deliveries.get? d = some dl)
    (hlive : dl.pc.live = some e) (habort : aborts p.1 a d = true) : Free p.2 (dl.group, e.id) := by
  intro c hc hkey
  obtain ⟨hd, hattempt⟩ :=
    hp.own d dl (dl.group, e.id) hget (by rw [Delivery.key, hlive]; rfl) c hc hkey
  have hrunning : c.Running p.1 := by
    rw [Commit.Running, hd, hget]
    exact hattempt
  have hfalse := hok.1 c (mem_append_left _ hc) hrunning
  rw [hd, habort] at hfalse
  cases hfalse

theorem Inv.free_of_backoff (hget : p.1.deliveries.get? d = some dl) (hpc : dl.pc = .backoff e k) :
    Free p.2 (dl.group, e.id) := by
  intro c hc hkey
  obtain ⟨-, hattempt⟩ :=
    hp.own d dl (dl.group, e.id) hget (by rw [Delivery.key, hpc]; rfl) c hc hkey
  rw [hpc] at hattempt
  cases hattempt

theorem Inv.free_of_check {ok : Bool} (hok : Orderly p (.select d ok))
    (hget : p.1.deliveries.get? d = some dl) (hpc : dl.pc = .pgCheck e)
    (hnew : p.1.db.processed.get? (dl.group, e.id) = none) :
    Free p.2 (dl.group, e.id) ∧ ∀ d' dl', p.1.deliveries.get? d' = some dl' →
      dl'.key ≠ some (dl.group, e.id) := by
  have hnobody (d' : Nat) (dl' : Delivery) (hget' : p.1.deliveries.get? d' = some dl') :
      dl'.key ≠ some (dl.group, e.id) := by
    intro hkey
    have hoverlaps : overlaps p.1 (.select d ok) = true := by
      rcases dl with ⟨process, group, topic, pc⟩
      cases hpc
      rw [overlaps, hget]
      exact any_eq_true.mpr ⟨(d', dl'), mem_toList.mpr hget', decide_eq_true hkey⟩
    rw [hok.2] at hoverlaps
    cases hoverlaps
  refine ⟨fun c hc hkey => ?_, hnobody⟩
  rcases hp.settled c hc with hdone | ⟨x, hx, hxkey⟩
  · rw [hkey, hnew] at hdone
    cases hdone
  · exact hnobody _ x hx (hkey ▸ hxkey)

theorem Inv.shrink (hold : ∀ j x key, s'.deliveries.get? j = some x → x.key = some key →
      p.1.deliveries.get? j = some x)
    (hkeep : ∀ c ∈ p.2, ∀ x, p.1.deliveries.get? c.delivery = some x → x.key = some c.key →
      s'.deliveries.get? c.delivery = some x)
    (hdb : s'.db = p.1.db) : Inv handler (s', p.2) := { hp with
  alone j x j' x' key hj hj' hx hx' :=
    hp.alone j x j' x' key (hold j x key hj hx) (hold j' x' key hj' hx') hx hx'
  own := fun j x key hj hx => hp.own j x key (hold j x key hj hx) hx
  settled := fun c hc => by
    rcases hp.settled c hc with hdone | ⟨x, hx, hkey⟩
    · rw [← hdb] at hdone
      exact .inl hdone
    · exact .inr ⟨x, hkeep c hc x hx hkey, hkey⟩
  rest j x e k program hj hpc :=
    have hkey : x.key = some (x.group, e.id) := by rw [Delivery.key, hpc]; rfl
    hp.rest j x e k program (hold j x _ hj hkey) hpc }

theorem Inv.starts (hnew : p.1.deliveries.get? d = none) (hidle : dl.pc.live = none)
    (hdl : s'.deliveries = p.1.deliveries.set d dl) (hdb : s'.db = p.1.db) :
    Inv handler (s', p.2) := by
  refine hp.shrink (fun j x key hj hx => ?_) (fun c hc x hx hkey => ?_) hdb
  · rw [hdl] at hj
    rcases set_cases hj with ⟨rfl, rfl⟩ | ⟨-, hold⟩
    · rw [Delivery.key, hidle] at hx
      cases hx
    · exact hold
  rw [hdl, get?_set, if_neg]
  · exact hx
  · intro hd
    rw [hd, hnew] at hx
    cases hx

theorem Inv.crashes {process : Nat} (hok : Orderly p (.crash process))
    (hdl : s'.deliveries = p.1.deliveries.mapValues (Delivery.crash process))
    (hdb : s'.db = p.1.db) : Inv handler (s', p.2) := by
  refine hp.shrink (fun j x key hj hx => ?_) (fun c hc x hx hkey => ?_) hdb
  · rw [hdl, get?_mapValues] at hj
    obtain ⟨y, hy, rfl⟩ := map_eq_some_iff.mp hj
    unfold Delivery.crash at hx ⊢
    split at hx
    · cases hx
    rename_i hprocess
    rw [if_neg hprocess]
    exact hy
  · -- the attempt that backs the commit runs in another process
    have hrunning : c.Running p.1 := by
      rw [Commit.Running, hx]
      exact (hp.own c.delivery x c.key hx hkey c hc rfl).2
    have halive := hok.1 c (mem_append_left _ hc) hrunning
    have hprocess : x.process ≠ process := by simpa [aborts, hx] using halive
    rw [hdl, get?_mapValues, hx, map_some, Delivery.crash, if_neg hprocess]

theorem Inv.goes (hok : Orderly p a) {marked : Bool} (hget : p.1.deliveries.get? d = some dl)
    (hmove : Move handler p.1.db.processed dl.group dl.pc pc' [] marked false)
    (hdl : s'.deliveries = p.1.deliveries.set d { dl with pc := pc' })
    (hprocessed : ∀ key, s'.db.processed.get? key = if marked = true ∧
      dl.key = some key then some () else p.1.db.processed.get? key)
    (hgrow : ∀ key, p.1.db.processed.get? key = some () → s'.db.processed.get? key = some ())
    (hbegins : ∀ e, dl.pc = .pgCheck e → ∃ ok, a = .select d ok) : Inv handler (s', p.2) := by
  -- an attempt that starts finds nothing committed for its event
  have hstart {e e' : Envelope} {k k' : Nat} {program : Program}
      (hfree : Free p.2 (dl.group, e.id))
      (hpc' : Pc.handling e k (handler dl.group { e with attempt := k }) =
        .handling e' k' program) (n : Nat)
      (hn : (handler dl.group { e' with attempt := k' }).EmitsAtMost n) :
      ∃ m, program.EmitsAtMost m ∧ committedFor p.2 (dl.group, e'.id) + m ≤ n := by
    cases hpc'
    exact ⟨n, hn, by rw [hfree.committedFor]; omega⟩
  rcases dl with ⟨process, group, topic, pc⟩
  cases hmove with
  | idle hidle hidle' =>
    refine hp.update hget hdl hgrow (fun e he => ?_) (fun e he => ?_) fun e k program hh => ?_
    · cases hidle'.symm.trans he
    · cases hidle.symm.trans he
    · rw [hh] at hidle'
      cases hidle'
  | @begins e hnew =>
    obtain ⟨ok, rfl⟩ := hbegins e rfl
    obtain ⟨hfree, hnobody⟩ := hp.free_of_check hok hget rfl hnew
    refine hp.update hget hdl hgrow (fun e' he' => ?_) (fun _ h => by cases h)
      fun e' k program => hstart hfree
    cases he'
    exact .inr ⟨hfree, fun d' dl' hget' hkey => absurd hkey (hnobody d' dl' hget')⟩
  | @works e k program program' hemits =>
    refine hp.update hget hdl hgrow (fun e' he' => .inl ⟨he', rfl⟩) (fun e' he' => .inl he')
      fun e' k' program'' hh n hn => ?_
    cases hh
    obtain ⟨m, hm, hle⟩ := hp.rest d _ e k program hget rfl n hn
    exact ⟨m, hemits m hm, hle⟩
  | finishes =>
    exact hp.update hget hdl hgrow (fun e' he' => .inl ⟨he', rfl⟩) (fun e' he' => .inl he')
      fun _ _ _ h => by cases h
  | @marks e k =>
    refine hp.update hget hdl hgrow (fun _ h => by cases h) (fun e' he' => ?_)
      fun _ _ _ h => by cases h
    cases he'
    refine .inr (.inr ?_)
    rw [hprocessed, if_pos ⟨rfl, rfl⟩]
  | @retries e k =>
    have hfree := hp.free_of_backoff hget rfl
    refine hp.update hget hdl hgrow (fun e' he' => ?_) (fun e' he' => .inl he')
      fun e' k' program => hstart hfree
    cases he'
    exact .inr ⟨hfree, fun d' dl' hget' hkey => hp.alone d' dl' d _ _ hget' hget hkey rfl⟩
  | stops =>
    refine hp.update hget hdl hgrow (fun _ h => by cases h) (fun e' he' => ?_)
      fun _ _ _ h => by cases h
    cases he'
    exact .inr (.inl (hp.free_of_backoff hget rfl))

theorem Inv.fails (hok : Orderly p a) {emitted : List (List Envelope)}
    (hget : p.1.deliveries.get? d = some dl) (hlive : dl.pc.live = some e)
    (hk : dl.pc.attempt = some k) (hpc' : pc'.live = none ∨ pc' = .backoff e k)
    (hdl : s'.deliveries = p.1.deliveries.set d { dl with pc := pc' })
    (hgrow : ∀ key, p.1.db.processed.get? key = some () → s'.db.processed.get? key = some ())
    (hcommits : commits p.1 a = emitted.map (dl.commit d)) (habort : aborts p.1 a d = true) :
    Inv handler (s', p.2 ++ commits p.1 a) := by
  have hfree := hp.free_of_aborts hok hget hlive habort
  have hnone : commits p.1 a = [] := by
    cases emitted with
    | nil => exact hcommits
    | cons events rest =>
      have hmem : dl.commit d events ∈ commits p.1 a := by
        rw [hcommits]
        exact mem_cons_self
      have hrunning : (dl.commit d events).Running p.1 := by
        rw [Commit.Running, Delivery.commit, hget, hk]
        exact hk
      have hfalse := hok.1 _ (mem_append_right _ hmem) hrunning
      rw [show (dl.commit d events).delivery = d from rfl, habort] at hfalse
      cases hfalse
  have hkey : dl.key = some (dl.group, e.id) := by rw [Delivery.key, hlive]; rfl
  rw [hnone, append_nil]
  refine hp.update hget hdl hgrow (fun e' he' => ?_) (fun e' he' => ?_) (fun e' k' program hh => ?_)
  · rcases hpc' with hnone | rfl
    · rw [hnone] at he'
      cases he'
    · cases he'
      exact .inr ⟨hfree, fun d' dl' hget' hkey' => hp.alone d' dl' d dl _ hget' hget hkey' hkey⟩
  · rw [hlive] at he'
    cases he'
    exact .inr (.inl hfree)
  rw [hh] at hpc'
  rcases hpc' with hnone | hbackoff
  · cases hnone
  · cases hbackoff

theorem Inv.step (hok : Orderly p a) (hstep : step handler maxAttempts p.1 a = some s') :
    Inv handler (s', p.2 ++ commits p.1 a) := by
  cases step_effect hstep with
  | starts d dl hnew hidle hdl hdb hcommits =>
    rw [hcommits, append_nil]
    exact hp.starts hnew hidle hdl hdb
  | evicts hdl hdb hcommits =>
    rw [hcommits, append_nil]
    refine hp.shrink (fun j x key hj _ => ?_) (fun c _ x hx _ => ?_) hdb
    · rw [← hdl]
      exact hj
    · rw [hdl]
      exact hx
  | crashes process ha hdl hdb =>
    subst ha
    exact (append_nil p.2).symm ▸ hp.crashes hok hdl hdb
  | moves d dl pc' emitted marked aborted hget hmove hdl hprocessed hrows hcommits habort hbegins =>
    have hgrow (key : String × String) (hkey : p.1.db.processed.get? key = some ()) :
        s'.db.processed.get? key = some () := by
      rw [hprocessed, hkey]
      split <;> rfl
    have hgoes (hemitted : emitted = []) (haborted : aborted = false) :
        Inv handler (s', p.2 ++ commits p.1 a) := by
      rw [hcommits, hemitted, map_nil, append_nil]
      exact hp.goes hok hget (hemitted ▸ haborted ▸ hmove) hdl hprocessed hgrow hbegins
    generalize hpc : dl.pc = pc at hmove
    cases hmove with
    | @emits e k events next =>
      rw [hcommits]
      exact hp.emits hget hpc hdl hgrow
    | fails hlive hk hpc' =>
      rw [← hpc] at hlive hk
      exact hp.fails hok hget hlive hk hpc' hdl hgrow hcommits (habort rfl)
    | _ => exact hgoes rfl rfl

end

def RowsRecorded (p : State × List Commit) : Prop :=
  ∀ row ∈ p.1.db.outbox, ∃ c ∈ p.2, row.payload ∈ c.events

theorem RowsRecorded.step (hp : RowsRecorded p) (hstep : step handler maxAttempts p.1 a = some s') :
    RowsRecorded (s', p.2 ++ commits p.1 a) := by
  have hkeep {row : OutboxRow} (hrow : row ∈ p.1.db.outbox) :
      ∃ c ∈ p.2 ++ commits p.1 a, row.payload ∈ c.events := by
    obtain ⟨c, hc, hpayload⟩ := hp row hrow
    exact ⟨c, mem_append_left _ hc, hpayload⟩
  intro row hrow
  cases step_effect hstep with
  | starts d dl hnew hidle hdl hdb | evicts hdl hdb | crashes process ha hdl hdb =>
    exact hkeep (hdb ▸ hrow)
  | moves d dl pc' emitted marked aborted hget hmove hdl hprocessed hrows hcommits =>
    rcases hrows row hrow with hold | ⟨events, hevents, hpayload⟩
    · exact hkeep hold
    refine ⟨dl.commit d events, mem_append_right _ ?_, hpayload⟩
    rw [hcommits]
    exact mem_map_of_mem hevents

end

theorem inv_initial (handler : String → Handler) : Inv handler (initial, []) where
  alone _ _ _ _ _ hj := by cases hj
  own _ _ _ hj := by cases hj
  settled _ hc := by cases hc
  once _ hc := by cases hc
  bound _ n _ := Nat.zero_le n
  rest _ _ _ _ _ hj := by cases hj

/-! ## Every run -/

/-- In a run where no attempt is cut off between a commit and its mark and no two
deliveries of an event overlap, all transactions that a group commits for an event are
those of one attempt of its handler. -/
theorem effects_committed_once (handler : String → Handler) (maxAttempts : Nat)
    {as : List Label} {s : State} {log : List Commit}
    (hok : RunMeets (logged (step handler maxAttempts) commits) Orderly (initial, []) as)
    (hrun : run (logged (step handler maxAttempts) commits) (initial, []) as = some (s, log)) :
    (∀ row ∈ s.db.outbox, ∃ c ∈ log, row.payload ∈ c.events) ∧
    (∀ c ∈ log, ∀ c' ∈ log, c.group = c'.group → c.eventId = c'.eventId →
      c.delivery = c'.delivery ∧ c.attempt = c'.attempt) ∧
    (∀ group eventId n, (∀ e : Envelope, e.id = eventId → (handler group e).EmitsAtMost n) →
      committedFor log (group, eventId) ≤ n) ∧
    (handler "payment" = payment → ∀ eventId, committedFor log ("payment", eventId) ≤ 1) := by
  have hend : Inv handler (s, log) ∧ RowsRecorded (s, log) := by
    refine run_invariant_of_meets (I := fun p => Inv handler p ∧ RowsRecorded p)
      (fun p a q hp hpa hstep => ?_) ⟨inv_initial handler, fun _ h => by cases h⟩ hok hrun
    obtain ⟨hnext, hlog⟩ := logged_eq_some.mp hstep
    obtain ⟨s₁, log₁⟩ := q
    cases hlog
    exact ⟨hp.1.step hpa hnext, hp.2.step hnext⟩
  obtain ⟨hinv, hrows⟩ := hend
  refine ⟨hrows, fun c hc c' hc' hgroup hevent => hinv.once c hc c' hc' (Prod.ext hgroup hevent),
    fun group eventId n hn => hinv.bound (group, eventId) n hn, fun hpayment eventId => ?_⟩
  refine hinv.bound ("payment", eventId) 1 fun e _ => ?_
  rw [hpayment]
  exact payment_emitsAtMost e

/-- A request to charge order `o1`. -/
def chargeRequest : Envelope :=
  makeEvent "e1" "t0" .paymentRequested "o1" { amount := some 320 }

def charge (d process : Nat) (txnId eventId : String) : List Label :=
  [.deliver d process "payment" .paymentEvents (.event chargeRequest), .redisExists d true,
   .select d true, .answer d (.bool false), .answer d (.bool false), .answer d (.text txnId),
   .answer d (.text eventId), .answer d (.text "t1"), .commit d .committed]

def redelivered : List Label :=
  charge 0 0 "x1" "e2" ++ [.finish 0, .mark 0 .committed, .crash 0,
    .deliver 1 1 "payment" .paymentEvents (.event chargeRequest), .redisExists 1 true,
    .select 1 true]

theorem effects_committed_once_redelivered :
    ∃ s log, run (logged (step handlerOf 4) commits) (initial, []) redelivered = some (s, log) ∧
      log.length = 1 ∧ committedFor log ("payment", "e1") ≤ 1 := by
  obtain ⟨⟨s, log⟩, hrun, hone⟩ : ∃ p ∈ run (logged (step handlerOf 4) commits) (initial, [])
      redelivered, p.2.length = 1 := by
    decide
  obtain ⟨-, -, -, hcharged⟩ := effects_committed_once handlerOf 4 (by decide) hrun
  exact ⟨s, log, hrun, hone, hcharged rfl "e1"⟩

/-- The process crashes between the commit of the charge and the mark; the process that
gets the message next finds no mark and charges again. -/
theorem crash_before_mark_charges_twice :
    ∃ p ∈ run (logged (step handlerOf 4) commits) (initial, [])
        (charge 0 0 "x1" "e2" ++ [.crash 0] ++ charge 1 1 "x2" "e3"),
      committedFor p.2 ("payment", "e1") = 2 ∧
        (p.1.db.outbox.map fun row => (row.payload.type, row.aggregateId)) =
          [(.paymentAuthorized, "o1"), (.paymentAuthorized, "o1")] := by
  decide

end

end GoServices.FoodDelivery
