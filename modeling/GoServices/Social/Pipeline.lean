/-
The social pipeline: relays, topics and consumer loops around the database.

Any number of relay workers claim rows of the outbox, publish them and mark them.
-/
import GoServices.Social.Store

namespace GoServices.Social

open List Table

def Consumer.topic : Consumer → Topic
  | .engagementProjector => .engagement
  | .notificationWriter => .notification

def Consumer.expects : Consumer → EventType
  | .engagementProjector => .engagementRecorded
  | .notificationWriter => .notificationRequested

def Consumer.transaction (c : Consumer) (db : Db) (e : Event) (notificationID eventID : String)
    (now : Nat) : Db :=
  match c with
  | .engagementProjector => db.applyEngagement e notificationID eventID now
  | .notificationWriter => db.persistNotification e eventID now

/-! ## State -/

structure Flight where
  row : OutboxRow
  arrived : Bool

inductive WorkerPc
  | publish
  | waiting (flight : Nat)
  | mark
  | release

/-- A worker in `relayBatch`, with the rows it has not finished. -/
structure Worker where
  batch : List OutboxRow
  pc : WorkerPc

inductive ReaderPc
  | fetch
  | handle (offset : Nat) (event : Event)
  | wait
  | commit (offset : Nat)

/-- A loop of `Consume` on one partition. -/
structure Reader where
  consumer : Consumer
  partition : Nat
  /-- The offset that the next `FetchMessage` returns. -/
  position : Nat
  pc : ReaderPc
  passed : List Nat

structure State where
  now : Nat
  db : Db
  workers : Table String Worker
  flights : List Flight
  logs : Table (Topic × Nat) (List Event)
  committed : Table (Consumer × Nat) Nat
  readers : Table Nat Reader

def initial (posts : Table String String) : State :=
  { now := 0, db := .empty posts, workers := .empty, flights := [], logs := .empty,
    committed := .empty, readers := .empty }

variable (s : State)

def State.log (topic : Topic) (partition : Nat) : List Event :=
  (s.logs.get? (topic, partition)).getD []

def State.offset (c : Consumer) (partition : Nat) : Nat :=
  (s.committed.get? (c, partition)).getD 0

/-- How a write ends; `unanswered` has taken effect but the client gets an error. -/
inductive Outcome
  | done
  | failed
  | unanswered
  deriving DecidableEq

inductive Label
  | tick (d : Nat)
  | like (postID actorID correlationID likeID eventID : String) (outcome : Outcome)
  | claim (w : String) (rows : List OutboxRow)
  | publish (w : String)
  | arrive (flight : Nat)
  | acked (w : String)
  | publishFailed (w : String)
  | mark (w : String) (outcome : Outcome)
  | release (w : String) (applied : Bool)
  | crash (w : String)
  | start (r : Nat) (c : Consumer) (partition : Nat)
  | fetch (r : Nat)
  | handle (r : Nat) (notificationID eventID : String) (outcome : Outcome)
  | wake (r : Nat)
  | commit (r : Nat) (outcome : Outcome)
  | stop (r : Nat)

/-! ## Steps -/

def State.setDb (db : Db) : State := { s with db := db }

def State.setWorker (w : String) (batch : List OutboxRow) (pc : WorkerPc) : State :=
  match batch with
  | [] => { s with workers := s.workers.erase w }
  | _ :: _ => { s with workers := s.workers.set w ⟨batch, pc⟩ }

def State.setReader (r : Nat) (reader : Reader) : State :=
  { s with readers := s.readers.set r reader }

def State.fresh (eventID : String) : Bool :=
  s.db.outbox.all fun row => row.event.id ≠ eventID

def State.relay (w : String) (row : OutboxRow) (rest : List OutboxRow) (pc : WorkerPc)
    (a : Label) : Option State :=
  match pc, a with
  | .publish, .publish _ =>
    if row.event.valid then
      some (State.setWorker { s with flights := s.flights ++ [⟨row, false⟩] } w (row :: rest)
        (.waiting s.flights.length))
    else some (s.setWorker w (row :: rest) .release)
  | .waiting i, .acked _ =>
    match s.flights[i]? with
    | some ⟨_, true⟩ => some (s.setWorker w (row :: rest) .mark)
    | _ => none
  | .waiting _, .publishFailed _ => some (s.setWorker w (row :: rest) .release)
  | .mark, .mark _ outcome =>
    let db := s.db.markOutboxPublished s.now row.event.id w
    match outcome with
    | .done => some ((s.setDb db).setWorker w rest .publish)
    | .failed => some (s.setWorker w [] .publish)
    | .unanswered => some ((s.setDb db).setWorker w [] .publish)
  | .release, .release _ applied =>
    let db := if applied then s.db.releaseOutbox row.event.id w else s.db
    some ((s.setDb db).setWorker w [] .publish)
  | _, _ => none

/-- `handler` on the message at the offset, after `DecodeEvent`. -/
def State.handle (r : Nat) (reader : Reader) (offset : Nat) (e : Event)
    (notificationID eventID : String) (outcome : Outcome) : Option State :=
  let failed : Reader := { reader with pc := .wait, passed := reader.passed ++ [offset] }
  if e.valid = false ∨ e.type ≠ reader.consumer.expects then some (s.setReader r failed)
  else
    let db := reader.consumer.transaction s.db e notificationID eventID s.now
    match outcome with
    | .done => some ((s.setDb db).setReader r { reader with pc := .commit offset })
    | .failed => some (s.setReader r failed)
    | .unanswered => some ((s.setDb db).setReader r failed)

def State.commitOffset (r : Nat) (reader : Reader) (offset : Nat) (outcome : Outcome) :
    State :=
  let s := s.setReader r { reader with pc := .fetch }
  match outcome with
  | .failed => s
  | .done | .unanswered =>
    { s with committed := s.committed.set (reader.consumer, reader.partition) (offset + 1) }

def State.consume (r : Nat) (reader : Reader) (a : Label) : Option State :=
  match reader.pc, a with
  | .fetch, .fetch _ =>
    match (s.log reader.consumer.topic reader.partition)[reader.position]? with
    | none => none
    | some e =>
      some (s.setReader r
        { reader with position := reader.position + 1, pc := .handle reader.position e })
  | .handle offset e, .handle _ notificationID eventID outcome =>
    if s.fresh eventID then s.handle r reader offset e notificationID eventID outcome else none
  | .wait, .wake _ => some (s.setReader r { reader with pc := .fetch })
  | .commit offset, .commit _ outcome => some (s.commitOffset r reader offset outcome)
  | _, .stop _ => some { s with readers := s.readers.erase r }
  | _, _ => none

section
variable (batchSize : Nat) (partitionOf : Topic → String → Nat)

def step (s : State) (a : Label) : Option State :=
  match a with
  | .tick d => some { s with now := s.now + d }
  | .like postID actorID correlationID likeID eventID outcome =>
    if s.fresh eventID then
      match s.db.recordLike postID actorID correlationID likeID eventID s.now with
      | .error _ => some s
      | .ok (db, _) => some (if outcome = .failed then s else s.setDb db)
    else none
  | .claim w rows =>
    if s.workers.get? w = none ∧ rows.length ≤ batchSize ∧
        (∀ row ∈ rows, row ∈ s.db.outbox ∧ s.db.claimable s.now row.event.id = true) then
      some ((s.setDb (s.db.claimOutbox w s.now (rows.map fun row => row.event.id))).setWorker w
        rows .publish)
    else none
  | .arrive i =>
    match s.flights[i]? with
    | none => none
    | some f =>
      let k := (f.row.topic, partitionOf f.row.topic f.row.event.key)
      some { s with
        logs := s.logs.set k (s.log k.1 k.2 ++ [f.row.event])
        flights := s.flights.set i { f with arrived := true } }
  | .crash w => some { s with workers := s.workers.erase w }
  | .publish w | .acked w | .publishFailed w | .mark w _ | .release w _ =>
    match s.workers.get? w with
    | some ⟨row :: rest, pc⟩ => s.relay w row rest pc a
    | _ => none
  | .start r c partition =>
    if (s.readers.get? r).isNone then
      some (s.setReader r ⟨c, partition, s.offset c partition, .fetch, []⟩)
    else none
  | .fetch r | .handle r _ _ _ | .wake r | .commit r _ | .stop r =>
    match s.readers.get? r with
    | none => none
    | some reader => s.consume r reader a

end

/-! ## What every run keeps -/

structure Inv (s : State) : Prop where
  db : DbInv s.db
  flights : ∀ f ∈ s.flights, f.row ∈ s.db.outbox
  batches : ∀ w worker, s.workers.get? w = some worker → ∀ row ∈ worker.batch, row ∈ s.db.outbox
  logs : ∀ topic partition, ∀ e ∈ s.log topic partition, OutboxRow.mk topic e ∈ s.db.outbox
  handling : ∀ r reader offset e, s.readers.get? r = some reader → reader.pc = .handle offset e →
    (s.log reader.consumer.topic reader.partition)[offset]? = some e

section
variable {s s' : State} {w : String} {r : Nat} {db : Db} {pc : WorkerPc} {reader : Reader}
  {eventID : String} {e : Event} {i : Nat} {f : Flight} {P : Prop}

theorem Inv.setDb (h : Inv s) (hdb : DbInv db) (hsub : s.db.outbox ⊆ db.outbox) :
    Inv (s.setDb db) where
  db := hdb
  flights f hf := hsub (h.flights f hf)
  batches w worker hw row hrow := hsub (h.batches w worker hw row hrow)
  logs topic partition e he := hsub (h.logs topic partition e he)
  handling := h.handling

theorem Inv.setWorkers (h : Inv s) {workers : Table String Worker}
    (hworkers : ∀ w worker, workers.get? w = some worker →
      ∀ row ∈ worker.batch, row ∈ s.db.outbox) : Inv { s with workers := workers } :=
  ⟨h.db, h.flights, hworkers, h.logs, h.handling⟩

theorem Inv.eraseWorker (h : Inv s) (w : String) :
    Inv { s with workers := s.workers.erase w } := by
  refine h.setWorkers fun w' worker hw' => ?_
  rw [get?_erase] at hw'
  split at hw'
  · cases hw'
  · exact h.batches w' worker hw'

theorem Inv.setWorker (h : Inv s) {batch : List OutboxRow}
    (hbatch : ∀ row ∈ batch, row ∈ s.db.outbox) : Inv (s.setWorker w batch pc) := by
  cases batch with
  | nil => exact h.eraseWorker w
  | cons row rest =>
    refine h.setWorkers fun w' worker hw' => ?_
    rw [get?_set] at hw'
    split at hw'
    · cases hw'
      exact hbatch
    · exact h.batches w' worker hw'

theorem Inv.setReader (h : Inv s) (hreader : ∀ offset e, reader.pc = .handle offset e →
      (s.log reader.consumer.topic reader.partition)[offset]? = some e) :
    Inv (s.setReader r reader) := { h with
  handling := by
    intro r' reader' offset e hr' hpc
    rw [State.setReader, get?_set] at hr'
    split at hr'
    · cases hr'
      exact hreader offset e hpc
    · exact h.handling r' reader' offset e hr' hpc }

theorem fresh_iff (h : s.fresh eventID = true) :
    ∀ row ∈ s.db.outbox, row.event.id ≠ eventID := by
  intro row hrow
  have hne := all_eq_true.mp h row hrow
  exact of_decide_eq_true hne

theorem transaction_inv (c : Consumer) (h : DbInv db)
    (he : OutboxRow.mk c.topic e ∈ db.outbox) {notificationID : String} {now : Nat}
    (hnew : ∀ row ∈ db.outbox, row.event.id ≠ eventID) :
    DbInv (c.transaction db e notificationID eventID now) := by
  cases c with
  | engagementProjector => exact applyEngagement_inv h he rfl hnew
  | notificationWriter => exact persistNotification_inv h he rfl hnew

theorem transaction_grows (c : Consumer) (db : Db) (e : Event) (notificationID eventID : String)
    (now : Nat) :
    db.outbox ⊆ (c.transaction db e notificationID eventID now).outbox ∧
      db.processed ⊆ (c.transaction db e notificationID eventID now).processed ∧
      (c, e.id) ∈ (c.transaction db e notificationID eventID now).processed := by
  cases c with
  | engagementProjector => exact applyEngagement_grows db e notificationID eventID now
  | notificationWriter => exact persistNotification_grows db e eventID now

variable {a : Label}

theorem relay_inv {row : OutboxRow} {rest : List OutboxRow} (h : Inv s)
    (hbatch : ∀ row' ∈ row :: rest, row' ∈ s.db.outbox)
    (hstep : s.relay w row rest pc a = some s') : Inv s' := by
  have hnil : ∀ row ∈ ([] : List OutboxRow), row ∈ s.db.outbox :=
    fun _ hrow => (not_mem_nil hrow).elim
  have houtbox := (mark_outbox s.db s.now row.event.id w).1
  have hmark : Inv (s.setDb (s.db.markOutboxPublished s.now row.event.id w)) :=
    h.setDb (mark_inv h.db s.now _ w) (houtbox ▸ Subset.refl _)
  revert hstep
  fun_cases State.relay s w row rest pc a <;> rintro ⟨⟩
  · refine Inv.setWorker (s := { s with flights := s.flights ++ [⟨row, false⟩] })
      ⟨h.db, fun f hf => ?_, h.batches, h.logs, h.handling⟩ hbatch
    obtain hf | rfl := mem_concat_cases hf
    · exact h.flights f hf
    · exact hbatch row mem_cons_self
  · exact h.setWorker hbatch
  · exact h.setWorker hbatch
  · exact h.setWorker hbatch
  · refine hmark.setWorker fun row' hrow' => ?_
    exact houtbox ▸ hbatch row' (mem_cons_of_mem _ hrow')
  · exact h.setWorker hnil
  · exact hmark.setWorker fun _ hrow => (not_mem_nil hrow).elim
  · have hreleased : Inv (s.setDb (s.db.releaseOutbox row.event.id w)) :=
      h.setDb (release_inv h.db _ w)
        ((release_outbox s.db row.event.id w).1 ▸ Subset.refl _)
    rename_i applied _
    cases applied with
    | true => exact hreleased.setWorker fun _ hrow => (not_mem_nil hrow).elim
    | false => exact h.setWorker hnil

theorem consume_inv (h : Inv s) (hr : s.readers.get? r = some reader)
    (hstep : s.consume r reader a = some s') : Inv s' := by
  revert hstep
  fun_cases State.consume s r reader a <;> intro hstep <;> try cases hstep
  · rename_i he
    refine h.setReader fun offset e' hpc => ?_
    cases hpc
    exact he
  · rename_i offset e _ notificationID eventID outcome hpc hfresh
    have hget := h.handling r reader offset e hr hpc
    have he := h.logs _ _ e (mem_of_getElem? hget)
    have hdone : Inv (s.setDb
        (reader.consumer.transaction s.db e notificationID eventID s.now)) :=
      h.setDb (transaction_inv reader.consumer h.db he (fresh_iff hfresh))
        (transaction_grows reader.consumer s.db e notificationID eventID s.now).1
    revert hstep
    fun_cases State.handle s r reader offset e notificationID eventID outcome <;> rintro ⟨⟩
    · exact h.setReader nofun
    · exact hdone.setReader nofun
    · exact h.setReader nofun
    · exact hdone.setReader nofun
  · exact h.setReader nofun
  · rename_i offset _ outcome hpc
    have hreader : Inv (s.setReader r { reader with pc := .fetch }) := h.setReader nofun
    cases outcome with
    | failed => exact hreader
    | done | unanswered =>
      exact ⟨hreader.db, hreader.flights, hreader.batches, hreader.logs, hreader.handling⟩
  · refine ⟨h.db, h.flights, h.batches, h.logs, fun r' reader' offset e hr' hpc => ?_⟩
    rw [get?_erase] at hr'
    split at hr'
    · cases hr'
    · exact h.handling r' reader' offset e hr' hpc

theorem log_set (s : State) (k : Topic × Nat) (log : List Event) (flights : List Flight)
    (topic : Topic) (partition : Nat) :
    State.log { s with logs := s.logs.set k log, flights := flights } topic partition =
      if (topic, partition) = k then log else s.log topic partition := by
  rw [State.log, get?_set]
  split
  · rfl
  · rfl

theorem getElem?_of_prefix {l l' : List Event} (h : l <+: l')
    (he : l[i]? = some e) : l'[i]? = some e := by
  obtain ⟨rest, rfl⟩ := h
  rw [getElem?_append_left (List.getElem?_eq_some_iff.mp he).1, he]

variable {partitionOf : Topic → String → Nat}

theorem arrive_log (flights : List Flight) (topic : Topic) (partition : Nat) :
    s.log topic partition <+: State.log { s with
      logs := s.logs.set (f.row.topic, partitionOf f.row.topic f.row.event.key)
        (s.log f.row.topic (partitionOf f.row.topic f.row.event.key) ++ [f.row.event])
      flights := flights } topic partition := by
  rw [log_set]
  split
  · rename_i hkey
    cases hkey
    exact prefix_append _ _
  · exact prefix_rfl

theorem arrive_inv (h : Inv s) (hf : s.flights[i]? = some f) :
    Inv { s with
      logs := s.logs.set (f.row.topic, partitionOf f.row.topic f.row.event.key)
        (s.log f.row.topic (partitionOf f.row.topic f.row.event.key) ++ [f.row.event])
      flights := s.flights.set i { f with arrived := true } } := { h with
  flights := by
    intro f' hf'
    obtain hf' | rfl := mem_or_eq_of_mem_set hf'
    · exact h.flights f' hf'
    · exact h.flights f (mem_of_getElem? hf)
  logs := by
    intro topic partition e he
    rw [log_set] at he
    split at he
    · rename_i hkey
      cases hkey
      obtain he | rfl := mem_concat_cases he
      · exact h.logs _ _ e he
      · exact h.flights f (mem_of_getElem? hf)
    · exact h.logs topic partition e he
  handling := by
    intro r reader offset e hr hpc
    have hget := h.handling r reader offset e hr hpc
    exact getElem?_of_prefix (arrive_log _ _ _) hget }

theorem of_worker (h : ∀ row rest pc, s.workers.get? w = some ⟨row :: rest, pc⟩ →
    s.relay w row rest pc a = some s' → P) (hstep : (match s.workers.get? w with
      | some ⟨row :: rest, pc⟩ => s.relay w row rest pc a
      | _ => none) = some s') : P := by
  split at hstep <;> try cases hstep
  rename_i row rest pc hw
  exact h row rest pc hw hstep

theorem of_reader (h : ∀ reader, s.readers.get? r = some reader →
    s.consume r reader a = some s' → P) (hstep : (match s.readers.get? r with
      | none => none
      | some reader => s.consume r reader a) = some s') : P := by
  split at hstep <;> try cases hstep
  rename_i reader hr
  exact h reader hr hstep

theorem step_inv {batchSize : Nat} (h : Inv s) (hstep : step batchSize partitionOf s a = some s') :
    Inv s' := by
  cases a with
  | tick d =>
    cases hstep
    exact ⟨h.db, h.flights, h.batches, h.logs, h.handling⟩
  | like postID actorID correlationID likeID eventID outcome =>
    rw [step] at hstep
    split at hstep <;> try cases hstep
    rename_i hfresh
    split at hstep <;> cases hstep
    · exact h
    rename_i db created hrecord
    split
    · exact h
    · exact h.setDb (recordLike_inv h.db (fresh_iff hfresh) hrecord)
        (recordLike_outbox hrecord).1
  | claim w rows =>
    simp only [step, Option.ite_none_right_eq_some] at hstep
    obtain ⟨⟨-, -, hrows⟩, hstep⟩ := hstep
    cases hstep
    have hclaimed : DbInv (s.db.claimOutbox w s.now (rows.map fun row => row.event.id)) :=
      h.db.leases _
    exact (h.setDb hclaimed (Subset.refl _)).setWorker fun row hrow => (hrows row hrow).1
  | arrive i =>
    rw [step] at hstep
    split at hstep <;> cases hstep
    rename_i f hf
    exact arrive_inv h hf
  | crash w =>
    cases hstep
    exact h.eraseWorker w
  | start r c partition =>
    simp only [step, Option.ite_none_right_eq_some] at hstep
    cases hstep.2
    exact h.setReader nofun
  | publish w | acked w | publishFailed w | mark w outcome | release w applied =>
    exact of_worker (fun _ _ _ hw => relay_inv h (h.batches w _ hw)) hstep
  | fetch r | handle r notificationID eventID outcome | wake r | commit r outcome | stop r =>
    exact of_reader (fun _ hr => consume_inv h hr) hstep

theorem inv_initial (posts : Table String String) : Inv (initial posts) where
  db := dbInv_empty posts
  flights _ h := (List.not_mem_nil h).elim
  batches := by
    intro w worker hw
    cases hw
  logs _ _ _ h := (not_mem_nil h).elim
  handling := by
    intro r reader offset e hr
    cases hr

end

/-- In every run the counter of a post is the number of its processed engagement events, which
is at most the number of its likes; these have different actors. -/
theorem likes_counted_once (batchSize : Nat) (partitionOf : Topic → String → Nat)
    {posts : Table String String} {as : List Label} {s : State}
    (hrun : run (step batchSize partitionOf) (initial posts) as = some s) :
    (∀ postID, s.db.likesCount postID = s.db.projected postID ∧
      s.db.likesCount postID ≤ s.db.likesOf postID) ∧
    likeIndex.Holds s.db.likes ∧
    (∀ postID actorID,
      (s.db.notifications.countP fun n => n.postID = postID ∧ n.actorID = actorID) ≤ 1) ∧
    ∀ n ∈ s.db.notifications,
      (∃ like ∈ s.db.likes, like.postID = n.postID ∧ like.actorID = n.actorID) ∧
        ∃ author, s.db.posts.get? n.postID = some author ∧ author ≠ n.actorID := by
  have hs : Inv s := run_invariant (fun _ _ _ h => step_inv h) (inv_initial posts) hrun
  refine ⟨fun postID => ⟨hs.db.counts postID, ?_⟩, hs.db.likes, hs.db.notifications_le_one, ?_⟩
  · rw [hs.db.counts postID]
    exact hs.db.projected_le postID
  intro n hn
  obtain ⟨row, hrow, -, l, hl, hpost, hactor, hauthor⟩ := hs.db.notified n hn
  obtain ⟨hposts, like, hlike, hlp, hla⟩ := hs.db.liked row hrow l hl
  rw [← hpost, ← hactor]
  exact ⟨⟨like, hlike, hlp, hla⟩, l.postAuthorID, hposts, hauthor⟩

/-! ## One like -/

def samplePosts : Table String String := Table.empty.set "post-1" "ann"

def likeEvent : Event :=
  newEvent "e1" 0 .engagementRecorded "post-1" "c1" (.like ⟨"l1", "post-1", "ann", "bob"⟩)

def requestEvent : Event :=
  newEvent "e2" 0 .notificationRequested "ann" "c1"
    (.request ⟨"n1", "ann", "bob", "post-1", "like", "e1"⟩)

def relayed (row : OutboxRow) (flight copies : Nat) : List Label :=
  [.claim "relay-1" [row], .publish "relay-1"] ++ List.replicate copies (.arrive flight) ++
    [.acked "relay-1", .mark "relay-1" .done]

def likedTwicePublished : List Label :=
  [.like "post-1" "bob" "c1" "l1" "e1" .done] ++ relayed ⟨.engagement, likeEvent⟩ 0 2 ++
    [.start 1 .engagementProjector 0, .fetch 1, .handle 1 "n1" "e2" .done, .commit 1 .done,
      .fetch 1, .handle 1 "n2" "e3" .done, .commit 1 .done] ++
    relayed ⟨.notification, requestEvent⟩ 1 1 ++
    [.start 2 .notificationWriter 0, .fetch 2, .handle 2 "n3" "e4" .done]

theorem likes_counted_once_republished :
    ∃ s, run (step 10 fun _ _ => 0) (initial samplePosts) likedTwicePublished = some s ∧
      s.db.notifications.length = 1 ∧ s.db.likesCount "post-1" = 1 ∧
      s.db.likesCount "post-1" ≤ s.db.likesOf "post-1" := by
  refine exists_some_imp (A := fun s => s.db.notifications.length = 1 ∧
    s.db.likesCount "post-1" = 1)
    (by decide +kernel) fun s hrun ⟨hlength, hcount⟩ => ?_
  obtain ⟨hcounts, -⟩ := likes_counted_once 10 (fun _ _ => 0) hrun
  exact ⟨hlength, hcount, (hcounts "post-1").2⟩

end GoServices.Social
