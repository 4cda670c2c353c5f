/-
The database of the social pipeline: likes, the outbox, the inbox and the projections.

A like and its event are written in one transaction.
-/
import GoServices.Base.CountMap
import GoServices.Base.Run
import GoServices.Base.UniqueIndex

namespace GoServices.Social

open List UniqueIndex

inductive Topic
  | engagement
  | notification
  | delivery
  deriving DecidableEq

inductive EventType
  | engagementRecorded
  | notificationRequested
  | notificationDelivered
  deriving DecidableEq

structure LikeRecorded where
  likeID : String
  postID : String
  postAuthorID : String
  actorID : String
  deriving DecidableEq

structure NotificationRequested where
  notificationID : String
  recipientID : String
  actorID : String
  postID : String
  kind : String
  sourceEventID : String
  deriving DecidableEq

structure NotificationDelivered where
  notificationID : String
  recipientID : String
  sourceEventID : String
  deriving DecidableEq

/-- The JSON object in `Data`. -/
inductive Data
  | like (d : LikeRecorded)
  | request (d : NotificationRequested)
  | delivered (d : NotificationDelivered)
  deriving DecidableEq

structure Event where
  id : String
  type : EventType
  schemaVersion : Nat
  occurredAt : Nat
  key : String
  correlationID : String
  data : Data
  deriving DecidableEq

/-- `NewEvent`, given what `newID` and the clock return. -/
def newEvent (id : String) (now : Nat) (kind : EventType) (key correlationID : String)
    (data : Data) : Event :=
  { id := id, type := kind, schemaVersion := 1, occurredAt := now, key := key,
    correlationID := correlationID, data := data }

/-- The check of `DecodeEvent`. -/
def Event.valid (e : Event) : Bool := !(e.id = "" || e.key = "" || e.schemaVersion ≠ 1)

/-- `json.Unmarshal` into a `LikeRecorded`, which leaves the fields empty that the object does
not have. -/
def Data.asLike : Data → LikeRecorded
  | .like d => d
  | .request d => ⟨"", d.postID, "", d.actorID⟩
  | .delivered _ => ⟨"", "", "", ""⟩

/-- `json.Unmarshal` into a `NotificationRequested`. -/
def Data.asRequest : Data → NotificationRequested
  | .request d => d
  | .like d => ⟨"", "", d.actorID, d.postID, "", ""⟩
  | .delivered d => ⟨d.notificationID, d.recipientID, "", "", "", d.sourceEventID⟩

/-! ## Tables -/

structure Like where
  id : String
  postID : String
  actorID : String

structure Notification where
  id : String
  recipientID : String
  actorID : String
  postID : String
  kind : String
  sourceEventID : String

inductive Consumer
  | engagementProjector
  | notificationWriter
  deriving DecidableEq

structure OutboxRow where
  topic : Topic
  event : Event
  deriving DecidableEq

structure Lease where
  publishedAt : Option Nat
  lockedBy : Option String
  lockedUntil : Option Nat

structure Db where
  posts : Table String String
  likes : List Like
  outbox : List OutboxRow
  leases : Table String Lease
  processed : List (Consumer × String)
  /-- `likes_count` by post. -/
  counters : Table String Nat
  notifications : List Notification

def Db.empty (posts : Table String String) : Db :=
  { posts := posts, likes := [], outbox := [], leases := .empty, processed := [],
    counters := .empty, notifications := [] }

/-- `UNIQUE (post_id, actor_id)`. -/
def likeIndex : UniqueIndex Like (String × String) :=
  { covers := fun _ => true, key := fun l => (l.postID, l.actorID) }

/-- The primary key of `processed_events`. -/
def processedIndex : UniqueIndex (Consumer × String) (Consumer × String) :=
  { covers := fun _ => true, key := id }

/-- `UNIQUE (source_event_id)`. -/
def notificationIndex : UniqueIndex Notification String :=
  { covers := fun _ => true, key := fun n => n.sourceEventID }

/-- The primary key of `outbox_events`. -/
def outboxIndex : UniqueIndex OutboxRow String :=
  { covers := fun _ => true, key := fun row => row.event.id }

namespace Db

variable (db : Db)

def insertOutbox (event : Event) (topic : Topic) : Db :=
  { db with outbox := db.outbox ++ [⟨topic, event⟩] }

/-! ## Transactions -/

def postNotFound : String := "post not found"

/-- `RecordLike`, with the ids of the like and of its event. -/
def recordLike (postID actorID correlationID likeID eventID : String) (now : Nat) :
    Except String (Db × Bool) :=
  match db.posts.get? postID with
  | none => .error postNotFound
  | some postAuthorID =>
    let like : Like := ⟨likeID, postID, actorID⟩
    if likeIndex.conflicts db.likes like then .ok (db, false)
    else
      let event := newEvent eventID now .engagementRecorded postID correlationID
        (.like ⟨likeID, postID, postAuthorID, actorID⟩)
      .ok ({ db with likes := db.likes ++ [like] }.insertOutbox event .engagement, true)

def lease (id : String) : Lease := (db.leases.get? id).getD ⟨none, none, none⟩

def leaseTime : Nat := 30

/-- The condition of the `SELECT` in `ClaimOutbox`. -/
def claimable (now : Nat) (id : String) : Bool :=
  (db.outbox.any fun row => row.event.id = id) ∧ (db.lease id).publishedAt = none ∧
    (db.lease id).lockedUntil.all fun t => t < now

def claimOutbox (workerID : String) (now : Nat) (ids : List String) : Db :=
  { db with
    leases := ids.foldl
      (fun leases id => leases.set id ⟨none, some workerID, some (now + leaseTime)⟩) db.leases }

def markOutboxPublished (now : Nat) (id workerID : String) : Db :=
  if (db.lease id).lockedBy = some workerID then
    { db with leases := db.leases.set id ⟨some now, none, none⟩ }
  else db

def releaseOutbox (id workerID : String) : Db :=
  if (db.lease id).lockedBy = some workerID then
    { db with
      leases := db.leases.set id { db.lease id with lockedBy := none, lockedUntil := none } }
  else db

/-- `ApplyEngagement`, with the ids it draws. -/
def applyEngagement (event : Event) (notificationID eventID : String) (now : Nat) : Db :=
  let like := event.data.asLike
  if processedIndex.conflicts db.processed (.engagementProjector, event.id) then db
  else
    let db : Db := { db with
      processed := db.processed ++ [(.engagementProjector, event.id)]
      counters := db.counters.set like.postID (db.counters.read like.postID + 1) }
    if like.postAuthorID ≠ like.actorID then
      db.insertOutbox
        (newEvent eventID now .notificationRequested like.postAuthorID event.correlationID
          (.request ⟨notificationID, like.postAuthorID, like.actorID, like.postID, "like",
            event.id⟩))
        .notification
    else db

/-- `PersistNotification`, with the id of its event. -/
def persistNotification (event : Event) (eventID : String) (now : Nat) : Db :=
  let request := event.data.asRequest
  if processedIndex.conflicts db.processed (.notificationWriter, event.id) then db
  else
    let row : Notification := ⟨request.notificationID, request.recipientID, request.actorID,
      request.postID, request.kind, request.sourceEventID⟩
    let db : Db := { db with
      processed := db.processed ++ [(.notificationWriter, event.id)]
      notifications :=
        if notificationIndex.conflicts db.notifications row then db.notifications
        else db.notifications ++ [row] }
    db.insertOutbox
      (newEvent eventID now .notificationDelivered request.recipientID event.correlationID
        (.delivered ⟨request.notificationID, request.recipientID, request.sourceEventID⟩))
      .delivery

end Db

/-! ## Counts -/

def OutboxRow.likedPost (row : OutboxRow) : Option String :=
  match row.event.data with
  | .like l => some l.postID
  | _ => none

def Data.topic : Data → Topic
  | .like _ => .engagement
  | .request _ => .notification
  | .delivered _ => .delivery

namespace Db

variable (db : Db)

def postOf (id : String) : Option String :=
  (db.outbox.find? fun row => row.event.id = id).bind OutboxRow.likedPost

def likesCount (postID : String) : Nat := db.counters.read postID

def projected (postID : String) : Nat :=
  db.processed.countP fun x => x.1 = .engagementProjector ∧ db.postOf x.2 = some postID

def likesOf (postID : String) : Nat := db.likes.countP fun l => l.postID = postID

def LikedBy (id postID actorID : String) : Prop :=
  ∃ row ∈ db.outbox, row.event.id = id ∧ ∃ l, row.event.data = .like l ∧ l.postID = postID ∧
    l.actorID = actorID ∧ l.postAuthorID ≠ l.actorID

end Db

structure DbInv (db : Db) : Prop where
  ids : outboxIndex.Holds db.outbox
  topics : ∀ row ∈ db.outbox, row.topic = row.event.data.topic
  likes : likeIndex.Holds db.likes
  liked : ∀ row ∈ db.outbox, ∀ l, row.event.data = .like l →
    db.posts.get? l.postID = some l.postAuthorID ∧
      ∃ like ∈ db.likes, like.postID = l.postID ∧ like.actorID = l.actorID
  once : ∀ row ∈ db.outbox, ∀ row' ∈ db.outbox, ∀ l l', row.event.data = .like l →
    row'.event.data = .like l' → l.postID = l'.postID → l.actorID = l'.actorID → row = row'
  counted : ∀ postID, (db.outbox.countP fun row => row.likedPost = some postID) = db.likesOf postID
  requested : ∀ row ∈ db.outbox, ∀ q, row.event.data = .request q →
    db.LikedBy q.sourceEventID q.postID q.actorID
  notified : ∀ n ∈ db.notifications, db.LikedBy n.sourceEventID n.postID n.actorID
  sources : notificationIndex.Holds db.notifications
  processed : processedIndex.Holds db.processed
  known : ∀ id, (.engagementProjector, id) ∈ db.processed → ∃ postID, db.postOf id = some postID
  counts : ∀ postID, db.likesCount postID = db.projected postID

section
variable {db : Db} {row : OutboxRow}

theorem DbInv.postOf_row (h : DbInv db) (hrow : row ∈ db.outbox) :
    db.postOf row.event.id = row.likedPost := by
  rw [Db.postOf]
  cases hfind : db.outbox.find? fun row' => row'.event.id = row.event.id with
  | none =>
    have hnone := find?_eq_none.mp hfind row hrow
    simp at hnone
  | some row' =>
    have hid : row'.event.id = row.event.id := by simpa using find?_some hfind
    rw [h.ids.eq_of_key (mem_of_find?_eq_some hfind) hrow rfl rfl hid]
    rfl

variable {id postID : String} {rows : List OutboxRow}

theorem postOf_append (h : db.postOf id = some postID) :
    Db.postOf { db with outbox := db.outbox ++ rows } id = some postID := by
  obtain ⟨row, hfind, hpost⟩ := Option.bind_eq_some_iff.mp h
  rw [Db.postOf, find?_append, hfind]
  exact hpost

variable {actorID correlationID likeID : String} {topic : Topic} {l : LikeRecorded} {db' : Db}
  {created : Bool}

theorem likedBy_append (h : db.LikedBy id postID actorID) :
    Db.LikedBy { db with outbox := db.outbox ++ rows } id postID actorID := by
  obtain ⟨row, hrow, hfacts⟩ := h
  exact ⟨row, mem_append_left _ hrow, hfacts⟩

theorem DbInv.projected_append (h : DbInv db) (rows : List OutboxRow) (postID : String) :
    Db.projected { db with outbox := db.outbox ++ rows } postID = db.projected postID := by
  refine countP_congr fun x hx => ?_
  obtain ⟨consumer, id⟩ := x
  simp only [decide_eq_true_eq]
  refine and_congr_right fun hconsumer => ?_
  cases hconsumer
  obtain ⟨postID', hpost⟩ := h.known id hx
  rw [hpost, postOf_append hpost]

variable {event : Event}

theorem DbInv.insert (h : DbInv db) (hnew : outboxIndex.conflicts db.outbox ⟨topic, event⟩ = false)
    (htopic : topic = event.data.topic) (hlike : ∀ l, event.data ≠ .like l)
    (hrequest : ∀ q, event.data = .request q → db.LikedBy q.sourceEventID q.postID q.actorID) :
    DbInv (db.insertOutbox event topic) := { h with
  ids := h.ids.insert hnew
  topics := by
    intro row hrow
    obtain hrow | rfl := mem_concat_cases hrow
    · exact h.topics row hrow
    · exact htopic
  liked := by
    intro row hrow l hl
    obtain hrow | rfl := mem_concat_cases hrow
    · exact h.liked row hrow l hl
    · exact absurd hl (hlike l)
  once := by
    intro row hrow row' hrow' l l' hl hl'
    obtain hrow | rfl := mem_concat_cases hrow
    · obtain hrow' | rfl := mem_concat_cases hrow'
      · exact h.once row hrow row' hrow' l l' hl hl'
      · exact absurd hl' (hlike l')
    · exact absurd hl (hlike l)
  counted := by
    intro postID
    have hnone : OutboxRow.likedPost ⟨topic, event⟩ = none := by
      rw [OutboxRow.likedPost]
      split
      · rename_i l hl
        exact absurd hl (hlike l)
      · rfl
    rw [Db.insertOutbox, countP_append, h.counted postID]
    simp [hnone, Db.likesOf]
  requested := by
    intro row hrow q hq
    obtain hrow | rfl := mem_concat_cases hrow
    · exact likedBy_append (h.requested row hrow q hq)
    · exact likedBy_append (hrequest q hq)
  notified := fun n hn => likedBy_append (h.notified n hn)
  known := by
    intro id hid
    obtain ⟨postID, hpost⟩ := h.known id hid
    exact ⟨postID, postOf_append hpost⟩
  counts := fun postID => (h.counts postID).trans (h.projected_append _ postID).symm }

theorem DbInv.leases (h : DbInv db) (leases : Table String Lease) :
    DbInv { db with leases := leases } :=
  ⟨h.ids, h.topics, h.likes, h.liked, h.once, h.counted, h.requested, h.notified, h.sources,
    h.processed, h.known, h.counts⟩

theorem mark_inv (h : DbInv db) (now : Nat) (id workerID : String) :
    DbInv (db.markOutboxPublished now id workerID) := by
  rw [Db.markOutboxPublished]
  split
  · exact h.leases _
  · exact h

theorem release_inv (h : DbInv db) (id workerID : String) :
    DbInv (db.releaseOutbox id workerID) := by
  rw [Db.releaseOutbox]
  split
  · exact h.leases _
  · exact h

theorem not_conflicts_outbox (h : ∀ row ∈ db.outbox, row.event.id ≠ event.id) :
    outboxIndex.conflicts db.outbox ⟨topic, event⟩ = false := by
  rw [← Bool.not_eq_true, conflicts_eq_true]
  rintro ⟨-, row, hrow, -, hid⟩
  exact h row hrow hid

/-! ### The like -/

theorem DbInv.addLike (h : DbInv db) {like : Like}
    (hfree : likeIndex.conflicts db.likes like = false)
    (hnew : outboxIndex.conflicts db.outbox ⟨.engagement, event⟩ = false)
    (hdata : event.data = .like l) (hpost : like.postID = l.postID)
    (hactor : like.actorID = l.actorID) (hauthor : db.posts.get? l.postID = some l.postAuthorID) :
    DbInv (Db.insertOutbox { db with likes := db.likes ++ [like] } event .engagement) := { h with
  ids := h.ids.insert hnew
  topics := by
    intro row hrow
    obtain hrow | rfl := mem_concat_cases hrow
    · exact h.topics row hrow
    rw [hdata]
    rfl
  likes := h.likes.insert hfree
  liked := by
    intro row hrow l' hl'
    obtain hrow | rfl := mem_concat_cases hrow
    · obtain ⟨hposts, like', hlike', hfacts⟩ := h.liked row hrow l' hl'
      exact ⟨hposts, like', mem_append_left _ hlike', hfacts⟩
    cases hdata.symm.trans hl'
    exact ⟨hauthor, like, mem_concat_self, hpost, hactor⟩
  once := by
    have hclash {row : OutboxRow} (hrow : row ∈ db.outbox) {l' : LikeRecorded}
        (hl' : row.event.data = .like l') (hpost' : l'.postID = l.postID)
        (hactor' : l'.actorID = l.actorID) : False := by
      obtain ⟨-, like', hlike', hp, ha⟩ := h.liked row hrow l' hl'
      have hconflict : likeIndex.conflicts db.likes like = true := by
        refine conflicts_eq_true.mpr ⟨rfl, like', hlike', rfl, ?_⟩
        show (like'.postID, like'.actorID) = (like.postID, like.actorID)
        rw [hp, ha, hpost, hactor, hpost', hactor']
      rw [hfree] at hconflict
      cases hconflict
    intro row hrow row' hrow' l₁ l₂ hl₁ hl₂ hpost' hactor'
    obtain hrow | rfl := mem_concat_cases hrow
    · obtain hrow' | rfl := mem_concat_cases hrow'
      · exact h.once row hrow row' hrow' l₁ l₂ hl₁ hl₂ hpost' hactor'
      · cases hdata.symm.trans hl₂
        exact (hclash hrow hl₁ hpost' hactor').elim
    cases hdata.symm.trans hl₁
    obtain hrow' | hrow' := mem_append.mp hrow'
    · exact (hclash hrow' hl₂ hpost'.symm hactor'.symm).elim
    · exact (mem_singleton.mp hrow').symm
  counted := by
    intro postID
    have hliked : OutboxRow.likedPost ⟨.engagement, event⟩ = some l.postID := by
      rw [OutboxRow.likedPost, hdata]
    rw [Db.insertOutbox, countP_append, h.counted postID, Db.likesOf, Db.likesOf, countP_append]
    simp [hliked, hpost]
  requested := by
    intro row hrow q hq
    obtain hrow | rfl := mem_concat_cases hrow
    · exact likedBy_append (h.requested row hrow q hq)
    · cases hdata.symm.trans hq
  notified := fun n hn => likedBy_append (h.notified n hn)
  known := by
    intro id hid
    obtain ⟨postID, hp⟩ := h.known id hid
    exact ⟨postID, postOf_append hp⟩
  counts := fun postID => (h.counts postID).trans (h.projected_append _ postID).symm }

variable {eventID : String} {now : Nat}

theorem recordLike_inv (h : DbInv db) (hnew : ∀ row ∈ db.outbox, row.event.id ≠ eventID)
    (hrecord : db.recordLike postID actorID correlationID likeID eventID now = .ok (db', created)) :
    DbInv db' := by
  rw [Db.recordLike] at hrecord
  split at hrecord
  · cases hrecord
  rename_i author hauthor
  dsimp only at hrecord
  split at hrecord <;> cases hrecord
  · exact h
  rename_i hfree
  exact h.addLike (Bool.not_eq_true _ ▸ hfree) (not_conflicts_outbox hnew) rfl rfl rfl hauthor

/-! ### The projection -/

theorem DbInv.project (h : DbInv db) (hrow : row ∈ db.outbox) (hl : row.event.data = .like l)
    (hnew : processedIndex.conflicts db.processed (.engagementProjector, row.event.id) = false) :
    DbInv { db with
      processed := db.processed ++ [(.engagementProjector, row.event.id)]
      counters := db.counters.set l.postID (db.counters.read l.postID + 1) } := { h with
  processed := h.processed.insert hnew
  known := by
    intro id hid
    obtain hid | heq := mem_concat_cases hid
    · exact h.known id hid
    cases heq
    refine ⟨l.postID, (h.postOf_row hrow).trans ?_⟩
    rw [OutboxRow.likedPost, hl]
  counts := by
    intro postID
    have hpost : db.postOf row.event.id = some l.postID := by
      rw [h.postOf_row hrow, OutboxRow.likedPost, hl]
    have hone : countP (fun x => decide
          (x.1 = Consumer.engagementProjector ∧ db.postOf x.2 = some postID))
        [(Consumer.engagementProjector, row.event.id)] = if l.postID = postID then 1 else 0 := by
      simp [hpost]
    have hcount : db.counters.read postID = db.projected postID := h.counts postID
    rw [Db.likesCount, Db.projected, Table.read_set, countP_append]
    change _ = db.projected postID + countP _ _
    rw [← hcount]
    refine Eq.trans ?_ (congrArg (db.counters.read postID + ·) hone.symm)
    by_cases heq : l.postID = postID
    · subst heq
      simp
    · simp [heq, Ne.symm heq] }

theorem applyEngagement_inv (h : DbInv db) (hrow : row ∈ db.outbox)
    (htopic : row.topic = .engagement) {notificationID : String}
    (hnew : ∀ row ∈ db.outbox, row.event.id ≠ eventID) :
    DbInv (db.applyEngagement row.event notificationID eventID now) := by
  obtain ⟨l, hl⟩ : ∃ l, row.event.data = .like l := by
    have hdata := (h.topics row hrow).symm.trans htopic
    cases hl : row.event.data with
    | like l => exact ⟨l, rfl⟩
    | request q | delivered d =>
      rw [hl] at hdata
      cases hdata
  have hlike : row.event.data.asLike = l := by
    rw [hl]
    rfl
  rw [Db.applyEngagement, hlike]
  split
  · exact h
  rename_i hfree
  have hprojected := h.project hrow hl (Bool.not_eq_true _ ▸ hfree)
  split
  · rename_i hauthor
    refine hprojected.insert (not_conflicts_outbox hnew) rfl (fun l h => by cases h) ?_
    rintro q hq
    cases hq
    exact ⟨row, hrow, rfl, l, hl, rfl, rfl, hauthor⟩
  · exact hprojected

/-! ### The notification -/

theorem DbInv.notify (h : DbInv db) {n : Notification}
    (hliked : db.LikedBy n.sourceEventID n.postID n.actorID)
    (hnew : processedIndex.conflicts db.processed (.notificationWriter, id) = false) :
    DbInv { db with
      processed := db.processed ++ [(.notificationWriter, id)]
      notifications :=
        if notificationIndex.conflicts db.notifications n then db.notifications
        else db.notifications ++ [n] } := { h with
  notified := by
    intro n' hn'
    dsimp only at hn'
    split at hn'
    · exact h.notified n' hn'
    obtain hn' | rfl := mem_concat_cases hn'
    · exact h.notified n' hn'
    · exact hliked
  sources := by
    dsimp only
    split
    · exact h.sources
    · rename_i hfree
      exact h.sources.insert (Bool.not_eq_true _ ▸ hfree)
  processed := h.processed.insert hnew
  known := by
    intro id' hid'
    obtain hid' | hid' := mem_append.mp hid'
    · exact h.known id' hid'
    · cases mem_singleton.mp hid'
  counts := by
    intro postID
    rw [Db.projected, countP_append]
    simp only [countP_singleton, reduceCtorEq, false_and, decide_false, Bool.false_eq_true,
      if_false, Nat.add_zero]
    exact h.counts postID }

theorem persistNotification_inv (h : DbInv db) (hrow : row ∈ db.outbox)
    (htopic : row.topic = .notification) (hnew : ∀ row ∈ db.outbox, row.event.id ≠ eventID) :
    DbInv (db.persistNotification row.event eventID now) := by
  obtain ⟨q, hq⟩ : ∃ q, row.event.data = .request q := by
    have hdata := (h.topics row hrow).symm.trans htopic
    cases hq : row.event.data with
    | request q => exact ⟨q, rfl⟩
    | like l | delivered d =>
      rw [hq] at hdata
      cases hdata
  have hrequest : row.event.data.asRequest = q := by
    rw [hq]
    rfl
  rw [Db.persistNotification, hrequest]
  split
  · exact h
  rename_i hfree
  have hnotified := h.notify (n := ⟨q.notificationID, q.recipientID, q.actorID, q.postID, q.kind,
    q.sourceEventID⟩) (h.requested row hrow q hq) (Bool.not_eq_true _ ▸ hfree)
  exact hnotified.insert (not_conflicts_outbox hnew) rfl nofun
    nofun

/-! ## What the tables say about each other -/

def Db.likeEvents (db : Db) (postID : String) : List String :=
  (db.outbox.filter fun row => row.likedPost = some postID).map fun row => row.event.id

def Db.projectedEvents (db : Db) (postID : String) : List String :=
  (db.processed.filter fun x =>
    x.1 = .engagementProjector ∧ db.postOf x.2 = some postID).map Prod.snd

theorem DbInv.length_likeEvents (h : DbInv db) (postID : String) :
    (db.likeEvents postID).length = db.likesOf postID := by
  rw [Db.likeEvents, length_map, ← countP_eq_length_filter, h.counted]

theorem length_projectedEvents (db : Db) (postID : String) :
    (db.projectedEvents postID).length = db.projected postID := by
  rw [Db.projectedEvents, length_map, ← countP_eq_length_filter, Db.projected]

theorem DbInv.likeEvents_nodup (h : DbInv db) (postID : String) : (db.likeEvents postID).Nodup := by
  have hids : (db.outbox.map fun row => row.event.id).Nodup :=
    pairwise_map.mpr (h.ids.imp fun hne => hne rfl rfl)
  exact hids.sublist (filter_sublist.map _)

theorem DbInv.projectedEvents_nodup (h : DbInv db) (postID : String) :
    (db.projectedEvents postID).Nodup := by
  have hrows : db.processed.Nodup := h.processed.imp fun hne => hne rfl rfl
  refine (hrows.filter _).map_on ?_
  rintro ⟨consumer, id⟩ hx ⟨consumer', id'⟩ hx' rfl
  have hconsumer := (of_decide_eq_true (mem_filter.mp hx).2).1
  have hconsumer' := (of_decide_eq_true (mem_filter.mp hx').2).1
  exact Prod.ext (hconsumer.trans hconsumer'.symm) rfl

theorem projectedEvents_subset (db : Db) (postID : String) :
    db.projectedEvents postID ⊆ db.likeEvents postID := by
  intro id hid
  obtain ⟨x, hx, rfl⟩ := mem_map.mp hid
  obtain ⟨-, hpost⟩ := of_decide_eq_true (mem_filter.mp hx).2
  obtain ⟨row, hfind, hliked⟩ := Option.bind_eq_some_iff.mp hpost
  have hrow : row.event.id = x.2 := by simpa using find?_some hfind
  refine mem_map.mpr ⟨row, mem_filter.mpr ⟨mem_of_find?_eq_some hfind, ?_⟩, hrow⟩
  exact decide_eq_true hliked

theorem DbInv.projected_le (h : DbInv db) (postID : String) :
    db.projected postID ≤ db.likesOf postID := by
  rw [← length_projectedEvents, ← h.length_likeEvents]
  exact (subperm_of_subset (h.projectedEvents_nodup postID)
    (projectedEvents_subset db postID)).length_le

theorem DbInv.projected_eq (h : DbInv db) (postID : String)
    (hall : ∀ row ∈ db.outbox, row.topic = .engagement →
      (.engagementProjector, row.event.id) ∈ db.processed) :
    db.projected postID = db.likesOf postID := by
  refine Nat.le_antisymm (h.projected_le postID) ?_
  rw [← length_projectedEvents, ← h.length_likeEvents]
  refine (subperm_of_subset (h.likeEvents_nodup postID) fun id hid => ?_).length_le
  obtain ⟨row, hrow, rfl⟩ := mem_map.mp hid
  obtain ⟨hmem, hliked⟩ := mem_filter.mp hrow
  have hliked : row.likedPost = some postID := of_decide_eq_true hliked
  have htopic : row.topic = .engagement := by
    rw [h.topics row hmem]
    rw [OutboxRow.likedPost] at hliked
    split at hliked <;> try cases hliked
    rename_i l hl
    rw [hl]
    rfl
  refine mem_map.mpr ⟨_, mem_filter.mpr ⟨hall row hmem htopic, ?_⟩, rfl⟩
  exact decide_eq_true ⟨rfl, (h.postOf_row hmem).trans hliked⟩

theorem DbInv.notifications_le_one (h : DbInv db) (postID actorID : String) :
    (db.notifications.countP fun n => n.postID = postID ∧ n.actorID = actorID) ≤ 1 := by
  by_cases hsome : ∃ n ∈ db.notifications, n.postID = postID ∧ n.actorID = actorID
  · obtain ⟨n, hn, rfl, rfl⟩ := hsome
    refine le_trans (countP_mono_left ?_) (h.sources.countP_le_one n.sourceEventID)
    intro n' hn' hsame
    obtain ⟨hpost, hactor⟩ := of_decide_eq_true hsame
    obtain ⟨row, hrow, hid, l, hl, hlp, hla, -⟩ := h.notified n hn
    obtain ⟨row', hrow', hid', l', hl', hlp', hla', -⟩ := h.notified n' hn'
    have heq : row' = row := by
      refine h.once row' hrow' row hrow l' l hl' hl ?_ ?_
      · rw [hlp', hlp, hpost]
      · rw [hla', hla, hactor]
    have hsource : n'.sourceEventID = n.sourceEventID := by rw [← hid', ← hid, heq]
    exact (Bool.true_and _).trans (decide_eq_true hsource)
  · refine le_trans (countP_eq_zero.mpr fun n hn hsame => ?_).le (Nat.zero_le 1)
    exact hsome ⟨n, hn, of_decide_eq_true hsame⟩

/-! ## The outbox only grows -/

theorem recordLike_outbox {postID eventID : String} {now : Nat}
    (h : db.recordLike postID actorID correlationID likeID eventID now = .ok (db', created)) :
    db.outbox ⊆ db'.outbox ∧ db'.processed = db.processed := by
  rw [Db.recordLike] at h
  split at h
  · cases h
  dsimp only at h
  split at h <;> cases h
  · exact ⟨Subset.refl _, rfl⟩
  · exact ⟨subset_append_left _ _, rfl⟩

theorem mark_outbox (db : Db) (now : Nat) (id workerID : String) :
    (db.markOutboxPublished now id workerID).outbox = db.outbox ∧
      (db.markOutboxPublished now id workerID).processed = db.processed := by
  rw [Db.markOutboxPublished]
  split
  all_goals exact ⟨rfl, rfl⟩

theorem release_outbox (db : Db) (id workerID : String) :
    (db.releaseOutbox id workerID).outbox = db.outbox ∧
      (db.releaseOutbox id workerID).processed = db.processed := by
  rw [Db.releaseOutbox]
  split
  all_goals exact ⟨rfl, rfl⟩

theorem applyEngagement_grows (db : Db) (e : Event) (notificationID eventID : String) (now : Nat) :
    db.outbox ⊆ (db.applyEngagement e notificationID eventID now).outbox ∧
      db.processed ⊆ (db.applyEngagement e notificationID eventID now).processed ∧
      (.engagementProjector, e.id) ∈
        (db.applyEngagement e notificationID eventID now).processed := by
  rw [Db.applyEngagement]
  split
  · rename_i hconflict
    obtain ⟨-, x, hx, -, hkey⟩ := conflicts_eq_true.mp hconflict
    cases hkey
    exact ⟨Subset.refl _, Subset.refl _, hx⟩
  have hmem : ((.engagementProjector, e.id) : Consumer × String) ∈
      db.processed ++ [(.engagementProjector, e.id)] :=
    mem_concat_self
  split
  · exact ⟨subset_append_left _ _, subset_append_left _ _, hmem⟩
  · exact ⟨Subset.refl _, subset_append_left _ _, hmem⟩

theorem persistNotification_grows (db : Db) (e : Event) (eventID : String) (now : Nat) :
    db.outbox ⊆ (db.persistNotification e eventID now).outbox ∧
      db.processed ⊆ (db.persistNotification e eventID now).processed ∧
      (.notificationWriter, e.id) ∈ (db.persistNotification e eventID now).processed := by
  rw [Db.persistNotification]
  split
  · rename_i hconflict
    obtain ⟨-, x, hx, -, hkey⟩ := conflicts_eq_true.mp hconflict
    cases hkey
    exact ⟨Subset.refl _, Subset.refl _, hx⟩
  · exact ⟨subset_append_left _ _, subset_append_left _ _, mem_concat_self⟩

end

theorem dbInv_empty (posts : Table String String) : DbInv (.empty posts) where
  ids := holds_nil
  topics _ h := (not_mem_nil h).elim
  likes := holds_nil
  liked _ h := (not_mem_nil h).elim
  once _ h := (not_mem_nil h).elim
  counted _ := rfl
  requested _ h := (not_mem_nil h).elim
  notified _ h := (not_mem_nil h).elim
  sources := holds_nil
  processed := holds_nil
  known _ h := (not_mem_nil h).elim
  counts _ := rfl

end GoServices.Social
