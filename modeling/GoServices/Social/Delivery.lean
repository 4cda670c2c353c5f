/-
When no like is lost on the way to its counter.

A reader that fails on a message goes on with the next one, and the commit of that one covers the
failed message too.
-/
import GoServices.Social.Pipeline

namespace GoServices.Social

open List

variable (s : State)

def State.Done (c : Consumer) (partition offset : Nat) : Prop :=
  ∃ e ∈ (s.log c.topic partition)[offset]?, (c, e.id) ∈ s.db.processed

instance (s : State) (c : Consumer) (partition offset : Nat) :
    Decidable (s.Done c partition offset) :=
  inferInstanceAs (Decidable (∃ e ∈ (s.log c.topic partition)[offset]?, (c, e.id) ∈ s.db.processed))

def Careful : Label → Prop
  | .commit r outcome => outcome ≠ .failed → ∀ reader ∈ s.readers.get? r, ∀ o ∈ reader.passed,
      s.Done reader.consumer reader.partition o
  | _ => True

instance (s : State) : ∀ a, Decidable (Careful s a) := fun _ => by
  unfold Careful
  split <;> infer_instance

def Through (reader : Reader) (limit : Nat) : Prop :=
  ∀ o < limit, s.Done reader.consumer reader.partition o ∨ o ∈ reader.passed

def ReaderOk (reader : Reader) : Prop :=
  match reader.pc with
  | .fetch | .wait => Through s reader reader.position
  | .handle offset _ => offset + 1 = reader.position ∧ Through s reader offset
  | .commit offset => offset + 1 = reader.position ∧ Through s reader offset ∧
      s.Done reader.consumer reader.partition offset

structure Covered (s : State) : Prop where
  offsets : ∀ c partition, ∀ o < s.offset c partition, s.Done c partition o
  readers : ∀ r reader, s.readers.get? r = some reader → ReaderOk s reader

structure Grows (s s' : State) : Prop where
  logs : ∀ topic partition, s.log topic partition <+: s'.log topic partition
  processed : s.db.processed ⊆ s'.db.processed

section
variable {s s' : State} {r : Nat} {reader : Reader}

theorem Grows.done (h : Grows s s') {c : Consumer} {partition o : Nat}
    (hdone : s.Done c partition o) : s'.Done c partition o := by
  obtain ⟨e, he, hprocessed⟩ := hdone
  exact ⟨e, getElem?_of_prefix (h.logs _ _) he, h.processed hprocessed⟩

variable {limit : Nat} {w : String} {pc : WorkerPc} {outcome : Outcome}

theorem Through.grow (h : Grows s s') (hthrough : Through s reader limit) :
    Through s' reader limit :=
  fun o ho => (hthrough o ho).imp_left h.done

theorem ReaderOk.grow (h : Grows s s') (hreader : ReaderOk s reader) : ReaderOk s' reader := by
  unfold ReaderOk at hreader ⊢
  split at hreader
  · exact hreader.grow h
  · exact hreader.grow h
  · exact ⟨hreader.1, hreader.2.grow h⟩
  · exact ⟨hreader.1, hreader.2.1.grow h, h.done hreader.2.2⟩

theorem Covered.grow (hs : Covered s) (h : Grows s s') (hreaders : s'.readers = s.readers)
    (hcommitted : s'.committed = s.committed) : Covered s' where
  offsets := by
    intro c partition o ho
    rw [State.offset, hcommitted] at ho
    exact h.done (hs.offsets c partition o ho)
  readers := by
    intro r reader hr
    rw [hreaders] at hr
    exact (hs.readers r reader hr).grow h

theorem Covered.setReader (hs : Covered s) (h : Grows s s') {reader' : Reader}
    (hreaders : s'.readers = s.readers.set r reader') (hcommitted : s'.committed = s.committed)
    (hreader : ReaderOk s' reader') : Covered s' where
  offsets := by
    intro c partition o ho
    rw [State.offset, hcommitted] at ho
    exact h.done (hs.offsets c partition o ho)
  readers := by
    intro r' reader'' hr'
    rw [hreaders, Table.get?_set] at hr'
    split at hr'
    · cases hr'
      exact hreader
    · exact (hs.readers r' reader'' hr').grow h

theorem grows_of_eq (hlogs : s'.logs = s.logs) (hprocessed : s'.db.processed = s.db.processed) :
    Grows s s' where
  logs topic partition := by
    rw [State.log, State.log, hlogs]
  processed := by
    rw [hprocessed]
    exact Subset.refl _

theorem setWorker_rest (s : State) (w : String) (batch : List OutboxRow) (pc : WorkerPc) :
    (s.setWorker w batch pc).readers = s.readers ∧
      (s.setWorker w batch pc).committed = s.committed ∧
      (s.setWorker w batch pc).logs = s.logs ∧ (s.setWorker w batch pc).db = s.db := by
  cases batch with
  | nil | cons row rest => exact ⟨rfl, rfl, rfl, rfl⟩

theorem Covered.setWorker (hs : Covered s) {t : State} {batch : List OutboxRow}
    (hreaders : t.readers = s.readers) (hcommitted : t.committed = s.committed)
    (hlogs : t.logs = s.logs) (hprocessed : t.db.processed = s.db.processed) :
    Covered (t.setWorker w batch pc) := by
  obtain ⟨hr, hc, hl, hdb⟩ := setWorker_rest t w batch pc
  refine hs.grow (grows_of_eq (hl.trans hlogs) ?_) (hr.trans hreaders) (hc.trans hcommitted)
  rw [hdb]
  exact hprocessed

variable {a : Label}

theorem relay_covered {row : OutboxRow} {rest : List OutboxRow}
    (hs : Covered s) (hstep : s.relay w row rest pc a = some s') : Covered s' := by
  have hmark := (mark_outbox s.db s.now row.event.id w).2
  revert hstep
  fun_cases State.relay s w row rest pc a <;> rintro ⟨⟩
  all_goals try exact hs.setWorker rfl rfl rfl rfl
  all_goals try exact hs.setWorker rfl rfl rfl hmark
  rename_i applied _
  refine hs.setWorker rfl rfl rfl ?_
  cases applied with
  | true => exact (release_outbox s.db row.event.id w).2
  | false => rfl

theorem through_succ (h : Through s reader limit)
    (hlast : s.Done reader.consumer reader.partition limit ∨ limit ∈ reader.passed) :
    Through s reader (limit + 1) := by
  intro o ho
  obtain hlt | rfl := Nat.lt_succ_iff_lt_or_eq.mp ho
  · exact h o hlt
  · exact hlast

variable {offset : Nat}

theorem failed_ok (hpos : offset + 1 = reader.position) (h : Through s reader offset) :
    ReaderOk s { reader with pc := .wait, passed := reader.passed ++ [offset] } := by
  rw [← hpos]
  refine through_succ (fun o ho => ?_) (.inr mem_concat_self)
  exact (h o ho).imp_right fun hmem => mem_append_left _ hmem

theorem handle_covered {e : Event} {notificationID eventID : String}
    (hs : Covered s) (hget : (s.log reader.consumer.topic reader.partition)[offset]? = some e)
    (hok : offset + 1 = reader.position ∧ Through s reader offset)
    (hstep : s.handle r reader offset e notificationID eventID outcome = some s') : Covered s' := by
  obtain ⟨-, hprocessed, hmem⟩ :=
    transaction_grows reader.consumer s.db e notificationID eventID s.now
  have hgrows (reader' : Reader) : Grows s ((s.setDb
      (reader.consumer.transaction s.db e notificationID eventID s.now)).setReader r reader') :=
    ⟨fun _ _ => prefix_rfl, hprocessed⟩
  rw [State.handle] at hstep
  split at hstep
  · cases hstep
    exact hs.setReader (grows_of_eq rfl rfl) rfl rfl (failed_ok hok.1 hok.2)
  split at hstep <;> cases hstep
  · exact hs.setReader (hgrows _) rfl rfl ⟨hok.1, hok.2.grow (hgrows _), e, hget, hmem⟩
  · exact hs.setReader (grows_of_eq rfl rfl) rfl rfl (failed_ok hok.1 hok.2)
  · exact hs.setReader (hgrows _) rfl rfl (failed_ok hok.1 (hok.2.grow (hgrows _)))

theorem commit_covered (hs : Covered s) (hr : s.readers.get? r = some reader)
    (hpc : reader.pc = .commit offset) (hcareful : Careful s (.commit r outcome)) :
    Covered (s.commitOffset r reader offset outcome) := by
  have hreader := hs.readers r reader hr
  rw [ReaderOk, hpc] at hreader
  obtain ⟨hpos, hthrough, hdone⟩ := hreader
  have hmoved : Covered (s.setReader r { reader with pc := .fetch }) := by
    refine hs.setReader (grows_of_eq rfl rfl) rfl rfl ?_
    rw [← hpos]
    exact through_succ hthrough (.inl hdone)
  have heffect (hne : outcome ≠ .failed) (t : State)
      (ht : t = { s.setReader r { reader with pc := .fetch } with
        committed := s.committed.set (reader.consumer, reader.partition) (offset + 1) }) :
      Covered t := by
    subst ht
    refine ⟨fun c partition o ho => ?_, hmoved.readers⟩
    rw [State.offset, Table.get?_set] at ho
    split at ho
    · rename_i hkey
      cases hkey
      obtain hlt | rfl := Nat.lt_succ_iff_lt_or_eq.mp ho
      · exact (hthrough o hlt).elim id fun hmem => hcareful hne reader hr o hmem
      · exact hdone
    · exact hs.offsets c partition o ho
  cases outcome with
  | failed => exact hmoved
  | done | unanswered => exact heffect (by decide) _ rfl

theorem consume_covered (hinv : Inv s) (hs : Covered s) (hr : s.readers.get? r = some reader)
    (hcareful : ∀ outcome, a = .commit r outcome → Careful s a)
    (ha : ∀ r' outcome, a = .commit r' outcome → r' = r) (hstep : s.consume r reader a = some s') :
    Covered s' := by
  have hreader := hs.readers r reader hr
  revert hstep
  fun_cases State.consume s r reader a <;> intro hstep <;> try cases hstep
  · rename_i hpc _ _
    rw [ReaderOk, hpc] at hreader
    exact hs.setReader (grows_of_eq rfl rfl) rfl rfl ⟨rfl, hreader⟩
  · rename_i offset e _ notificationID eventID outcome hpc _
    rw [ReaderOk, hpc] at hreader
    exact handle_covered hs (hinv.handling r reader offset e hr hpc) hreader hstep
  · rename_i hpc
    rw [ReaderOk, hpc] at hreader
    exact hs.setReader (grows_of_eq rfl rfl) rfl rfl hreader
  · rename_i offset r' outcome hpc
    cases ha r' outcome rfl
    exact commit_covered hs hr hpc (hcareful outcome rfl)
  · refine ⟨hs.offsets, fun r' reader' hr' => ?_⟩
    rw [Table.get?_erase] at hr'
    split at hr'
    · cases hr'
    · exact hs.readers r' reader' hr'

theorem covered_step {batchSize : Nat} {partitionOf : Topic → String → Nat} (hinv : Inv s)
    (hs : Covered s) (hcareful : Careful s a) (hstep : step batchSize partitionOf s a = some s') :
    Covered s' := by
  cases a with
  | tick d =>
    cases hstep
    exact hs.grow (grows_of_eq rfl rfl) rfl rfl
  | like postID actorID correlationID likeID eventID outcome =>
    rw [step] at hstep
    split at hstep <;> try cases hstep
    split at hstep <;> cases hstep
    · exact hs
    rename_i db created hrecord
    split
    · exact hs
    · exact hs.grow (grows_of_eq rfl (recordLike_outbox hrecord).2) rfl rfl
  | claim w rows =>
    simp only [step, Option.ite_none_right_eq_some] at hstep
    cases hstep.2
    exact hs.setWorker rfl rfl rfl rfl
  | arrive i =>
    rw [step] at hstep
    split at hstep <;> cases hstep
    exact hs.grow ⟨arrive_log _, Subset.refl _⟩ rfl rfl
  | crash w =>
    cases hstep
    exact hs.grow (grows_of_eq rfl rfl) rfl rfl
  | start r c partition =>
    simp only [step, Option.ite_none_right_eq_some] at hstep
    cases hstep.2
    exact hs.setReader (grows_of_eq rfl rfl) rfl rfl
      fun o ho => .inl (hs.offsets c partition o ho)
  | publish w | acked w | publishFailed w | mark w outcome | release w applied =>
    exact of_worker (fun _ _ _ _ hrelay => relay_covered hs hrelay) hstep
  | commit r outcome =>
    refine of_reader (fun _ hr => consume_covered hinv hs hr (fun _ _ => hcareful) ?_) hstep
    intro r' outcome' heq
    cases heq
    rfl
  | fetch r | handle r notificationID eventID outcome | wake r | stop r =>
    refine of_reader (fun _ hr => consume_covered hinv hs hr (fun _ _ => hcareful) ?_) hstep
    exact fun _ _ heq => by cases heq

theorem covered_initial (posts : Table String String) : Covered (initial posts) where
  offsets _ _ _ h := (Nat.not_lt_zero _ h).elim
  readers := by
    intro r reader hr
    cases hr

end

def State.AllPublished : Prop :=
  ∀ row ∈ s.db.outbox, row.topic = .engagement →
    ∃ k ∈ s.logs.keys, k.1 = .engagement ∧ row.event ∈ s.log .engagement k.2
  deriving Decidable

def State.AtEnd : Prop :=
  ∀ k ∈ s.logs.keys, k.1 = .engagement →
    s.offset .engagementProjector k.2 = (s.log .engagement k.2).length
  deriving Decidable

/-- In every run whose commits leave no failed message behind: when all engagement events have
been published and the committed offsets are at the end of the topic, the counter of every post
is the number of its likes. -/
theorem likes_all_counted (batchSize : Nat) (partitionOf : Topic → String → Nat)
    {posts : Table String String} {as : List Label} {s : State}
    (hrun : run (step batchSize partitionOf) (initial posts) as = some s)
    (hcareful : RunMeets (step batchSize partitionOf) Careful (initial posts) as)
    (hpublished : s.AllPublished) (hend : s.AtEnd) (postID : String) :
    s.db.likesCount postID = s.db.likesOf postID := by
  have hs : Inv s ∧ Covered s := run_invariant_of_meets (I := fun s => Inv s ∧ Covered s)
      (fun _ _ _ h hok hstep => ⟨step_inv h.1 hstep, covered_step h.1 h.2 hok hstep⟩)
      ⟨inv_initial posts, covered_initial posts⟩ hcareful hrun
  obtain ⟨hinv, hcovered⟩ := hs
  rw [hinv.db.counts postID]
  refine hinv.db.projected_eq postID fun row hrow htopic => ?_
  obtain ⟨k, hk, hkey, hmem⟩ := hpublished row hrow htopic
  obtain ⟨o, ho, hget⟩ := mem_iff_getElem.mp hmem
  obtain ⟨e, he, hprocessed⟩ :=
    hcovered.offsets .engagementProjector k.2 o (by rw [hend k hk hkey]; exact ho)
  have heq : row.event = e := by
    rw [← hget]
    exact Option.some.inj ((getElem?_eq_getElem ho).symm.trans he)
  rw [heq]
  exact hprocessed

/-! ## Two likes -/

def secondLikeEvent : Event :=
  newEvent "e3" 0 .engagementRecorded "post-1" "c2" (.like ⟨"l2", "post-1", "ann", "eve"⟩)

def twoLikes : List Label :=
  [.like "post-1" "bob" "c1" "l1" "e1" .done, .like "post-1" "eve" "c2" "l2" "e3" .done] ++
    relayed ⟨.engagement, likeEvent⟩ 0 1 ++ relayed ⟨.engagement, secondLikeEvent⟩ 1 1

def restartedAfterFailure : List Label :=
  twoLikes ++ [.start 1 .engagementProjector 0, .fetch 1, .handle 1 "n1" "e2" .failed, .stop 1,
      .start 1 .engagementProjector 0, .fetch 1, .handle 1 "n1" "e2" .done, .commit 1 .done,
      .fetch 1, .handle 1 "n2" "e4" .done, .commit 1 .done]

theorem likes_all_counted_restarted :
    ∃ s, run (step 10 fun _ _ => 0) (initial samplePosts) restartedAfterFailure = some s ∧
      s.db.likesOf "post-1" = 2 ∧ s.db.likesCount "post-1" = s.db.likesOf "post-1" := by
  refine exists_some_imp (A := fun s => s.db.likesOf "post-1" = 2 ∧ s.AllPublished ∧ s.AtEnd)
    (by decide +kernel) fun s hrun ⟨hlikes, hpublished, hend⟩ => ?_
  have hcareful : RunMeets (step 10 fun _ _ => 0) Careful (initial samplePosts)
      restartedAfterFailure := by
    decide +kernel
  exact ⟨hlikes, likes_all_counted 10 (fun _ _ => 0) hrun hcareful hpublished hend "post-1"⟩

def passedAfterFailure : List Label :=
  twoLikes ++ [.start 1 .engagementProjector 0, .fetch 1, .handle 1 "n1" "e2" .failed, .wake 1,
      .fetch 1, .handle 1 "n2" "e4" .done, .commit 1 .done]

/-- Everything is published, fetched and committed, and no handler fails any more, but only one
of the two likes is counted. -/
theorem passed_like_not_counted :
    ∃ s ∈ run (step 10 fun _ _ => 0) (initial samplePosts) passedAfterFailure,
      s.AllPublished ∧ s.AtEnd ∧ s.db.likesOf "post-1" = 2 ∧ s.db.likesCount "post-1" = 1 := by
  decide +kernel

end GoServices.Social
