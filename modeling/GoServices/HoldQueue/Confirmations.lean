/-
What `ConfirmHold` returns when other finalizers of its hold come between its steps.

A call keeps a copy of the hold from its first read to its last script.
-/
import GoServices.HoldQueue.ServiceRuns

namespace GoServices.HoldQueue

open Table Option Redis

/-! ## The life of one hold -/

inductive Life (drawn : Prop) : Option Hold → Option Hold → Prop
  | same (o : Option Hold) : Life drawn o o
  | create (h : Hold) (hnew : ¬ drawn) (hheld : h.status = .held) : Life drawn none (some h)
  | confirm (h : Hold) (confirmedAt : Int) (hheld : h.status = .held) :
      Life drawn (some h) (some { h with status := .confirming, confirmedAt := some confirmedAt })
  | finalize (h : Hold) (hconfirming : h.status = .confirming) :
      Life drawn (some h) (some { h with status := .confirmed })
  | expire (h : Hold) (hheld : h.status = .held) :
      Life drawn (some h) (some { h with status := .expired })
  | drop (h : Hold) (hexpired : h.status = .expired) : Life drawn (some h) none

def Hold.Begun (h : Hold) : Prop := h.status = .confirming ∨ h.status = .confirmed

def Hold.Dated (h : Hold) : Prop := h.Begun → h.confirmedAt ≠ none

section
variable {drawn : Prop} {o o' : Option Hold} {h h' : Hold}

theorem not_begun_of_held (hheld : h.status = .held) : ¬ h.Begun := by
  simp [Hold.Begun, hheld]

theorem Life.booking_kept (hlife : Life drawn (some h) o') (hbegun : h.Begun) :
    o'.map bookingOf = some (bookingOf h) := by
  cases hlife with
  | same => rfl
  | confirm _ _ hheld => exact absurd hbegun (not_begun_of_held hheld)
  | finalize => rfl
  | expire _ hheld => exact absurd hbegun (not_begun_of_held hheld)
  | drop _ hexpired => simp [Hold.Begun, hexpired] at hbegun

theorem Life.visitor_kept (hlife : Life drawn o (some h')) (hdrawn : drawn) :
    ∃ h, o = some h ∧ h'.slot = h.slot ∧ h'.visitorID = h.visitorID := by
  cases hlife with
  | same => exact ⟨h', rfl, rfl, rfl⟩
  | create _ hnew => exact absurd hdrawn hnew
  | confirm h | finalize h | expire h => exact ⟨h, rfl, rfl, rfl⟩

theorem Life.dated (hlife : Life drawn o (some h')) (hold : ∀ h, o = some h → h.Dated) :
    h'.Dated := by
  cases hlife with
  | same => exact hold h' rfl
  | create _ _ hheld => exact fun hbegun => absurd hbegun (not_begun_of_held hheld)
  | confirm => exact fun _ => some_ne_none _
  | finalize h hconfirming => exact fun _ => hold h rfl (.inl hconfirming)
  | expire => exact fun hbegun => by simp [Hold.Begun] at hbegun

/-! ## The life of every hold in one step -/

variable {r r' : Redis} {j : String}

theorem life_set {id : String} {h h' : Hold} (hget : r.holds.get? id = some h)
    (hlife : Life drawn (some h) (some h')) :
    Life drawn (r.holds.get? j) ((r.holds.set id h').get? j) := by
  rw [get?_set]
  split
  · rename_i hj
    rw [hj, hget]
    exact hlife
  · exact .same _

theorem createHold_life {id : String} (hget : r.holds.get? id = none) (hnew : j = id → ¬ drawn)
    (slot visitorID : String) (expires : Int) :
    Life drawn (r.holds.get? j) ((r.createHold id slot visitorID expires).1.holds.get? j) := by
  rw [createHold]
  split
  · exact .same _
  split
  · exact .same _
  rw [get?_set]
  split
  · rename_i hj
    rw [hj, hget]
    exact .create _ (hnew hj) rfl
  · exact .same _

theorem confirmHold_life (id : String) (now confirmedAt : Int) :
    Life drawn (r.holds.get? j) ((r.confirmHold id now confirmedAt).1.holds.get? j) := by
  rw [confirmHold]
  cases hget : r.holds.get? id with
  | none => exact .same _
  | some h =>
    dsimp only
    split
    · exact .same _
    rename_i hheld
    split
    · exact .same _
    · exact life_set hget (.confirm h confirmedAt (not_not.mp hheld))

theorem finalize_life (id : String) :
    Life drawn (r.holds.get? j) ((r.finalize id).1.holds.get? j) := by
  rw [finalize]
  cases hget : r.holds.get? id with
  | none => exact .same _
  | some h =>
    dsimp only
    split
    · exact .same _
    · rename_i hconfirming
      exact life_set hget (.finalize h (not_not.mp hconfirming))

theorem expireHold_life (id : String) :
    Life drawn (r.holds.get? j) ((r.expireHold id).1.holds.get? j) := by
  rw [expireHold]
  cases hget : r.holds.get? id with
  | none => exact .same _
  | some h =>
    dsimp only
    split
    · exact .same _
    · rename_i hheld
      exact life_set hget (.expire h (not_not.mp hheld))

theorem reply_life (reply : Reply) (hlife : Life drawn (r.holds.get? j) (r'.holds.get? j)) :
    Life drawn (r.holds.get? j) ((reply.apply r r').holds.get? j) := by
  rcases reply with _ | _ | _
  · exact hlife
  · exact .same _
  · exact hlife

structure Frame (s s' : State) : Prop where
  life : ∀ id, Life (id ∈ s.drawn) (s.redis.holds.get? id) (s'.redis.holds.get? id)
  drawn : ∀ id ∈ s.drawn, id ∈ s'.drawn

variable {s s' : State} {call : Nat} {pc : Pc} {a : Label}

theorem Frame.of_redis (hredis : s'.redis = s.redis) (hdrawn : s'.drawn = s.drawn) :
    Frame s s' where
  life id := by
    rw [hredis]
    exact .same _
  drawn id hid := by rwa [hdrawn]

theorem Frame.of_script {r : Redis} (reply : Reply) (hredis : s'.redis = reply.apply s.redis r)
    (hdrawn : s'.drawn = s.drawn)
    (hlife : ∀ id, Life (id ∈ s.drawn) (s.redis.holds.get? id) (r.holds.get? id)) :
    Frame s s' where
  life id := by
    rw [hredis]
    exact reply_life reply (hlife id)
  drawn id hid := by rwa [hdrawn]

theorem next_frame (hnext : s.next call pc a = some s') : Frame s s' := by
  unfold State.next at hnext
  split at hnext <;> cases hnext
  all_goals try exact .of_redis rfl rfl
  · exact .of_script _ rfl rfl fun _ => confirmHold_life _ _ _
  · exact .of_script _ rfl rfl fun _ => finalize_life _
  · exact .of_script _ rfl rfl fun _ => expireHold_life _

/-! ## What a step does to the calls -/

/-- The id that a call of `ConfirmHold` is about. -/
def Pc.confirmHold : Pc → Option String
  | .get id | .reget id => some id
  | .script hold | .persist hold .confirm | .finalize hold _ .confirm => some hold.id
  | _ => none

def Label.call? : Label → Option Nat
  | .get call .. | .script call .. | .reget call .. | .persist call .. | .finalize call ..
  | .recoverGet call .. | .expire call .. => some call
  | _ => none

/-- A program counter at which a call or a worker starts, or `CreateHold` has returned. -/
def Pc.Starts : Pc → Prop
  | .get _ | .recover _ | .expire _ | .created _ => True
  | _ => False

inductive Trans (s : State) (a : Label) (s' : State) : Prop
  | quiet (hcalls : s'.calls = s.calls) (hstore : s'.store = s.store)
  | starts {call : Nat} {pc : Pc} (hfree : s.calls.get? call = none) (hpc : pc.Starts)
      (hcalls : s'.calls = s.calls.set call pc) (hstore : s'.store = s.store)
  | moves {call : Nat} {pc : Pc} (hcall : a.call? = some call)
      (hpc : s.calls.get? call = some pc) (hnext : s.next call pc a = some s')
  | crash (hcalls : s'.calls = .empty) (hfile : s'.store.file = s.store.file)

theorem start_trans (hstart : s.start call pc = some s') (hpc : pc.Starts) :
    Frame s s' ∧ Trans s a s' := by
  unfold State.start at hstart
  split at hstart <;> cases hstart
  rename_i hfree
  exact ⟨.of_redis rfl rfl, .starts hfree hpc rfl rfl⟩

variable {now confirmedAt : Int}

theorem create_trans (hs : Inv False s) {id slot visitorID : String} {ttl : Int} {reply : Reply}
    (hcreate : s.create call id slot visitorID ttl now reply = some s') :
    Frame s s' ∧ Trans s a s' := by
  rw [State.create] at hcreate
  split at hcreate
  · exact start_trans hcreate trivial
  split at hcreate
  · cases hcreate
  rename_i hfresh
  simp only [State.start] at hcreate
  split at hcreate <;> cases hcreate
  rename_i hfree
  refine ⟨⟨fun j => reply_life reply ?_, fun j hj => List.mem_cons_of_mem id hj⟩,
    .starts hfree ?_ rfl rfl⟩
  · refine createHold_life (hs.drawn id hfresh) ?_ slot visitorID (now + ttl)
    rintro rfl
    exact hfresh
  · cases reply <;> trivial

theorem step_trans (hs : Inv False s) (hstep : step s a = some s') : Frame s s' ∧ Trans s a s' := by
  have hnext {call : Nat} (hcall : a.call? = some call)
      (h : ((s.calls.get? call).bind fun pc => s.next call pc a) = some s') :
      Frame s s' ∧ Trans s a s' := by
    obtain ⟨pc, hpc, h⟩ := bind_eq_some_iff.mp h
    exact ⟨next_frame h, .moves hcall hpc h⟩
  cases a with
  | setCapacity slot capacity reply =>
    rw [HoldQueue.step] at hstep
    split at hstep <;> cases hstep
    · exact ⟨.of_redis rfl rfl, .quiet rfl rfl⟩
    · exact ⟨.of_script reply rfl rfl fun _ => .same _, .quiet rfl rfl⟩
  | create => exact create_trans hs hstep
  | confirm | recover | releaseExpired => exact start_trans hstep trivial
  | expireKey id =>
    simp only [HoldQueue.step] at hstep
    split at hstep <;> try cases hstep
    rename_i hold hget
    split at hstep <;> cases hstep
    rename_i hexpired
    refine ⟨⟨fun j => ?_, fun _ hj => hj⟩, .quiet rfl rfl⟩
    simp only [expireKey, get?_erase]
    split
    · rename_i hj
      rw [hj, hget]
      exact .drop hold hexpired
    · exact .same _
  | crash =>
    cases hstep
    exact ⟨.of_redis rfl rfl, .crash rfl rfl⟩
  | _ => exact hnext rfl hstep

/-! ## The copies of the calls -/

def Redis.bookingOf? (r : Redis) (id : String) : Option Booking := (r.holds.get? id).map bookingOf

def PcCopies (s : State) : Pc → Prop
  | .script hold => hold.id ∈ s.drawn ∧ ∀ h, s.redis.holds.get? hold.id = some h →
      h.slot = hold.slot ∧ h.visitorID = hold.visitorID
  | .persist hold _ => s.redis.bookingOf? hold.id = some (bookingOf hold)
  | .finalize hold booking _ => s.redis.bookingOf? hold.id = some booking
  | _ => True

structure Copies (s : State) : Prop where
  dated : ∀ id h, s.redis.holds.get? id = some h → h.Dated
  file : ∀ b ∈ s.store.file, s.redis.bookingOf? b.holdID = some b
  pcs : ∀ call pc, s.calls.get? call = some pc → PcCopies s pc

variable {s s' : State} {call : Nat} {pc : Pc} {a : Label} {id : String} {hold : Hold}

theorem exists_begun (hstarted : s.redis.Started id) :
    ∃ h, s.redis.holds.get? id = some h ∧ h.Begun := by
  rcases hstarted with ⟨h, hget, hstatus⟩ | ⟨h, hget, hstatus⟩
  · exact ⟨h, hget, .inl hstatus⟩
  · exact ⟨h, hget, .inr hstatus⟩

theorem Frame.booking_kept (hframe : Frame s s') (hstarted : s.redis.Started id) :
    s'.redis.bookingOf? id = s.redis.bookingOf? id := by
  obtain ⟨h, hget, hbegun⟩ := exists_begun hstarted
  have hlife := hframe.life id
  rw [hget] at hlife
  rw [bookingOf?, hlife.booking_kept hbegun, bookingOf?, hget]
  rfl

theorem PcCopies.frame (hcopies : PcCopies s pc) (hs : Inv False s)
    (hsound : PcSound s.redis s.store pc) (hframe : Frame s s') : PcCopies s' pc := by
  cases pc with
  | script hold =>
    refine ⟨hframe.drawn hold.id hcopies.1, fun h' hget' => ?_⟩
    have hlife := hframe.life hold.id
    rw [hget'] at hlife
    obtain ⟨h, hget, hslot, hvisitor⟩ := hlife.visitor_kept hcopies.1
    obtain ⟨hslot₁, hvisitor₁⟩ := hcopies.2 h hget
    exact ⟨hslot.trans hslot₁, hvisitor.trans hvisitor₁⟩
  | persist hold => exact (hframe.booking_kept hsound).trans hcopies
  | finalize hold => exact (hframe.booking_kept (hs.booked hold.id hsound)).trans hcopies
  | _ => trivial

theorem Inv.get_drawn (hs : Inv False s) (hget : s.redis.holds.get? id = some hold) :
    id ∈ s.drawn := by
  by_contra hid
  rw [hs.drawn id hid] at hget
  cases hget

theorem Inv.bookingOf_get (hs : Inv False s) (hget : s.redis.holds.get? id = some hold) :
    s.redis.bookingOf? hold.id = some (bookingOf hold) := by
  rw [hs.redis.ids id hold hget, bookingOf?, hget]
  rfl

/-! ## Where a call goes next -/

theorem copies_return (result : Except ServiceError Booking) (caller : Caller) :
    PcCopies s (caller.return result) := by
  cases caller <;> trivial

theorem copies_startPersist (hbooking : s.redis.bookingOf? hold.id = some (bookingOf hold))
    (caller : Caller) : PcCopies s (startPersist hold caller) := by
  unfold startPersist
  split
  · exact copies_return _ caller
  · exact hbooking

theorem copies_afterGet (hs : Inv False s) (now : Int) (id : String) :
    PcCopies s (afterGet now (s.redis.holds.get? id)) := by
  cases hget : s.redis.holds.get? id with
  | none => trivial
  | some hold =>
    rw [afterGet]
    split
    · exact copies_startPersist (hs.bookingOf_get hget) .confirm
    split
    · trivial
    have hid : hold.id = id := hs.redis.ids id hold hget
    refine ⟨hid ▸ hs.get_drawn hget, fun h hgot => ?_⟩
    rw [hid, hget] at hgot
    cases hgot
    exact ⟨rfl, rfl⟩

theorem copies_afterReget (hs : Inv False s) (id : String) :
    PcCopies s (afterReget (s.redis.holds.get? id)) := by
  cases hget : s.redis.holds.get? id with
  | none => trivial
  | some hold =>
    rw [afterReget]
    split
    · exact copies_startPersist (hs.bookingOf_get hget) .confirm
    · trivial

theorem copies_afterRecover (hs : Inv False s) (rest : List String) (id : String) :
    PcCopies s (afterRecover rest (s.redis.holds.get? id)) := by
  cases hget : s.redis.holds.get? id with
  | none => trivial
  | some hold =>
    rw [afterRecover]
    split
    · exact copies_startPersist (hs.bookingOf_get hget) (.recover rest)
    · trivial

theorem confirmHold_one {r : Redis} (hone : (r.confirmHold id now confirmedAt).2 = 1) :
    ∃ h, r.holds.get? id = some h ∧ (r.confirmHold id now confirmedAt).1.holds.get? id =
      some { h with status := .confirming, confirmedAt := some confirmedAt } := by
  unfold confirmHold at hone ⊢
  cases hget : r.holds.get? id with
  | none => simp [hget] at hone
  | some h =>
    refine ⟨h, rfl, ?_⟩
    simp only [hget] at hone ⊢
    split at hone
    · cases hone
    rename_i hheld
    split at hone
    · cases hone
    rename_i hdue
    rw [if_neg hheld, if_neg hdue]
    exact get?_set_self _ _ _

theorem copies_afterScript (hs : Inv False s) (hcopies : PcCopies s (.script hold))
    (hredis : s'.redis = (s.redis.confirmHold hold.id now confirmedAt).1) :
    PcCopies s' (afterScript hold confirmedAt (s.redis.confirmHold hold.id now confirmedAt).2) := by
  rw [afterScript]
  split
  · trivial
  rename_i hone
  obtain ⟨h, hget, hget'⟩ := confirmHold_one (not_not.mp hone)
  obtain ⟨hslot, hvisitor⟩ := hcopies.2 h hget
  refine copies_startPersist ?_ .confirm
  rw [bookingOf?, hredis, hget', map_some]
  simp only [bookingOf, hs.redis.ids _ h hget, hslot, hvisitor]

theorem copies_afterRecord (hcopies : s.redis.bookingOf? hold.id = some (bookingOf hold))
    (caller : Caller) (result : Except BookingStore.RecordError Unit) :
    PcCopies s (afterRecord hold caller result) := by
  have hdone : PcCopies s (if hold.status = .confirmed then caller.return (.ok (bookingOf hold))
      else .finalize hold (bookingOf hold) caller) := by
    split
    · exact copies_return _ caller
    · exact hcopies
  rcases result with (_ | _) | _
  · exact hdone
  · exact copies_return _ caller
  · exact hdone

theorem copies_afterFinalize (booking : Booking) (caller : Caller) (result : Int) :
    PcCopies s (afterFinalize booking caller result) := by
  rw [afterFinalize]
  split
  all_goals exact copies_return _ caller

/-! ## Steps -/

variable {s s' : State} {call : Nat} {pc : Pc} {a : Label} {id : String} {hold : Hold}

theorem record_mem {b : BookingStore} {booking line : Booking} {ioError : Bool}
    (hline : line ∈ (b.record booking ioError).1.file) : line ∈ b.file ∨ line = booking := by
  rw [BookingStore.record] at hline
  split at hline
  · exact .inl hline
  split at hline
  · exact .inl hline
  · simpa using hline

theorem next_copies (hs : Inv False s) (hcopies : PcCopies s pc)
    (hnext : s.next call pc a = some s') :
    (∃ pc', s'.calls = s.calls.set call pc' ∧ PcCopies s' pc') ∧
      ∀ b ∈ s'.store.file, b ∈ s.store.file ∨ s'.redis.bookingOf? b.holdID = some b := by
  have hread {pc' : Pc} (hpc' : PcCopies s pc') : PcCopies (s.setPc call pc') pc' := hpc'
  unfold State.next at hnext
  split at hnext <;> cases hnext
  · refine ⟨⟨_, rfl, hread ?_⟩, fun b hb => .inl hb⟩
    split
    · exact copies_afterGet hs _ _
    · trivial
  · rename_i hold _ confirmedAt now reply
    refine ⟨⟨_, rfl, ?_⟩, fun b hb => .inl hb⟩
    cases reply with
    | received => exact copies_afterScript hs hcopies rfl
    | lost => trivial
  · refine ⟨⟨_, rfl, hread ?_⟩, fun b hb => .inl hb⟩
    split
    · exact copies_afterReget hs _
    · trivial
  · rename_i hold caller _ ioError
    refine ⟨⟨_, rfl, copies_afterRecord hcopies caller _⟩, fun b hb => ?_⟩
    rcases record_mem hb with hb | rfl
    · exact .inl hb
    · exact .inr hcopies
  · rename_i hold booking caller _ reply
    refine ⟨⟨_, rfl, ?_⟩, fun b hb => .inl hb⟩
    cases reply with
    | received => exact copies_afterFinalize booking caller _
    | lost => exact copies_return _ caller
  · refine ⟨⟨_, rfl, hread ?_⟩, fun b hb => .inl hb⟩
    split
    · exact copies_afterRecover hs _ _
    · trivial
  · rename_i id rest _ reply
    refine ⟨⟨_, rfl, ?_⟩, fun b hb => .inl hb⟩
    cases reply <;> trivial

theorem Copies.frame_file (hcopies : Copies s) (hs : Inv False s) (hframe : Frame s s')
    {b : Booking} (hb : b ∈ s.store.file) : s'.redis.bookingOf? b.holdID = some b :=
  (hframe.booking_kept (hs.booked b.holdID (List.mem_map_of_mem hb))).trans (hcopies.file b hb)

theorem Copies.step (hcopies : Copies s) (hs : Inv False s) (hstep : step s a = some s') :
    Copies s' := by
  obtain ⟨hframe, htrans⟩ := step_trans hs hstep
  have hfile {b : Booking} (hb : b ∈ s.store.file) := hcopies.frame_file hs hframe hb
  have hkept {j : Nat} {pc : Pc} (hpc : s.calls.get? j = some pc) : PcCopies s' pc :=
    (hcopies.pcs j pc hpc).frame hs (hs.pcs j pc hpc) hframe
  have hdated (id : String) (h' : Hold) (hget : s'.redis.holds.get? id = some h') : h'.Dated :=
    Life.dated (hget ▸ hframe.life id) (hcopies.dated id)
  refine ⟨hdated, fun b hb => ?_, fun j pc hpc => ?_⟩
  · cases htrans with
    | quiet _ hstore | starts _ _ _ hstore => exact hfile (hstore ▸ hb)
    | moves _ hpc hnext =>
      rcases (next_copies hs (hcopies.pcs _ _ hpc) hnext).2 b hb with hold | hnew
      · exact hfile hold
      · exact hnew
    | crash _ hsame => exact hfile (hsame ▸ hb)
  cases htrans with
  | quiet hcalls => exact hkept (hcalls ▸ hpc)
  | @starts call pc₀ hfree hstarts hcalls =>
    rw [hcalls] at hpc
    rcases set_cases hpc with ⟨-, rfl⟩ | ⟨-, hpc⟩
    · cases pc with
      | get | recover | expire | created => trivial
      | _ => cases hstarts
    · exact hkept hpc
  | @moves call _ _ hold hnext =>
    obtain ⟨⟨pc', hcalls, hpc'⟩, -⟩ := next_copies hs (hcopies.pcs _ _ hold) hnext
    rw [hcalls] at hpc
    rcases set_cases hpc with ⟨-, rfl⟩ | ⟨-, hpc⟩
    · exact hpc'
    · exact hkept hpc
  | crash hcalls =>
    rw [hcalls] at hpc
    cases hpc

theorem copies_initial : Copies initial where
  dated _ _ hget := nomatch hget
  file _ hb := nomatch hb
  pcs _ _ hpc := nomatch hpc

end

/-! ## What a call returns -/

def Works : Label → Prop
  | .setCapacity _ _ reply | .create _ _ _ _ _ _ reply | .script _ _ _ reply
  | .finalize _ reply | .expire _ reply => reply = .received
  | .get _ _ answered | .reget _ answered | .recoverGet _ answered => answered = true
  | .persist _ ioError => ioError = false
  | .confirm .. | .recover _ | .releaseExpired .. | .expireKey _ | .crash => True

/-- If this is the last step of a call of `ConfirmHold`, and its hold is confirming or
confirmed, then the call returns the booking of the hold, which is in the file. -/
def ReturnsBooking (s : State) (a : Label) : Prop :=
  ∀ call pc id s' result, s.calls.get? call = some pc → pc.confirmHold = some id →
    step s a = some s' → s'.calls.get? call = some (.done result) → s.redis.Started id →
    ∃ booking ∈ s'.store.file, s.redis.bookingOf? id = some booking ∧ result = .ok booking

/-- Unless it runs the last script of `ConfirmHold`, whose hold is not confirmed yet. -/
def Pc.NotConfirmed (r : Redis) : Pc → Prop
  | .finalize hold _ .confirm => ∀ h ∈ r.holds.get? hold.id, h.status ≠ .confirmed
  | _ => True

/-- When a call of `ConfirmHold` runs its last script, no other caller and no recovery
worker has confirmed the hold before it. -/
def NotOvertaken (s : State) : Label → Prop
  | .finalize call _ => ∀ pc ∈ s.calls.get? call, pc.NotConfirmed s.redis
  | _ => True

instance : ∀ a, Decidable (Works a)
  | .setCapacity _ _ reply | .create _ _ _ _ _ _ reply | .script _ _ _ reply
  | .finalize _ reply | .expire _ reply => inferInstanceAs (Decidable (reply = .received))
  | .get _ _ answered | .reget _ answered | .recoverGet _ answered =>
    inferInstanceAs (Decidable (answered = true))
  | .persist _ ioError => inferInstanceAs (Decidable (ioError = false))
  | .confirm .. | .recover _ | .releaseExpired .. | .expireKey _ | .crash => isTrue trivial

instance (r : Redis) : ∀ pc : Pc, Decidable (pc.NotConfirmed r) := fun _ => by
  unfold Pc.NotConfirmed
  split <;> infer_instance

instance (s : State) : ∀ a, Decidable (NotOvertaken s a)
  | .finalize call _ =>
    inferInstanceAs (Decidable (∀ pc ∈ s.calls.get? call, pc.NotConfirmed s.redis))
  | .setCapacity .. | .create .. | .confirm .. | .recover .. | .releaseExpired .. | .get ..
  | .script .. | .reget .. | .persist .. | .recoverGet .. | .expire .. | .expireKey .. | .crash =>
    isTrue trivial

section
variable {s s' : State} {call : Nat} {pc : Pc} {a : Label} {id : String} {hold : Hold}
  {result : Except ServiceError Booking}

theorem step_next (hs : Inv False s) (hcopies : Copies s) (hstep : step s a = some s')
    (hpc : s.calls.get? call = some pc) {pc' : Pc} (hpc' : s'.calls.get? call = some pc')
    (hne : pc' ≠ pc) : a.call? = some call ∧ s.next call pc a = some s' := by
  have hsame (h : s.calls.get? call = some pc') :
      a.call? = some call ∧ s.next call pc a = some s' := by
    rw [hpc] at h
    exact absurd (some.inj h).symm hne
  cases (step_trans hs hstep).2 with
  | quiet hcalls => exact hsame (hcalls ▸ hpc')
  | @starts call₀ pc₀ hfree _ hcalls =>
    rw [hcalls] at hpc'
    rcases set_cases hpc' with ⟨rfl, -⟩ | ⟨-, hpc'⟩
    · rw [hfree] at hpc
      cases hpc
    · exact hsame hpc'
  | @moves call₀ pc₀ hcall hpc₀ hnext =>
    obtain ⟨⟨pc₁, hcalls, -⟩, -⟩ := next_copies hs (hcopies.pcs _ _ hpc₀) hnext
    rw [hcalls] at hpc'
    rcases set_cases hpc' with ⟨rfl, -⟩ | ⟨-, hpc'⟩
    · rw [hpc] at hpc₀
      cases hpc₀
      exact ⟨hcall, hnext⟩
    · exact hsame hpc'
  | crash hcalls =>
    rw [hcalls] at hpc'
    cases hpc'

theorem startPersist_begun (hdated : hold.Dated) (hbegun : hold.Begun) (caller : Caller) :
    startPersist hold caller = .persist hold caller := by
  unfold startPersist
  split
  · rename_i hnone
    exact absurd hnone (hdated hbegun)
  · rfl

theorem afterGet_begun (hcopies : Copies s) (hstarted : s.redis.Started id) (now : Int) :
    ∃ h, afterGet now (s.redis.holds.get? id) = .persist h .confirm := by
  obtain ⟨h, hget, hbegun⟩ := exists_begun hstarted
  refine ⟨h, ?_⟩
  rw [hget, afterGet, if_pos hbegun.symm]
  exact startPersist_begun (hcopies.dated id h hget) hbegun .confirm

theorem afterReget_begun (hcopies : Copies s) (hstarted : s.redis.Started id) :
    ∃ h, afterReget (s.redis.holds.get? id) = .persist h .confirm := by
  obtain ⟨h, hget, hbegun⟩ := exists_begun hstarted
  refine ⟨h, ?_⟩
  rw [hget, afterReget, if_pos (show h.status = .confirming ∨ h.status = .confirmed from hbegun)]
  exact startPersist_begun (hcopies.dated id h hget) hbegun .confirm

theorem afterScript_ne_done (confirmedAt : Int) (answer : Int) :
    afterScript hold confirmedAt answer ≠ .done result := by
  rw [afterScript]
  split
  all_goals
    intro h
    cases h

variable {booking : Booking} {r : Redis}

theorem Copies.mem_file (hcopies : Copies s)
    (hbooking : s.redis.bookingOf? id = some booking) (hbooked : s.store.Booked id) :
    booking ∈ s.store.file := by
  obtain ⟨b, hb, rfl⟩ := List.mem_map.mp hbooked
  have hline := hcopies.file b hb
  rw [hbooking] at hline
  cases hline
  exact hb

theorem finalize_one (hbegun : hold.Begun) (hget : r.holds.get? id = some hold)
    (hfree : hold.status ≠ .confirmed) : (r.finalize id).2 = 1 := by
  have hconfirming : hold.status = .confirming := hbegun.resolve_right hfree
  rw [finalize, hget]
  simp [hconfirming]

theorem finalize_zero (hget : r.holds.get? id = some hold)
    (hconfirmed : hold.status = .confirmed) : (r.finalize id).2 = 0 := by
  rw [finalize, hget]
  simp [hconfirmed]

/-! ## Every step that ends a call -/

theorem record_ne_io (b : BookingStore) (booking : Booking) :
    (b.record booking false).2 ≠ .error .io := by
  rw [BookingStore.record]
  split
  all_goals
    intro h
    cases h

theorem afterRecord_works (b : BookingStore) (booking : Booking) (caller : Caller) :
    afterRecord hold caller (b.record booking false).2 =
      if hold.status = .confirmed then caller.return (.ok (bookingOf hold))
      else .finalize hold (bookingOf hold) caller := by
  rw [BookingStore.record]
  split
  · rfl
  · rfl

theorem next_returns (hs : Inv False s) (hcopies : Copies s) (hcopies' : Copies s')
    (hpc : s.calls.get? call = some pc)
    (hid : pc.confirmHold = some id) (hnext : s.next call pc a = some s')
    (hdone : s'.calls.get? call = some (.done result)) (hworks : Works a)
    (hstarted : s.redis.Started id) (hfree : pc.NotConfirmed s.redis) :
    ∃ booking ∈ s'.store.file, s.redis.bookingOf? id = some booking ∧ result = .ok booking := by
  have hset {t : State} {pc' : Pc} (h : (t.setPc call pc').calls.get? call = some (.done result)) :
      pc' = .done result := by
    rw [State.setPc, get?_set_self] at h
    exact some.inj h
  unfold State.next at hnext
  split at hnext
  · -- the first read finds the hold under confirmation and goes on
    rename_i now answered
    cases hnext
    cases hid
    obtain rfl : answered = true := hworks
    obtain ⟨h, hafter⟩ := afterGet_begun hcopies hstarted now
    exact nomatch hafter.symm.trans (hset hdone)
  · rename_i hold _ confirmedAt now reply
    cases hnext
    obtain rfl : reply = .received := hworks
    exact absurd (hset hdone) (afterScript_ne_done _ _)
  · rename_i answered
    cases hnext
    cases hid
    obtain rfl : answered = true := hworks
    obtain ⟨h, hafter⟩ := afterReget_begun hcopies hstarted
    exact nomatch hafter.symm.trans (hset hdone)
  · -- the call ends after the record only if it has read the hold as confirmed
    rename_i hold caller _ ioError
    cases hnext
    obtain rfl : ioError = false := hworks
    cases caller with
    | recover => cases hid
    | confirm =>
      cases hid
      have hpc' : afterRecord hold .confirm (s.store.record (bookingOf hold) false).2 =
        .done result := hset hdone
      rw [afterRecord_works] at hpc'
      split at hpc'
      · cases hpc'
        have hbooking : s.redis.bookingOf? hold.id = some (bookingOf hold) := hcopies.pcs _ _ hpc
        have hbooked := hs.booked_record (bookingOf hold) false (record_ne_io _ _)
        exact ⟨_, hcopies'.mem_file hbooking hbooked, hbooking, rfl⟩
      · cases hpc'
  · rename_i hold booking caller _ reply
    cases hnext
    obtain rfl : reply = .received := hworks
    cases caller with
    | recover => cases hid
    | confirm =>
      cases hid
      obtain ⟨h, hget, hbegun⟩ := exists_begun hstarted
      have hpc' : afterFinalize booking .confirm (s.redis.finalize hold.id).2 = .done result :=
        hset hdone
      rw [finalize_one hbegun hget (hfree h hget)] at hpc'
      cases hpc'
      have hbooking : s.redis.bookingOf? hold.id = some booking := hcopies.pcs _ _ hpc
      exact ⟨booking, hcopies.mem_file hbooking (hs.pcs _ _ hpc), hbooking, rfl⟩
  · cases hid
  · cases hid
  · cases hnext

/-! ## Every run -/

theorem NotOvertaken.notConfirmed (hok : NotOvertaken s a) (hcall : a.call? = some call)
    (hpc : s.calls.get? call = some pc) (hnext : s.next call pc a = some s') :
    pc.NotConfirmed s.redis := by
  cases pc with
  | finalize hold booking caller =>
    cases a with
    | finalize call₀ reply =>
      obtain rfl : call₀ = call := some.inj hcall
      exact hok _ hpc
    | _ => cases hnext
  | _ => trivial

theorem overtaken_inactive {hold h : Hold}
    (hpc : s.calls.get? call = some (.finalize hold booking .confirm))
    (hget : s.redis.holds.get? hold.id = some h) (hconfirmed : h.status = .confirmed)
    (hstep : step s (.finalize call .received) = some s') :
    s'.calls.get? call = some (.done (.error .holdInactive)) := by
  have hzero := finalize_zero hget hconfirmed
  simp only [HoldQueue.step, hpc, bind_some, State.next, hzero] at hstep
  cases hstep
  exact get?_set_self _ _ _

theorem returns_iff_not_overtaken_step (hs : Inv False s) (hcopies : Copies s)
    (hstep : step s a = some s') :
    (Works a → ReturnsBooking s a) ↔ (Works a → NotOvertaken s a) := by
  refine imp_congr_right fun hworks => ⟨fun hreturns => ?_, fun hok => ?_⟩
  · cases a with
    | finalize call reply =>
      obtain rfl : reply = .received := hworks
      intro pc hpc
      cases pc with
      | finalize hold booking caller =>
        cases caller with
        | recover => trivial
        | confirm =>
          intro h hget hconfirmed
          have hid : (Pc.finalize hold booking .confirm).confirmHold = some hold.id := rfl
          obtain ⟨_, _, _, hresult⟩ := hreturns call _ hold.id s' _ hpc hid hstep
            (overtaken_inactive hpc hget hconfirmed hstep) (.inr ⟨h, hget, hconfirmed⟩)
          cases hresult
      | _ => trivial
    | _ => trivial
  · intro call pc id t result hpc hid ht hdone hstarted
    have hne : Pc.done result ≠ pc := by
      rintro rfl
      cases hid
    obtain ⟨hcall, hnext⟩ := step_next hs hcopies ht hpc hdone hne
    exact next_returns hs hcopies (hcopies.step hs ht) hpc hid hnext hdone hworks hstarted
      (hok.notConfirmed hcall hpc hnext)

/-- In every run, and whatever other calls, recovery workers and expiry workers do in
between: each call of `ConfirmHold` whose hold is confirming or confirmed at its last
step, Redis and the booking store working, returns the booking, exactly if no call runs
its last script after another caller or a recovery worker has confirmed its hold. -/
theorem returns_booking_iff_not_overtaken {as : List Label} {s : State}
    (hrun : run step initial as = some s) :
    RunMeets step (fun s a => Works a → ReturnsBooking s a) initial as ↔
      RunMeets step (fun s a => Works a → NotOvertaken s a) initial as := by
  refine runMeets_iff (I := fun s => Inv False s ∧ Copies s) ?_ ?_ ⟨inv_initial, copies_initial⟩
    hrun
  · exact fun s a s' hs _ hstep => ⟨hs.1.step nofun hstep, hs.2.step hs.1 hstep⟩
  · exact fun s a s' hs hstep => returns_iff_not_overtaken_step hs.1 hs.2 hstep

end

def confirmedTwice : List Label :=
  [.setCapacity "morning" 1 .received, .create 1 "h1" "morning" "ada" 60000000000 0 .received,
   .confirm 2 "h1", .get 2 1000000 true, .confirm 3 "h1",
   .script 2 1000000 1000000 .received, .persist 2 false, .finalize 2 .received,
   .get 3 2000000 true, .persist 3 false]

theorem returns_booking_iff_not_overtaken_twice :
    (run step initial confirmedTwice).isSome ∧
      RunMeets step (fun s a => Works a → ReturnsBooking s a) initial confirmedTwice := by
  have hreached : (run step initial confirmedTwice).isSome := by decide
  obtain ⟨s, hrun⟩ := isSome_iff_exists.mp hreached
  exact ⟨hreached, (returns_booking_iff_not_overtaken hrun).mpr (by decide)⟩

def overtaken : List Label :=
  [.setCapacity "morning" 1 .received, .create 1 "h1" "morning" "ada" 60000000000 0 .received,
   .confirm 2 "h1", .get 2 1000000 true, .script 2 1000000 1000000 .received, .persist 2 false,
   .recover 3, .recoverGet 3 true, .persist 3 false, .finalize 3 .received]

/-- Every command is answered, the hold is confirmed and its booking is in the file, and
still the caller is told that the hold is no longer active. -/
theorem overtaken_caller_told_inactive :
    (∀ a ∈ overtaken ++ [.finalize 2 .received], Works a) ∧ ∃ s ∈ run step initial overtaken,
        (∃ pc ∈ s.calls.get? 2, pc.confirmHold = some "h1") ∧
        (∃ h ∈ s.redis.holds.get? "h1", h.status = .confirmed) ∧
        ∃ s' ∈ step s (.finalize 2 .received),
          s'.calls.get? 2 = some (.done (.error .holdInactive)) ∧
          s'.store.file.map Booking.holdID = ["h1"] := by
  decide

end GoServices.HoldQueue
