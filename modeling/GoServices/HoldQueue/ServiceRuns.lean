/-
What every run of the hold service keeps.

A hold whose confirmation has begun is never expired afterwards, so a call or a worker that read
it as confirming may record its booking at any later time, however stale what it read has become.
-/
import GoServices.HoldQueue.Scripts

namespace GoServices.HoldQueue

open List

def BookingStore.Booked (b : BookingStore) (id : String) : Prop := id ∈ b.file.map Booking.holdID

def PcSound (r : Redis) (b : BookingStore) : Pc → Prop
  | .persist hold _ => r.Started hold.id
  | .finalize hold _ _ => b.Booked hold.id
  | _ => True

/-- `kept` is that no capacity was lowered. -/
structure Inv (kept : Prop) (s : State) : Prop where
  redis : Consistent s.redis
  drawn : ∀ id, id ∉ s.drawn → s.redis.holds.get? id = none
  seen : ∀ id, id ∈ s.store.seen ↔ s.store.Booked id
  once : (s.store.file.map Booking.holdID).Nodup
  booked : ∀ id, s.store.Booked id → s.redis.Started id
  confirmed : ∀ id, s.redis.Has id .confirmed → s.store.Booked id
  pcs : ∀ call pc, s.calls.get? call = some pc → PcSound s.redis s.store pc
  within : kept → Within s.redis

section
variable {kept : Prop} {s s' : State} {r' : Redis} {e : Event} {pc : Pc} {call : Nat}

theorem PcSound.mono {r r' : Redis} {b b' : BookingStore} (hpc : PcSound r b pc)
    (hstarted : ∀ id, r.Started id → r'.Started id) (hbooked : ∀ id, b.Booked id → b'.Booked id) :
    PcSound r' b' pc := by
  cases pc with
  | persist hold => exact hstarted hold.id hpc
  | finalize hold => exact hbooked hold.id hpc
  | _ => trivial

/-! ## The capacity -/

def NotLowered (s : State) : Label → Prop
  | .setCapacity slot capacity _ => ∀ old ∈ s.redis.capacity.get? slot, old ≤ capacity
  | _ => True

instance (s : State) : ∀ a, Decidable (NotLowered s a) := fun _ => by
  unfold NotLowered
  split <;> infer_instance

theorem Within.setCapacity {r : Redis} (hr : Within r) {capacity : Int} (hpos : 0 ≤ capacity)
    (hold : ∀ old ∈ r.capacity.get? slot, old ≤ capacity) :
    Within (r.setCapacity slot capacity) := by
  intro slot'
  have hslot := hr slot'
  rw [Redis.setCapacity, Table.get?_set]
  split
  · rename_i heq
    subst heq
    cases hget : r.capacity.get? slot' with
    | none =>
      rw [hget] at hslot
      exact Int.le_trans hslot hpos
    | some old =>
      rw [hget] at hslot
      exact Int.le_trans hslot (hold old hget)
  · exact hslot

/-! ## The parts of a step -/

section
variable (hs : Inv kept s)
include hs

theorem Inv.command (hstep : RedisStep s.redis e r')
    (hcreated : ∀ id, e = .created id → id ∈ s.drawn)
    (hfinal : ∀ id, e = .finalized id → s.store.Booked id) : Inv kept { s with redis := r' } where
  redis := hstep.consistent hs.redis
  drawn id hid := hstep.absent (hs.drawn id hid) fun he => hid (hcreated id he)
  seen := hs.seen
  once := hs.once
  booked id hid := hstep.started (hs.booked id hid)
  confirmed id hid := (hstep.confirmed hid).elim (hs.confirmed id) (hfinal id)
  pcs call pc hpc := (hs.pcs call pc hpc).mono (fun _ => hstep.started) fun _ h => h
  within h := hstep.within (hs.within h)

theorem Inv.command_other (hstep : RedisStep s.redis .other r') : Inv kept { s with redis := r' } :=
  hs.command hstep nofun nofun

theorem Inv.reply (hs' : Inv kept { s with redis := r' }) (reply : Reply) :
    Inv kept { s with redis := reply.apply s.redis r' } := by
  rcases reply with _ | _ | _
  · exact hs'
  · exact hs
  · exact hs'

theorem Inv.setCapacity {slot : String} {capacity : Int} (hpos : 0 ≤ capacity)
    (hold : kept → ∀ old ∈ s.redis.capacity.get? slot, old ≤ capacity) :
    Inv kept { s with redis := s.redis.setCapacity slot capacity } := { hs with
  redis := ⟨hs.redis.ids, hs.redis.used, hs.redis.deadline, hs.redis.pending⟩
  within := fun h => (hs.within h).setCapacity hpos (hold h) }

theorem Inv.draw (id : String) : Inv kept { s with drawn := id :: s.drawn } := { hs with
  drawn := fun j hj => hs.drawn j fun h => hj (mem_cons_of_mem _ h) }

theorem Inv.setPc (hpc : PcSound s.redis s.store pc) : Inv kept (s.setPc call pc) := { hs with
  pcs j pc' hj := by
    rcases Table.set_cases hj with ⟨-, rfl⟩ | ⟨-, hj⟩
    · exact hpc
    · exact hs.pcs j pc' hj }

theorem Inv.crash : Inv kept { s with calls := .empty, store := .load s.store.file } := { hs with
  seen := fun _ => Iff.rfl
  pcs := fun _ _ hpc => nomatch hpc }

end

theorem booked_append (b : BookingStore) (booking : Booking) (seen : List String) (id : String) :
    BookingStore.Booked ⟨b.file ++ [booking], seen⟩ id ↔ id = booking.holdID ∨ b.Booked id := by
  simp [BookingStore.Booked, or_comm]

theorem Inv.append (hs : Inv kept s) {booking : Booking} (hstarted : s.redis.Started booking.holdID)
    (hnew : booking.holdID ∉ s.store.seen) :
    Inv kept { s with store := ⟨s.store.file ++ [booking], booking.holdID :: s.store.seen⟩ } where
  redis := hs.redis
  drawn := hs.drawn
  seen id := by rw [booked_append, ← hs.seen id, List.mem_cons]
  once := by
    rw [map_append, nodup_append_comm]
    exact nodup_cons.mpr ⟨fun hold => hnew ((hs.seen _).mpr hold), hs.once⟩
  booked id hid := by
    rcases (booked_append _ _ _ id).mp hid with rfl | hold
    · exact hstarted
    · exact hs.booked id hold
  confirmed id hid := (booked_append _ _ _ id).mpr (.inr (hs.confirmed id hid))
  pcs call pc hpc :=
    (hs.pcs call pc hpc).mono (fun _ h => h) fun id h => (booked_append _ _ _ id).mpr (.inr h)
  within := hs.within

theorem Inv.record (hs : Inv kept s) (booking : Booking) (hstarted : s.redis.Started booking.holdID)
    (ioError : Bool) : Inv kept { s with store := (s.store.record booking ioError).1 } := by
  rw [BookingStore.record]
  split
  · exact hs
  rename_i hnew
  split
  · exact hs
  · exact hs.append hstarted hnew

theorem Inv.booked_record (hs : Inv kept s) (booking : Booking) (ioError : Bool)
    (hok : (s.store.record booking ioError).2 ≠ .error .io) :
    (s.store.record booking ioError).1.Booked booking.holdID := by
  unfold BookingStore.record at hok ⊢
  split
  · rename_i hseen
    exact (hs.seen _).mp hseen
  rename_i hnew
  rw [if_neg hnew] at hok
  split
  · rename_i hio
    rw [if_pos hio] at hok
    exact absurd rfl hok
  · exact (booked_append _ _ _ _).mpr (.inl rfl)

/-! ## Where a call goes next -/

section
variable {r : Redis} {b : BookingStore}

theorem pcSound_return (result : Except ServiceError Booking) (caller : Caller) :
    PcSound r b (caller.return result) := by
  cases caller <;> trivial

variable {hold : Hold}

theorem pcSound_startPersist (hstarted : r.Started hold.id) (caller : Caller) :
    PcSound r b (startPersist hold caller) := by
  unfold startPersist
  split
  · exact pcSound_return _ caller
  · exact hstarted

section
variable (hr : Consistent r)
include hr

theorem Consistent.started_of_get {id : String} (hget : r.holds.get? id = some hold)
    (hstatus : hold.status = .confirming ∨ hold.status = .confirmed) : r.Started hold.id := by
  rw [hr.ids id hold hget]
  exact hstatus.imp (fun h => ⟨hold, hget, h⟩) fun h => ⟨hold, hget, h⟩

theorem pcSound_afterGet (now : Int) (id : String) :
    PcSound r b (afterGet now (r.holds.get? id)) := by
  cases hget : r.holds.get? id with
  | none => trivial
  | some hold =>
    rw [afterGet]
    split
    · rename_i hstatus
      exact pcSound_startPersist (hr.started_of_get hget hstatus.symm) .confirm
    · split <;> trivial

theorem pcSound_afterReget (id : String) : PcSound r b (afterReget (r.holds.get? id)) := by
  cases hget : r.holds.get? id with
  | none => trivial
  | some hold =>
    rw [afterReget]
    split
    · rename_i hstatus
      exact pcSound_startPersist (hr.started_of_get hget hstatus) .confirm
    · trivial

theorem pcSound_afterRecover (rest : List String) (id : String) :
    PcSound r b (afterRecover rest (r.holds.get? id)) := by
  cases hget : r.holds.get? id with
  | none => trivial
  | some hold =>
    rw [afterRecover]
    split
    · rename_i hstatus
      exact pcSound_startPersist (hr.started_of_get hget (.inl hstatus)) (.recover rest)
    · trivial

end

theorem pcSound_afterScript {result : Int} (hstarted : result = 1 → r.Started hold.id)
    (confirmedAt : Int) :
    PcSound r b (afterScript hold confirmedAt result) := by
  rw [afterScript]
  split
  · trivial
  · rename_i hresult
    exact hstarted (not_not.mp hresult)

theorem pcSound_afterRecord {result : Except BookingStore.RecordError Unit}
    (hbooked : result ≠ .error .io → b.Booked hold.id) (caller : Caller) :
    PcSound r b (afterRecord hold caller result) := by
  have hdone (hok : b.Booked hold.id) :
      PcSound r b (if hold.status = .confirmed then caller.return (.ok (bookingOf hold))
        else .finalize hold (bookingOf hold) caller) := by
    split
    · exact pcSound_return _ caller
    · exact hok
  rcases result with (_ | _) | _
  · exact hdone (hbooked nofun)
  · exact pcSound_return _ caller
  · exact hdone (hbooked nofun)

theorem pcSound_afterFinalize (booking : Booking) (caller : Caller) (result : Int) :
    PcSound r b (afterFinalize booking caller result) := by
  rw [afterFinalize]
  split
  all_goals exact pcSound_return _ caller

end

/-! ## Steps -/

theorem Inv.start (hs : Inv kept s) (hstart : s.start call pc = some s')
    (hpc : PcSound s.redis s.store pc) : Inv kept s' := by
  unfold State.start at hstart
  split at hstart <;> cases hstart
  exact hs.setPc hpc

variable {id slot : String}

theorem Inv.create (hs : Inv kept s) {visitorID : String} {ttl now : Int} {reply : Reply}
    (hcreate : s.create call id slot visitorID ttl now reply = some s') : Inv kept s' := by
  rw [State.create] at hcreate
  split at hcreate
  · exact hs.start hcreate trivial
  split at hcreate
  · cases hcreate
  rename_i hfresh
  have hs₁ := hs.draw id
  have hs₂ : Inv kept { s with
      redis := (s.redis.createHold id slot visitorID (now + ttl)).1
      drawn := id :: s.drawn } := by
    rcases createHold_step (hs.drawn id hfresh) slot visitorID (now + ttl) with hsame | hstep
    · rw [hsame]
      exact hs₁
    · exact hs₁.command hstep (fun j hj => by cases hj; exact mem_cons_self) nofun
  refine (hs₁.reply hs₂ reply).start hcreate ?_
  cases reply <;> trivial

theorem Inv.finalize (hs : Inv kept s) (hbooked : s.store.Booked id) :
    Inv kept { s with redis := (s.redis.finalize id).1 } := by
  rcases finalize_step hs.redis id with hsame | hstep
  · rw [hsame]
    exact hs
  · exact hs.command hstep nofun fun j hj => by cases hj; exact hbooked

variable {a : Label}

theorem Inv.next (hs : Inv kept s) (hpc : s.calls.get? call = some pc)
    (hnext : s.next call pc a = some s') : Inv kept s' := by
  have hsound := hs.pcs call pc hpc
  unfold State.next at hnext
  split at hnext <;> cases hnext
  · refine hs.setPc ?_
    split
    · exact pcSound_afterGet hs.redis _ _
    · trivial
  · rename_i hold _ confirmedAt now reply
    obtain ⟨hstep, hstarted⟩ := confirmHold_step s.redis hold.id now confirmedAt
    refine (hs.reply (hs.command_other hstep) reply).setPc ?_
    cases reply with
    | received => exact pcSound_afterScript (fun hresult => .inl (hstarted hresult)) confirmedAt
    | lost => trivial
  · refine hs.setPc ?_
    split
    · exact pcSound_afterReget hs.redis _
    · trivial
  · rename_i hold caller _ ioError
    refine (hs.record (bookingOf hold) hsound ioError).setPc ?_
    exact pcSound_afterRecord (hs.booked_record (bookingOf hold) ioError) caller
  · rename_i hold booking caller _ reply
    refine (hs.reply (hs.finalize hsound) reply).setPc ?_
    cases reply with
    | received => exact pcSound_afterFinalize booking caller _
    | lost => exact pcSound_return _ caller
  · refine hs.setPc ?_
    split
    · exact pcSound_afterRecover hs.redis _ _
    · trivial
  · rename_i id rest _ reply
    refine (hs.reply (hs.command_other (expireHold_step hs.redis id)) reply).setPc ?_
    cases reply <;> trivial

theorem Inv.step (hs : Inv kept s) (hok : kept → NotLowered s a) (hstep : step s a = some s') :
    Inv kept s' := by
  have hnext {call : Nat} {a : Label}
      (h : ((s.calls.get? call).bind fun pc => s.next call pc a) = some s') : Inv kept s' := by
    obtain ⟨pc, hpc, h⟩ := Option.bind_eq_some_iff.mp h
    exact hs.next hpc h
  cases a with
  | setCapacity slot capacity reply =>
    rw [HoldQueue.step] at hstep
    split at hstep <;> cases hstep
    · exact hs
    rename_i hvalid
    have hpos : 0 ≤ capacity := Int.not_lt.mp fun hneg => hvalid (.inr hneg)
    exact hs.reply (hs.setCapacity hpos hok) reply
  | create => exact hs.create hstep
  | confirm | recover | releaseExpired => exact hs.start hstep trivial
  | expireKey id =>
    simp only [HoldQueue.step] at hstep
    split at hstep <;> try cases hstep
    rename_i hold hget
    split at hstep <;> cases hstep
    rename_i hexpired
    exact hs.command_other (.drops ⟨hold, hget, hexpired⟩)
  | crash =>
    cases hstep
    exact hs.crash
  | _ => exact hnext hstep

theorem inv_initial : Inv kept initial where
  redis := ⟨nofun, fun _ => rfl, fun _ => ⟨nofun, nofun⟩, fun _ => ⟨nofun, nofun⟩⟩
  drawn _ _ := rfl
  seen _ := Iff.rfl
  once := nodup_nil
  booked _ h := nomatch h
  confirmed _ h := nomatch h
  pcs _ _ h := nomatch h
  within _ _ := Int.le_refl 0

/-! ## Every run -/

/-- In every state the service can reach, the counter of a slot is the number of its
holds that are held, confirming or confirmed; the two sorted sets hold exactly the held
and the confirming holds; a hold has at most one booking, has one if it is confirmed, and
once it has one it is confirming or confirmed for good. -/
theorem hold_service_invariants {as : List Label} {s : State}
    (hrun : run step initial as = some s) :
    (∀ slot, s.redis.usedOf slot = s.redis.activeHolds slot) ∧
    (RunMeets step NotLowered initial as →
      ∀ slot, s.redis.usedOf slot ≤ (s.redis.capacity.get? slot).getD 0) ∧
    (∀ id, (∃ score, s.redis.deadlines.get? id = some score) ↔ s.redis.Has id .held) ∧
    (∀ id, (∃ score, s.redis.pending.get? id = some score) ↔ s.redis.Has id .confirming) ∧
    (∀ id, s.store.file.countP (fun b => b.holdID = id) ≤ 1) ∧
    (∀ id, s.redis.Has id .confirmed → ∃ b ∈ s.store.file, b.holdID = id) ∧
    (∀ b ∈ s.store.file, s.redis.Has b.holdID .confirming ∨ s.redis.Has b.holdID .confirmed) ∧
    (∀ id, s.redis.Has id .expired → ∀ b ∈ s.store.file, b.holdID ≠ id) := by
  have hs : Inv False s :=
    run_invariant (fun _ _ _ hs hstep => hs.step nofun hstep) inv_initial hrun
  have hstarted (b : Booking) (hb : b ∈ s.store.file) : s.redis.Started b.holdID :=
    hs.booked b.holdID (mem_map_of_mem hb)
  refine ⟨hs.redis.used, fun hok => ?_, hs.redis.deadline, hs.redis.pending, fun id => ?_,
    fun id hid => mem_map.mp (hs.confirmed id hid), hstarted, fun id hid b hb => ?_⟩
  · have hkept : Inv True s := run_invariant_of_meets
      (fun _ _ _ hs hok hstep => hs.step (fun _ => hok) hstep) inv_initial hok hrun
    exact hkept.within trivial
  · have hcount := nodup_iff_count_le_one.mp hs.once id
    rw [count, countP_map] at hcount
    exact hcount
  rintro rfl
  rcases hstarted b hb with hst | hst
  all_goals cases Has.unique hst hid

def recovered : List Label :=
  [.setCapacity "morning" 1 .received, .create 1 "h1" "morning" "ada" 60000000000 0 .received,
   .create 2 "h2" "morning" "bob" 60000000000 0 .received,
   .confirm 3 "h1", .get 3 1000000 true, .script 3 1000000 1000000 .received, .persist 3 false,
   .crash,
   .confirm 3 "h1", .get 3 2000000 true,
   .recover 4, .recoverGet 4 true, .persist 4 false, .finalize 4 .received,
   .persist 3 false, .finalize 3 .received]

theorem hold_service_invariants_recovered :
    ∃ s, run step initial recovered = some s ∧ s.redis.usedOf "morning" = 1 ∧
      s.redis.usedOf "morning" ≤ (s.redis.capacity.get? "morning").getD 0 ∧
      s.store.file.countP (fun b => b.holdID = "h1") = 1 := by
  refine exists_some_imp (A := fun s => s.redis.usedOf "morning" = 1 ∧
      s.store.file.countP (fun b => b.holdID = "h1") = 1)
    (by decide) fun s hrun ⟨hused, hfile⟩ => ?_
  obtain ⟨-, hcapacity, -⟩ := hold_service_invariants hrun
  exact ⟨hused, hcapacity (by decide) "morning", hfile⟩

end

end GoServices.HoldQueue
