/-
What each script of the hold service does to Redis.

A hold goes from held to confirming to confirmed, or from held to expired, and each script moves
the counter and the two sorted sets along with it.
-/
import GoServices.HoldQueue.Service

namespace GoServices.HoldQueue

open Table Redis

def Status.active : Status → Bool
  | .held | .confirming | .confirmed => true
  | .expired | .cancelled => false

def weight (slot : String) (h : Hold) : Int := if h.slot = slot ∧ h.status.active then 1 else 0

theorem weight_active {h : Hold} (hactive : h.status.active) (slot : String) :
    weight slot h = if slot = h.slot then 1 else 0 := by
  simp [weight, hactive, eq_comm]

theorem weight_inactive {h : Hold} (hactive : ¬ h.status.active) (slot : String) :
    weight slot h = 0 :=
  if_neg fun hw => hactive hw.2

namespace Redis

def activeHolds (r : Redis) (slot : String) : Int := r.holds.total fun _ h => weight slot h

def Has (r : Redis) (id : String) (status : Status) : Prop :=
  ∃ h, r.holds.get? id = some h ∧ h.status = status

def Started (r : Redis) (id : String) : Prop := r.Has id .confirming ∨ r.Has id .confirmed

end Redis

structure Consistent (r : Redis) : Prop where
  ids : ∀ id h, r.holds.get? id = some h → h.id = id
  used : ∀ slot, r.usedOf slot = r.activeHolds slot
  deadline : ∀ id, (∃ score, r.deadlines.get? id = some score) ↔ r.Has id .held
  pending : ∀ id, (∃ score, r.pending.get? id = some score) ↔ r.Has id .confirming

section
variable {r r' : Redis} {id : String} {h h' : Hold}

structure Moves (r r' : Redis) (id : String) (h h' : Hold) : Prop where
  old : r.holds.get? id = some h
  holds : r'.holds = r.holds.set id h'
  sameID : h'.id = h.id
  sameSlot : h'.slot = h.slot
  used : ∀ slot, r'.usedOf slot = r.usedOf slot + (weight slot h' - weight slot h)
  deadline : ∀ j, (∃ score, r'.deadlines.get? j = some score) ↔
    if j = id then h'.status = .held else ∃ score, r.deadlines.get? j = some score
  pending : ∀ j, (∃ score, r'.pending.get? j = some score) ↔
    if j = id then h'.status = .confirming else ∃ score, r.pending.get? j = some score
  capacity : r'.capacity = r.capacity

theorem has_set {id j : String} {st : Status} (hholds : r'.holds = r.holds.set id h') :
    r'.Has j st ↔ if j = id then h'.status = st else r.Has j st := by
  unfold Redis.Has
  rw [hholds]
  simp only [get?_set]
  split
  · simp
  · rfl

theorem Consistent.moves (hr : Consistent r) (hm : Moves r r' id h h') : Consistent r' where
  ids j g hg := by
    rw [hm.holds] at hg
    rcases set_cases hg with ⟨rfl, rfl⟩ | ⟨-, hg⟩
    · exact hm.sameID.trans (hr.ids j h hm.old)
    · exact hr.ids j g hg
  used slot := by
    have htotal := total_set_of_some (fun _ g => weight slot g) hm.old h'
    have hold := hr.used slot
    rw [hm.used, hold, activeHolds, activeHolds, hm.holds]
    omega
  deadline j := by
    rw [hm.deadline, has_set hm.holds]
    split
    · rfl
    · exact hr.deadline j
  pending j := by
    rw [hm.pending, has_set hm.holds]
    split
    · rfl
    · exact hr.pending j

inductive Event
  | created (id : String)
  | finalized (id : String)
  | other
  deriving DecidableEq

inductive RedisStep (r : Redis) : Event → Redis → Prop
  | quiet : RedisStep r .other r
  | creates {id : _} {h : Hold} (score : _) (hnew : r.holds.get? id = none)
      (hid : h.id = id) (hstatus : h.status = .held)
      (hroom : r.usedOf h.slot < (r.capacity.get? h.slot).getD 0) :
      RedisStep r (.created id)
        { r with
          holds := r.holds.set id h
          used := r.used.set h.slot (r.usedOf h.slot + 1)
          deadlines := r.deadlines.set id score }
  | confirms {r' id : _} {h h' : Hold} (hm : Moves r r' id h h')
      (hfrom : h.status = .held) (hto : h'.status = .confirming) : RedisStep r .other r'
  | finalizes {r' id : _} {h h' : Hold} (hm : Moves r r' id h h')
      (hfrom : h.status = .confirming) (hto : h'.status = .confirmed) :
      RedisStep r (.finalized id) r'
  | expires {r' id : _} {h h' : Hold} (hm : Moves r r' id h h')
      (hfrom : h.status = .held) (hto : h'.status = .expired) : RedisStep r .other r'
  | clears (id : _) (hnot : ¬ r.Has id .held) :
      RedisStep r .other { r with deadlines := r.deadlines.erase id }
  | drops {id : _} (hexpired : r.Has id .expired) : RedisStep r .other (r.expireKey id)

/-! ## The scripts -/

theorem isSome_set (z : Table String Int) (id : String) (score : Int) (j : String) :
    (∃ x, (z.set id score).get? j = some x) ↔ if j = id then True else ∃ x, z.get? j = some x := by
  rw [get?_set]
  split
  · simp
  · rfl

theorem isSome_erase (z : Table String Int) (id j : String) :
    (∃ x, (z.erase id).get? j = some x) ↔ if j = id then False else ∃ x, z.get? j = some x := by
  rw [get?_erase]
  split
  · simp
  · rfl

theorem usedOf_set (r : Redis) (slot : String) (n : Int) (slot' : String) :
    ({ r with used := r.used.set slot n } : Redis).usedOf slot' =
      if slot' = slot then n else r.usedOf slot' := by
  rw [usedOf, get?_set]
  split
  · rfl
  · rfl

theorem confirmHold_step (r : Redis) (id : String) (now confirmedAt : Int) :
    RedisStep r .other (r.confirmHold id now confirmedAt).1 ∧
      ((r.confirmHold id now confirmedAt).2 = 1 →
        (r.confirmHold id now confirmedAt).1.Has id .confirming) := by
  rw [confirmHold]
  cases hget : r.holds.get? id with
  | none => exact ⟨.quiet, nofun⟩
  | some h =>
    dsimp only
    split
    · exact ⟨.quiet, nofun⟩
    rename_i hheld
    have hfrom : h.status = .held := not_not.mp hheld
    split
    · exact ⟨.quiet, nofun⟩
    refine ⟨.confirms (h := h)
      ⟨hget, rfl, rfl, rfl, fun slot => ?_, fun j => ?_, fun j => ?_, rfl⟩ hfrom rfl,
      fun _ => ⟨_, get?_set_self _ _ _, rfl⟩⟩
    · simp [weight, Status.active, hfrom, usedOf]
    · simp [isSome_erase]
    · simp [isSome_set]

theorem Has.unique {st st' : Status} (hst : r.Has id st) (hst' : r.Has id st') : st = st' := by
  obtain ⟨h, hget, rfl⟩ := hst
  obtain ⟨h', hget', rfl⟩ := hst'
  rw [hget] at hget'
  cases hget'
  rfl

theorem finalize_step (hr : Consistent r) (id : String) :
    (r.finalize id).1 = r ∨ RedisStep r (.finalized id) (r.finalize id).1 := by
  rw [finalize]
  cases hget : r.holds.get? id with
  | none => exact .inl rfl
  | some h =>
    dsimp only
    split
    · exact .inl rfl
    rename_i hconfirming
    have hfrom : h.status = .confirming := not_not.mp hconfirming
    have hno : ¬ r.Has id .held := fun hheld => nomatch Has.unique hheld ⟨h, hget, hfrom⟩
    refine .inr (.finalizes (h := h)
      ⟨hget, rfl, rfl, rfl, fun slot => ?_, fun j => ?_, fun j => ?_, rfl⟩ hfrom rfl)
    · simp [weight, Status.active, hfrom, usedOf]
    · by_cases hj : j = id
      · simp [hj, hr.deadline, hno]
      · simp [hj]
    · simp [isSome_erase]

theorem expireHold_step (hr : Consistent r) (id : String) :
    RedisStep r .other (r.expireHold id).1 := by
  rw [expireHold]
  cases hget : r.holds.get? id with
  | none => exact .clears id (by rintro ⟨h, hh, -⟩; rw [hget] at hh; cases hh)
  | some h =>
    dsimp only
    split
    · rename_i hstatus
      exact .clears id fun hheld => hstatus (Has.unique ⟨h, hget, rfl⟩ hheld)
    rename_i hheld
    have hfrom : h.status = .held := not_not.mp hheld
    have hno : ¬ r.Has id .confirming :=
      fun hconfirming => nomatch Has.unique hconfirming ⟨h, hget, hfrom⟩
    refine .expires (h := h)
      ⟨hget, rfl, rfl, rfl, fun slot => ?_, fun j => ?_, fun j => ?_, rfl⟩ hfrom rfl
    · have hused := usedOf_set r h.slot (r.usedOf h.slot - 1) slot
      simp only [usedOf] at hused ⊢
      have hgone : weight slot { h with status := .expired } = 0 :=
        weight_inactive (by exact Bool.false_ne_true) slot
      rw [hused, hgone, weight_active (by rw [hfrom]; rfl)]
      split
      · rename_i hslot
        rw [hslot]
        omega
      · omega
    · simp [isSome_erase]
    · by_cases hj : j = id
      · simp [hj, hr.pending, hno]
      · simp [hj]

theorem createHold_step (hnew : r.holds.get? id = none) (slot visitorID : String) (expires : Int) :
    (r.createHold id slot visitorID expires).1 = r ∨
      RedisStep r (.created id) (r.createHold id slot visitorID expires).1 := by
  rw [createHold]
  split
  · exact .inl rfl
  rename_i hset
  split
  · exact .inl rfl
  rename_i hfull
  refine .inr (.creates (h := ⟨id, slot, visitorID, .held, expires, none⟩) _ hnew rfl rfl ?_)
  cases hcap : r.capacity.get? slot with
  | none => exact absurd (by rw [hcap]; decide) hset
  | some c =>
    rw [hcap] at hfull
    exact Int.not_le.mp hfull

/-! ## What a command keeps -/

section
variable {e : Event} {id : String}

theorem Consistent.creates (hr : Consistent r) {h : Hold} (score : Int)
    (hnew : r.holds.get? id = none) (hid : h.id = id) (hstatus : h.status = .held) :
    Consistent
      { r with
        holds := r.holds.set id h
        used := r.used.set h.slot (r.usedOf h.slot + 1)
        deadlines := r.deadlines.set id score } where
  ids j g hg := by
    rcases set_cases hg with ⟨rfl, rfl⟩ | ⟨-, hg⟩
    · exact hid
    · exact hr.ids j g hg
  used slot := by
    have htotal := total_set_of_none (fun _ g => weight slot g) hnew h
    have hused := usedOf_set r h.slot (r.usedOf h.slot + 1) slot
    have hold := hr.used slot
    rw [weight_active (by rw [hstatus]; rfl)] at htotal
    simp only [usedOf, activeHolds] at hused hold ⊢
    rw [hused, htotal]
    split
    · rename_i hslot
      rw [← hslot, hold, Int.add_comm]
    · rw [hold, Int.zero_add]
  deadline j := by
    rw [isSome_set, has_set rfl]
    split
    · simp [hstatus]
    · exact hr.deadline j
  pending j := by
    rw [has_set rfl]
    split
    · rename_i hj
      have habsent : ¬ r.Has id .confirming := by
        rintro ⟨g, hg, -⟩
        rw [hnew] at hg
        cases hg
      simp [hj, hr.pending, habsent, hstatus]
    · exact hr.pending j

variable {st : Status}

theorem has_expireKey (hexpired : r.Has id .expired) (j : String) (hne : st ≠ .expired) :
    (r.expireKey id).Has j st ↔ r.Has j st := by
  unfold Redis.Has expireKey
  simp only [get?_erase]
  split
  · rename_i hj
    rw [hj]
    refine ⟨nofun, fun hst => absurd (Has.unique hst hexpired) hne⟩
  · rfl

theorem Consistent.drops (hr : Consistent r) (hexpired : r.Has id .expired) :
    Consistent (r.expireKey id) where
  ids j g hg := by
    rw [expireKey, get?_erase] at hg
    split at hg <;> try cases hg
    exact hr.ids j g hg
  used slot := by
    obtain ⟨h, hget, hst⟩ := hexpired
    have htotal := total_erase_of_some (fun _ g => weight slot g) hget
    rw [weight_inactive (by rw [hst]; nofun), Int.add_zero] at htotal
    exact (hr.used slot).trans htotal.symm
  deadline j := by
    rw [has_expireKey hexpired j Status.noConfusion]
    exact hr.deadline j
  pending j := by
    rw [has_expireKey hexpired j Status.noConfusion]
    exact hr.pending j

theorem Consistent.clears (hr : Consistent r) (hnot : ¬ r.Has id .held) :
    Consistent { r with deadlines := r.deadlines.erase id } := { hr with
  deadline := fun j => by
    rw [isSome_erase]
    split
    · rename_i hj
      rw [hj]
      exact ⟨False.elim, fun hheld => hnot hheld⟩
    · exact hr.deadline j }

theorem RedisStep.consistent (hr : Consistent r) (hstep : RedisStep r e r') : Consistent r' := by
  cases hstep with
  | quiet => exact hr
  | creates score hnew hid hstatus => exact hr.creates score hnew hid hstatus
  | confirms hm | finalizes hm | expires hm => exact hr.moves hm
  | clears id hnot => exact hr.clears hnot
  | drops hexpired => exact hr.drops hexpired

variable {j : String}

theorem Moves.has_of_ne (hm : Moves r r' id h h') (hj : r.Has j st) (hne : h.status ≠ st) :
    r'.Has j st := by
  rw [has_set hm.holds, if_neg]
  · exact hj
  · rintro rfl
    exact hne (Has.unique ⟨h, hm.old, rfl⟩ hj)

theorem RedisStep.has_kept (hstep : RedisStep r e r') (hj : r.Has j st) (hheld : st ≠ .held)
    (hexpired : st ≠ .expired) (hfinal : st = .confirming → e ≠ .finalized j) : r'.Has j st := by
  cases hstep with
  | quiet => exact hj
  | @creates id h score hnew =>
    rw [has_set rfl, if_neg]
    · exact hj
    rintro rfl
    obtain ⟨g, hg, -⟩ := hj
    rw [hnew] at hg
    cases hg
  | confirms hm hfrom | expires hm hfrom =>
    exact hm.has_of_ne hj fun hst => hheld (hst.symm.trans hfrom)
  | finalizes hm hfrom =>
    refine (has_set hm.holds).mpr ?_
    rw [if_neg]
    · exact hj
    · rintro rfl
      exact hfinal (Has.unique hj ⟨_, hm.old, hfrom⟩) rfl
  | clears => exact hj
  | drops hdropped => exact (has_expireKey hdropped j hexpired).mpr hj

theorem RedisStep.absent (hstep : RedisStep r e r') (hj : r.holds.get? j = none)
    (hne : e ≠ .created j) : r'.holds.get? j = none := by
  have hmoves {id : String} {h h' : Hold} (hm : Moves r r' id h h') :
      r'.holds.get? j = none := by
    rw [hm.holds, get?_set, if_neg]
    · exact hj
    rintro rfl
    rw [hm.old] at hj
    cases hj
  cases hstep with
  | quiet => exact hj
  | @creates id h score hnew =>
    rw [get?_set, if_neg fun hid => hne (congrArg Event.created hid.symm)]
    exact hj
  | confirms hm | finalizes hm | expires hm => exact hmoves hm
  | clears => exact hj
  | drops =>
    rw [expireKey, get?_erase]
    split
    · rfl
    · exact hj

theorem RedisStep.started (hstep : RedisStep r e r') (hj : r.Started j) :
    r'.Started j := by
  rcases hj with hj | hj
  · by_cases hfinal : e = .finalized j
    · cases hstep with
      | finalizes hm hfrom hto =>
        cases hfinal
        exact .inr ⟨_, by rw [hm.holds, get?_set_self], hto⟩
      | _ => cases hfinal
    · exact .inl (hstep.has_kept hj Status.noConfusion Status.noConfusion fun _ => hfinal)
  · exact .inr (hstep.has_kept hj Status.noConfusion Status.noConfusion nofun)

theorem Moves.has_confirmed (hm : Moves r r' id h h') (hto : h'.status ≠ .confirmed)
    (hj : r'.Has j .confirmed) : r.Has j .confirmed := by
  rw [has_set hm.holds] at hj
  split at hj
  · exact absurd hj hto
  · exact hj

theorem RedisStep.confirmed (hstep : RedisStep r e r') (hj : r'.Has j .confirmed) :
    r.Has j .confirmed ∨ e = .finalized j := by
  cases hstep with
  | quiet => exact .inl hj
  | @creates id h score hnew hid hstatus =>
    rw [has_set rfl] at hj
    split at hj
    · rw [hstatus] at hj
      cases hj
    · exact .inl hj
  | confirms hm hfrom hto | expires hm hfrom hto =>
    exact .inl (hm.has_confirmed (by rw [hto]; nofun) hj)
  | finalizes hm hfrom hto =>
    rw [has_set hm.holds] at hj
    split at hj
    · rename_i hid
      exact .inr (congrArg Event.finalized hid.symm)
    · exact .inl hj
  | clears => exact .inl hj
  | drops hdropped => exact .inl ((has_expireKey hdropped j Status.noConfusion).mp hj)

def Within (r : Redis) : Prop := ∀ slot, r.usedOf slot ≤ (r.capacity.get? slot).getD 0

theorem Moves.within (hm : Moves r r' id h h') (hr : Within r) (hactive : h.status.active) :
    Within r' := by
  intro slot
  have hle : weight slot h' ≤ weight slot h := by
    rw [weight_active hactive, ← hm.sameSlot]
    by_cases hactive' : h'.status.active
    · exact (weight_active hactive' slot).le
    · rw [weight_inactive hactive']
      split <;> decide
  have hslot := hr slot
  rw [hm.used, hm.capacity]
  omega

theorem RedisStep.within (hr : Within r) (hstep : RedisStep r e r') : Within r' := by
  cases hstep with
  | quiet => exact hr
  | @creates id h score hnew hid hstatus hroom =>
    intro slot
    have hused := usedOf_set r h.slot (r.usedOf h.slot + 1) slot
    simp only [usedOf] at hused hroom ⊢
    rw [hused]
    split
    · rename_i hslot
      rw [hslot]
      exact hroom
    · exact hr slot
  | confirms hm hfrom | finalizes hm hfrom | expires hm hfrom =>
    exact hm.within hr (by rw [hfrom]; rfl)
  | clears | drops => exact hr

end

end

end GoServices.HoldQueue
