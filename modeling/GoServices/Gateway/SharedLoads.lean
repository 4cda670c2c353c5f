/-
Callers of `GetOrLoad` that wait while another one loads.

A caller whose `Get` has missed waits for the shard's lock, which a load keeps until it is over.
-/
import GoServices.Base.Run
import GoServices.Gateway.Cache

namespace GoServices.Gateway.SharedLoads

variable {α : Type}

inductive Phase (α : Type) where
  /-- `Get` has missed. -/
  | waiting (key : String) (shared : Option (Entry α))
  /-- Inside the load, with the lock; the clock was read at `since`. -/
  | loading (key : String) (since : Int)
  | done

structure Recheck (α : Type) where
  shared : Option (Entry α)
  returned : Option α
  deriving DecidableEq

structure State (α : Type) where
  shard : Shard α
  lock : Option Nat
  callers : Table Nat (Phase α)
  rechecks : List (Recheck α)

def start (capacity : Int) : State α := ⟨.empty capacity, none, .empty, []⟩

/-- Calls of `GetOrLoad` for any keys of the shard.  A load that fails has no value. -/
inductive Label (α : Type) where
  | get (id : Nat) (key : String) (now : Int)
  | recheck (id : Nat) (now : Int)
  | finish (id : Nat) (result : Option α)

/-- What the callers that wait take note of when `stored` is put under `key`. -/
def Phase.notice (before after : Shard α) (key : String) (stored : Entry α) :
    Phase α → Phase α
  | .waiting k shared =>
    if (after.items.get? k).isNone ∧ (k = key ∨ (before.items.get? k).isSome) then
      -- evicted
      .waiting k none
    else if k = key then .waiting k (some stored)
    else .waiting k shared
  | p => p

def step (ttl : Int) (s : State α) : Label α → Option (State α)
  | .get id key now =>
    if s.callers.get? id = none ∧ s.lock = none then
      let (shard, hit) := s.shard.get key now
      let phase := if hit.isSome then .done else .waiting key none
      some { s with shard := shard, callers := s.callers.set id phase }
    else none
  | .recheck id now =>
    match s.callers.get? id with
    | some (.waiting key shared) =>
      if s.lock = none then
        match s.shard.recheck key now with
        | some (shard, v) =>
          some { s with
            shard := shard
            callers := s.callers.set id .done
            rechecks := s.rechecks ++ [⟨shared, some v⟩] }
        | none =>
          some { s with
            lock := some id
            callers := s.callers.set id (.loading key now)
            rechecks := s.rechecks ++ [⟨shared, none⟩] }
      else none
    | _ => none
  | .finish id result =>
    match s.callers.get? id with
    | some (.loading key since) =>
      match result with
      | none => some { s with lock := none, callers := s.callers.set id .done }
      | some v =>
        let shard := s.shard.store key v (since + ttl)
        some { s with
          shard := shard
          lock := none
          callers := (s.callers.set id .done).mapValues
            (Phase.notice s.shard shard key ⟨v, since + ttl⟩) }
    | _ => none

inductive Stepped (ttl : Int) (s : State α) : Label α → State α → Prop
  | get (id key now : _) (hlock : s.lock = none) :
      Stepped ttl s (.get id key now)
        { s with
          shard := (s.shard.get key now).1
          callers := s.callers.set id
            (if (s.shard.get key now).2.isSome then .done else .waiting key none) }
  | hit (id now key shared shard v : _) (hid : s.callers.get? id = some (.waiting key shared))
      (hhit : s.shard.recheck key now = some (shard, v)) :
      Stepped ttl s (.recheck id now)
        { s with
          shard := shard
          callers := s.callers.set id .done
          rechecks := s.rechecks ++ [⟨shared, some v⟩] }
  | miss (id now key shared : _) (hid : s.callers.get? id = some (.waiting key shared))
      (hmiss : s.shard.recheck key now = none) :
      Stepped ttl s (.recheck id now)
        { s with
          lock := some id
          callers := s.callers.set id (.loading key now)
          rechecks := s.rechecks ++ [⟨shared, none⟩] }
  | failed (id : _) :
      Stepped ttl s (.finish id none)
        { s with lock := none, callers := s.callers.set id .done }
  | loaded (id v key since : _) :
      Stepped ttl s (.finish id (some v))
        { s with
          shard := s.shard.store key v (since + ttl)
          lock := none
          callers := (s.callers.set id .done).mapValues
            (Phase.notice s.shard (s.shard.store key v (since + ttl)) key ⟨v, since + ttl⟩) }

theorem stepped_of_step {ttl : Int} {s s' : State α} {a : Label α}
    (h : step ttl s a = some s') : Stepped ttl s a s' := by
  revert h
  fun_cases step ttl s a <;> rintro ⟨⟩
  · rename_i id key now hen shard hit hget phase
    have hstepped := @Stepped.get _ ttl s id key now hen.2
    rw [hget] at hstepped
    exact hstepped
  · exact .hit _ _ _ _ _ _ ‹_› ‹_›
  · exact .miss _ _ _ _ ‹_› ‹_›
  · exact .failed _
  · exact .loaded _ _ _ _

/-! ## What a waiting caller finds -/

def Kept (s : State α) : Prop :=
  ∀ id key e, s.callers.get? id = some (.waiting key (some e)) →
    ∀ x, s.shard.items.get? key = some x → x = e

section
variable {ttl : Int} {s s' : State α} {a : Label α}

theorem start_kept (capacity : Int) : Kept (start capacity : State α) := nofun

variable {rechecks : List (Recheck α)} {id : Nat} {lock : Option Nat} {key : String}

theorem Kept.set (h : Kept s) {phase : Phase α} {shard : Shard α}
    (hphase : ∀ key e, phase ≠ .waiting key (some e))
    (hshard : ∀ k x, shard.items.get? k = some x → s.shard.items.get? k = some x) :
    Kept ⟨shard, lock, s.callers.set id phase, rechecks⟩ := by
  intro j key e hj x hx
  rcases Table.set_cases hj with ⟨-, heq⟩ | ⟨-, hj⟩
  · exact absurd heq.symm (hphase key e)
  · exact h j key e hj x (hshard key x hx)

theorem notice_eq_waiting {before after : Shard α} {k : String} {stored e : Entry α}
    {p : Phase α} (h : p.notice before after key stored = .waiting k (some e)) :
    (k = key ∧ e = stored) ∨ (k ≠ key ∧ p = .waiting k (some e)) := by
  cases p with
  | waiting k' shared =>
    simp only [Phase.notice] at h
    split at h
    · cases h
    split at h <;> cases h
    · rename_i hk
      exact .inl ⟨hk, rfl⟩
    rename_i hk
    exact .inr ⟨hk, rfl⟩
  | loading k' since | done => cases h

theorem step_kept (hs : Kept s) (h : step ttl s a = some s') : Kept s' := by
  cases stepped_of_step h with
  | get id key now hlock =>
    refine hs.set (fun k e => ?_) fun k x hx => Shard.items_get hx
    split <;> nofun
  | hit id now key shared shard v hid hhit =>
    exact hs.set nofun fun k x hx => (Shard.recheck_hit hhit).1 ▸ hx
  | miss id now key shared hid hmiss | failed id => exact hs.set nofun fun k x hx => hx
  | loaded id v key since =>
    intro j k e hj x hx
    rw [Table.get?_mapValues, Option.map_eq_some_iff] at hj
    obtain ⟨p, hp, hnotice⟩ := hj
    rcases notice_eq_waiting hnotice with ⟨rfl, rfl⟩ | ⟨hk, rfl⟩
    · exact Shard.items_store_self hx
    rcases Table.set_cases hp with ⟨-, heq⟩ | ⟨-, hj⟩
    · cases heq
    rcases Shard.items_store hx with ⟨heq, -⟩ | hx
    · exact absurd heq hk
    · exact hs j k e hj x hx

def LoadsShared (s : State α) : Prop :=
  ∀ x ∈ s.rechecks, ∀ e, x.shared = some e → x.returned = some e.value

/-- The second look comes before the entry of the last load expires, and no `Get` of the key
has found it expired. -/
def OnTime (s : State α) : Label α → Prop
  | .recheck id now =>
    match s.callers.get? id with
    | some (.waiting key (some e)) => s.shard.items.get? key = some e ∧ now < e.expiresAt
    | _ => True
  | _ => True

theorem onTime_recheck {now : Int} {shared : Option (Entry α)}
    (hid : s.callers.get? id = some (.waiting key shared)) :
    OnTime s (.recheck id now) ↔
      ∀ e, shared = some e → s.shard.items.get? key = some e ∧ now < e.expiresAt := by
  simp only [OnTime, hid]
  cases shared with
  | none | some e => simp

theorem loadsShared_concat {x : Recheck α} {shard : Shard α}
    {callers : Table Nat (Phase α)} (hs : s.rechecks = rechecks) :
    LoadsShared ⟨shard, lock, callers, rechecks ++ [x]⟩ ↔
      LoadsShared s ∧ ∀ e, x.shared = some e → x.returned = some e.value := by
  simp only [LoadsShared, hs, List.mem_append, List.mem_singleton, or_imp, forall_and, forall_eq]

theorem step_loadsShared_iff (hs : Kept s) (h : step ttl s a = some s') :
    LoadsShared s' ↔ LoadsShared s ∧ OnTime s a := by
  cases stepped_of_step h with
  | get id key now hlock | failed id | loaded id v key since => exact (and_iff_left trivial).symm
  | hit id now key shared shard v hid hhit =>
    rw [loadsShared_concat rfl, onTime_recheck hid]
    refine and_congr_right fun _ => forall_congr' fun e => imp_congr_right fun hshared => ?_
    obtain ⟨-, x, hx, rfl, hlive⟩ := Shard.recheck_hit hhit
    have hxe : x = e := hs id key e (hshared ▸ hid) x hx
    subst hxe
    exact iff_of_true rfl ⟨hx, hlive⟩
  | miss id now key shared hid hmiss =>
    rw [loadsShared_concat rfl, onTime_recheck hid]
    refine and_congr_right fun _ => forall_congr' fun e => imp_congr_right fun hshared => ?_
    refine iff_of_false nofun fun ⟨hitem, hlive⟩ => ?_
    rw [Shard.recheck, hitem] at hmiss
    simp only [if_pos hlive] at hmiss
    cases hmiss

end

instance [DecidableEq α] (s : State α) : ∀ a, Decidable (OnTime s a) := fun _ => by
  unfold OnTime
  split
  · split <;> infer_instance
  · infer_instance

/-- In every run of concurrent calls, for any clock and any duration of the loads: all that
waited shared the load they waited for exactly when they all looked again before its entry
had expired. -/
theorem loads_shared_iff {α : Type} (capacity ttl : Int) (labels : List (Label α)) (s : State α)
    (hrun : run (step ttl) (start capacity) labels = some s) :
    LoadsShared s ↔ RunMeets (step ttl) OnTime (start capacity) labels := by
  rw [run_iff_meets (fun _ _ _ => step_kept) (fun _ _ _ => step_loadsShared_iff)
    (start_kept capacity) hrun]
  exact and_iff_right nofun

theorem loads_shared_quick :
    ∃ s, run (step 10) (start 1) [.get 1 "k" 0, .get 2 "k" 0, .recheck 1 0, .finish 1 (some 7),
        .recheck 2 9] = some s ∧
      s.rechecks = [⟨none, none⟩, ⟨some ⟨7, 10⟩, some 7⟩] ∧ LoadsShared s := by
  refine exists_some_imp (A := fun s => s.rechecks = [⟨none, none⟩, ⟨some ⟨7, 10⟩, some 7⟩])
    (by decide +kernel) fun s hrun hlog => ?_
  exact ⟨hlog, (loads_shared_iff 1 10 _ s hrun).mpr (by decide +kernel)⟩

/-- The load takes as long as the time to live: the caller that waited for it loads again,
although nothing was evicted. -/
theorem slow_load_repeated :
    ∃ s ∈ run (step 10) (start 1) [.get 1 "k" 0, .get 2 "k" 0, .recheck 1 0,
        .finish 1 (some 7), .recheck 2 10],
      s.rechecks = [⟨none, none⟩, ⟨some ⟨7, 10⟩, none⟩] ∧
        s.shard.items.get? "k" = some ⟨7, 10⟩ := by
  decide +kernel

end GoServices.Gateway.SharedLoads
