/-
The like counter of the counter service: Redis keys that expire beside the rows of Postgres.

`Like` increments the Redis key and then the row, and answers the Redis value.
-/
import GoServices.Base.Run
import GoServices.Base.Separator
import GoServices.Base.Table
import Mathlib

namespace GoServices.InstaScale

open List Table Option

def warmTTL : Nat := 60000

structure Entry where
  value : Int
  deadline : Option Nat

/-- A row of `counters`. -/
structure Counter where
  likeCount : Int
  followerCount : Int

def key (userID : Int) (kind : String) : String :=
  "counts:" ++ userID.repr ++ ":" ++ kind

inductive Phase
  | incr
  | upsert (n : Int)
  | likeReturned (n : Int)
  | mget
  | select
  | setLikes (likes followers : Int)
  | setFollowers (likes followers : Int)
  | countsReturned (likes followers : Int)
  deriving DecidableEq

structure Call where
  userID : Int
  phase : Phase
  deriving DecidableEq

structure State where
  now : Nat
  redis : Table String Entry
  counters : Table Int Counter
  calls : Table Nat Call

def initial (now : Nat) (counters : Table Int Counter) : State :=
  { now := now, redis := .empty, counters := counters, calls := .empty }

/-! ## The commands -/

variable (s : State)

def State.live (k : String) : Option Entry :=
  (s.redis.get? k).filter fun e => e.deadline.all fun t => s.now < t

/-- `INCR`: a key that is there keeps its deadline, a new one has none. -/
def State.incr (k : String) : State × Int :=
  match s.live k with
  | some e =>
    ({ s with redis := s.redis.set k { e with value := e.value + 1 } }, e.value + 1)
  | none => ({ s with redis := s.redis.set k { value := 1, deadline := none } }, 1)

/-- `SET … EX 60`. -/
def State.setEx (k : String) (value : Int) : State :=
  { s with redis := s.redis.set k { value := value, deadline := some (s.now + warmTTL) } }

/-- `INSERT INTO counters … ON CONFLICT (user_id) DO UPDATE`. -/
def State.upsert (userID : Int) : State :=
  match s.counters.get? userID with
  | some row =>
    { s with counters := s.counters.set userID { row with likeCount := row.likeCount + 1 } }
  | none =>
    { s with counters := s.counters.set userID { likeCount := 1, followerCount := 0 } }

def State.goto (c : Nat) (userID : Int) (phase : Phase) : State :=
  { s with calls := s.calls.set c { userID := userID, phase := phase } }

/-! ## The calls -/

def State.next (c : Nat) (u : Int) : Phase → Option State
  | .incr =>
    let (s, n) := s.incr (key u "likes")
    some (s.goto c u (.upsert n))
  | .upsert n => some ((s.upsert u).goto c u (.likeReturned n))
  | .mget =>
    match s.live (key u "likes"), s.live (key u "followers") with
    | some likes, some followers => some (s.goto c u (.countsReturned likes.value followers.value))
    | _, _ => some (s.goto c u .select)
  | .select =>
    match s.counters.get? u with
    | none => some (s.goto c u (.countsReturned 0 0))
    | some row => some (s.goto c u (.setLikes row.likeCount row.followerCount))
  | .setLikes likes followers =>
    some ((s.setEx (key u "likes") likes).goto c u (.setFollowers likes followers))
  | .setFollowers likes followers =>
    some ((s.setEx (key u "followers") followers).goto c u (.countsReturned likes followers))
  | .likeReturned _ | .countsReturned _ _ => none

inductive Op
  | like
  | counts
  deriving DecidableEq

def Op.first : Op → Phase
  | .like => .incr
  | .counts => .mget

inductive Label
  | call (c : Nat) (op : Op) (userID : Int)
  | command (c : Nat)
  | advance (d : Nat)
  deriving DecidableEq

def step : Label → Option State
  | .call c op u => if (s.calls.get? c).isNone then some (s.goto c u op.first) else none
  | .command c =>
    match s.calls.get? c with
    | none => none
    | some call => s.next c call.userID call.phase
  | .advance d => some { s with now := s.now + d }

/-! ## What is stored -/

def State.stored (u : Int) : Int := (s.counters.get? u).elim 0 Counter.likeCount

/-- A `Like` of the user that has incremented the key and not yet the row. -/
def Call.pending (u : Int) (call : Call) : Int :=
  match call.phase with
  | .upsert _ => if call.userID = u then 1 else 0
  | _ => 0

def State.pending (s : State) (u : Int) : Int := s.calls.total fun _ call => call.pending u

def warmPhase (u : Int) : Phase → Prop
  | .incr => (s.live (key u "likes")).isSome ∨ s.stored u + s.pending u = 0
  | .setLikes likes _ => likes = s.stored u + s.pending u
  | _ => True

instance (s : State) (u : Int) : ∀ phase, Decidable (warmPhase s u phase) := fun _ => by
  unfold warmPhase
  split <;> infer_instance

def Warm : Label → Prop
  | .command c =>
    match s.calls.get? c with
    | some call => warmPhase s call.userID call.phase
    | none => True
  | _ => True

instance (s : State) : ∀ l, Decidable (Warm s l) := fun _ => by
  unfold Warm
  split
  · split <;> infer_instance
  · infer_instance

def Phase.returned : Phase → Bool
  | .likeReturned _ | .countsReturned _ _ => true
  | _ => false

def State.Quiet : Prop :=
  ∀ c call, s.calls.get? c = some call → call.phase.returned = true

instance (s : State) : Decidable s.Quiet :=
  Table.decidableForall s.calls fun _ call => call.phase.returned = true

/-! ## What the commands change -/

section
variable {s s' : State} {c : Nat} {u : Int}

theorem key_likes_inj {v : Int} : key v "likes" = key u "likes" ↔ v = u := by
  constructor
  · intro h
    obtain ⟨hid, -⟩ := text_separator_inj ':' (by decide) (by decide) h
    exact Int.repr_inj.mp (String.append_right_inj _ |>.mp hid)
  · rintro rfl
    rfl

theorem key_likes_ne_followers (v : Int) : key v "likes" ≠ key u "followers" := by
  intro h
  obtain ⟨-, hkind⟩ := text_separator_inj ':' (by decide) (by decide) h
  exact absurd hkind (by decide)

def State.put (s : State) (k : String) (e : Entry) : State :=
  { s with redis := s.redis.set k e }

variable {k : String}

theorem live_put_ne {k' : String} (e : Entry) (h : k' ≠ k) :
    (s.put k e).live k' = s.live k' := by
  rw [State.live, State.put, get?_set, if_neg h]
  rfl

variable {e : Entry}

theorem live_put_self {e' : Entry} (h : (s.put k e).live k = some e') : e' = e := by
  rw [State.live, State.put, get?_set_self, filter_eq_some_iff] at h
  exact (some.inj h.1).symm

theorem stored_upsert (s : State) (u v : Int) :
    (s.upsert u).stored v = s.stored v + if v = u then 1 else 0 := by
  by_cases hv : v = u
  · subst hv
    rw [if_pos rfl, State.upsert, State.stored, State.stored]
    cases h : s.counters.get? v with
    | none | some row => simp
  · rw [if_neg hv, State.upsert, State.stored, State.stored]
    cases h : s.counters.get? u with
    | none | some row => simp [get?_set, hv]

theorem upsert_live (s : State) (u : Int) (k : String) : (s.upsert u).live k = s.live k := by
  rw [State.upsert]
  split
  · rfl
  · rfl

theorem upsert_calls (s : State) (u : Int) : (s.upsert u).calls = s.calls := by
  rw [State.upsert]
  split
  · rfl
  · rfl

theorem pending_goto_new (hc : s.calls.get? c = none) (phase : Phase) (v : Int) :
    (s.goto c u phase).pending v =
      ({ userID := u, phase := phase } : Call).pending v + s.pending v :=
  total_set_of_none (fun _ call => Call.pending v call) hc _

variable {call : Call}

theorem pending_goto (hc : s.calls.get? c = some call) (phase : Phase) (v : Int) :
    (s.goto c u phase).pending v + call.pending v =
      ({ userID := u, phase := phase } : Call).pending v + s.pending v :=
  total_set_of_some (fun _ call => Call.pending v call) hc _

/-! ## The key agrees with the row -/

def Agrees (s : State) : Prop :=
  ∀ u e, s.live (key u "likes") = some e → e.value = s.stored u + s.pending u

theorem agrees_initial (now : Nat) (counters : Table Int Counter) :
    Agrees (initial now counters) := by
  intro u e h
  cases h

theorem Agrees.of_sum (hs : Agrees s)
    (hlive : ∀ v e, s'.live (key v "likes") = some e → s.live (key v "likes") = some e)
    (hsum : ∀ v, s'.stored v + s'.pending v = s.stored v + s.pending v) : Agrees s' := by
  intro v e h
  rw [hsum v]
  exact hs v e (hlive v e h)

variable {phase : Phase}

theorem Agrees.start (hs : Agrees s) (hc : s.calls.get? c = none)
    (hp : ∀ v, ({ userID := u, phase := phase } : Call).pending v = 0) :
    Agrees (s.goto c u phase) := by
  refine hs.of_sum (fun _ _ h => h) fun v => ?_
  rw [pending_goto_new hc, hp v, zero_add]
  rfl

theorem Agrees.goto (hs : Agrees s) (hc : s.calls.get? c = some call)
    (hp : ∀ v, ({ userID := u, phase := phase } : Call).pending v = call.pending v) :
    Agrees (s.goto c u phase) := by
  refine hs.of_sum (fun _ _ h => h) fun v => ?_
  have hpending := pending_goto (u := u) hc phase v
  rw [hp v, add_comm (call.pending v)] at hpending
  rw [add_right_cancel hpending]
  rfl

theorem Agrees.put_likes (hs : Agrees s) (hc : s.calls.get? c = some call)
    (hother : ∀ v, v ≠ u → ({ userID := u, phase := phase } : Call).pending v = call.pending v)
    (hvalue : e.value = s.stored u + (({ userID := u, phase := phase } : Call).pending u +
      s.pending u - call.pending u)) :
    Agrees ((s.put (key u "likes") e).goto c u phase) := by
  intro v e' h
  change (s.put (key u "likes") e).live (key v "likes") = some e' at h
  show e'.value = s.stored v + _
  have hpending := pending_goto (s := s.put (key u "likes") e) (u := u) hc phase v
  change _ = _ + s.pending v at hpending
  by_cases hv : v = u
  · subst hv
    rw [live_put_self h, hvalue]
    omega
  rw [live_put_ne e (fun heq => hv (key_likes_inj.mp heq))] at h
  rw [hs v e' h]
  rw [hother v hv] at hpending
  omega

theorem Agrees.incr (hs : Agrees s) {u : Int} (hwarm : warmPhase s u .incr) :
    ∃ e, s.incr (key u "likes") = (s.put (key u "likes") e, e.value) ∧
      e.value = s.stored u + s.pending u + 1 := by
  rw [State.incr]
  cases hlive : s.live (key u "likes") with
  | some old => exact ⟨_, rfl, congrArg (· + 1) (hs u old hlive)⟩
  | none =>
    have hzero := hwarm.resolve_left (by simp [hlive])
    exact ⟨{ value := 1, deadline := none }, rfl, by simp [hzero]⟩

theorem agrees_next (hs : Agrees s) (hc : s.calls.get? c = some call)
    (hwarm : warmPhase s call.userID call.phase) (h : s.next c call.userID call.phase = some s') :
    Agrees s' := by
  obtain ⟨u, phase⟩ := call
  cases phase with
  | incr =>
    obtain ⟨e, heq, hvalue⟩ := hs.incr (u := u) hwarm
    simp only [State.next, heq, some.injEq] at h
    subst h
    refine hs.put_likes hc (fun v hv => ?_) ?_
    · simp [Call.pending, hv.symm]
    simp only [Call.pending, if_true]
    omega
  | upsert n =>
    cases h
    refine hs.of_sum (fun v e h => ?_) fun v => ?_
    · exact (upsert_live s u _).symm.trans h
    have hcall : (s.upsert u).calls.get? c = some ⟨u, .upsert n⟩ := by
      rw [upsert_calls]
      exact hc
    have hpending := pending_goto (u := u) hcall (.likeReturned n) v
    have hsame : (s.upsert u).pending v = s.pending v := by
      rw [State.pending, upsert_calls]
      rfl
    have hstored := stored_upsert s u v
    show (s.upsert u).stored v + ((s.upsert u).goto c u (.likeReturned n)).pending v = _
    by_cases hv : u = v
    · subst hv
      simp only [Call.pending, if_true] at hpending hstored
      omega
    · simp only [Call.pending, if_neg hv, if_neg (Ne.symm hv)] at hpending hstored
      omega
  | likeReturned n => cases h
  | mget | select =>
    simp only [State.next] at h
    split at h <;> cases h
    all_goals exact hs.goto hc fun _ => rfl
  | setLikes likes followers =>
    cases h
    refine hs.put_likes hc (fun _ _ => rfl) ?_
    have hlikes : likes = s.stored u + s.pending u := hwarm
    show likes = s.stored u + (0 + s.pending u - 0)
    omega
  | setFollowers likes followers =>
    cases h
    have hput : Agrees (s.put (key u "followers")
        { value := followers, deadline := some (s.now + warmTTL) }) := by
      refine hs.of_sum (fun v e h => ?_) fun v => rfl
      rwa [live_put_ne _ (key_likes_ne_followers v)] at h
    exact hput.goto (c := c) hc fun _ => rfl
  | countsReturned likes followers => cases h

theorem live_advance (d : Nat) (h : ({ s with now := s.now + d } : State).live k = some e) :
    s.live k = some e := by
  rw [State.live, filter_eq_some_iff] at h ⊢
  refine ⟨h.1, ?_⟩
  cases hd : e.deadline with
  | none => rfl
  | some t =>
    have hlt := h.2
    simp only [hd, all_some, decide_eq_true_eq] at hlt ⊢
    omega

theorem step_call {op : Op} (h : step s (.call c op u) = some s') :
    s.calls.get? c = none ∧ s.goto c u op.first = s' := by
  simp only [step, isNone_iff_eq_none, ite_none_right_eq_some, some.injEq] at h
  exact h

theorem agrees_step {l : Label} (hs : Agrees s) (hwarm : Warm s l) (h : step s l = some s') :
    Agrees s' := by
  cases l with
  | call c op u =>
    obtain ⟨hc, rfl⟩ := step_call h
    refine hs.start hc fun v => ?_
    cases op with
    | like | counts => rfl
  | command c =>
    simp only [step] at h
    split at h
    · cases h
    rename_i call hc
    rw [Warm, hc] at hwarm
    exact agrees_next hs hc hwarm h
  | advance d =>
    cases h
    exact hs.of_sum (fun v e h => live_advance d h) fun v => rfl

/-! ## A call by itself -/

def Phase.answer : Phase → Option Int
  | .likeReturned n => some n
  | .countsReturned likes _ => some likes
  | _ => none

def Phase.remaining : Phase → Nat
  | .mget => 4
  | .select => 3
  | .incr | .setLikes _ _ => 2
  | .upsert _ | .setFollowers _ _ => 1
  | .likeReturned _ | .countsReturned _ _ => 0

def Phase.ofCounts : Phase → Bool
  | .incr | .upsert _ | .likeReturned _ => false
  | _ => true

def Phase.fits (s : State) (u : Int) : Phase → Prop
  | .upsert n => n = s.stored u + 1
  | .likeReturned n => n = s.stored u
  | .setLikes likes _ | .setFollowers likes _ | .countsReturned likes _ => likes = s.stored u
  | .incr | .mget | .select => True

/-- Only the call `c` is in progress. -/
structure Alone (s : State) (c : Nat) (u : Int) (phase : Phase) : Prop where
  call : s.calls.get? c = some { userID := u, phase := phase }
  others : ∀ c' call, c' ≠ c → s.calls.get? c' = some call → call.phase.returned = true
  agrees : Agrees s
  fits : phase.fits s u

variable {phase : Phase}

theorem pending_of_returned {call : Call} (h : call.phase.returned = true) (v : Int) :
    call.pending v = 0 := by
  obtain ⟨w, phase⟩ := call
  cases phase with
  | likeReturned n | countsReturned likes followers => rfl
  | _ => cases h

theorem Alone.pending (h : Alone s c u phase) (v : Int) :
    s.pending v = ({ userID := u, phase := phase } : Call).pending v := by
  have hrest : (s.calls.erase c).total (fun _ call => Call.pending v call) = 0 := by
    refine total_eq_zero fun c' call hc' => ?_
    rw [get?_erase] at hc'
    split at hc'
    · cases hc'
    · rename_i hne
      exact pending_of_returned (h.others c' call hne hc') v
  rw [State.pending, ← total_erase_of_some _ h.call, hrest, zero_add]

theorem Alone.goto (h : Alone s c u phase) {phase' : Phase} (hcalls : s'.calls = s.calls)
    (hagrees : Agrees (s'.goto c u phase')) (hfits : phase'.fits s' u) :
    Alone (s'.goto c u phase') c u phase' where
  call := Table.get?_set_self _ _ _
  others := by
    intro c' call hne hc'
    rw [State.goto, hcalls, get?_set, if_neg hne] at hc'
    exact h.others c' call hne hc'
  agrees := hagrees
  fits := by
    cases phase' with
    | _ => exact hfits

theorem alone_next (h : Alone s c u phase) (hwarm : phase = .incr → warmPhase s u phase)
    (hnext : s.next c u phase = some s') :
    ∃ phase', Alone s' c u phase' ∧ phase'.remaining < phase.remaining ∧
      (phase.ofCounts = true → phase'.ofCounts = true ∧ s'.counters = s.counters) := by
  have hzero := h.pending u
  have hwarm' : warmPhase s u phase := by
    cases phase with
    | incr => exact hwarm rfl
    | setLikes likes followers =>
      have hlikes : likes = s.stored u := h.fits
      rw [warmPhase, hzero, hlikes]
      exact (add_zero _).symm
    | _ => trivial
  have hagrees := agrees_next h.agrees h.call hwarm' hnext
  cases phase with
  | incr =>
    obtain ⟨e, heq, hvalue⟩ := h.agrees.incr (hwarm rfl)
    simp only [State.next, heq, some.injEq] at hnext
    subst hnext
    refine ⟨_, h.goto rfl hagrees ?_, by simp [Phase.remaining], by simp [Phase.ofCounts]⟩
    show e.value = s.stored u + 1
    have hzero : s.pending u = 0 := hzero
    omega
  | upsert n =>
    cases hnext
    refine ⟨_, h.goto (upsert_calls s u) hagrees ?_, by simp [Phase.remaining],
      by simp [Phase.ofCounts]⟩
    have hn : n = s.stored u + 1 := h.fits
    show n = (s.upsert u).stored u
    rw [stored_upsert, if_pos rfl, hn]
  | likeReturned n => cases hnext
  | mget =>
    have hzero : s.pending u = 0 := hzero
    simp only [State.next] at hnext
    split at hnext <;> cases hnext
    · rename_i likes followers hlikes hfollowers
      refine ⟨_, h.goto rfl hagrees ?_, by simp [Phase.remaining], fun _ => ⟨rfl, rfl⟩⟩
      show likes.value = s.stored u
      rw [h.agrees u likes hlikes, hzero, add_zero]
    · exact ⟨_, h.goto rfl hagrees trivial, by decide, fun _ => ⟨rfl, rfl⟩⟩
  | select =>
    simp only [State.next] at hnext
    split at hnext <;> cases hnext
    · rename_i hrow
      refine ⟨_, h.goto rfl hagrees ?_, by decide, fun _ => ⟨rfl, rfl⟩⟩
      show 0 = s.stored u
      rw [State.stored, hrow]
      rfl
    rename_i row hrow
    refine ⟨_, h.goto rfl hagrees ?_, by simp [Phase.remaining], fun _ => ⟨rfl, rfl⟩⟩
    show row.likeCount = s.stored u
    rw [State.stored, hrow]
    rfl
  | setLikes likes followers | setFollowers likes followers =>
    cases hnext
    exact ⟨_, h.goto rfl hagrees h.fits, by simp [Phase.remaining], fun _ => ⟨rfl, rfl⟩⟩
  | countsReturned likes followers => cases hnext

def Label.alone (c : Nat) : Label → Bool
  | .command c' => c' = c
  | .advance _ => true
  | .call _ _ _ => false

theorem alone_step {l : Label} (h : Alone s c u phase) (hl : l.alone c = true)
    (hwarm : phase.ofCounts = false → Warm s l) (hstep : step s l = some s') :
    ∃ phase', Alone s' c u phase' ∧ [l].count (.command c) + phase'.remaining ≤ phase.remaining ∧
      (phase.ofCounts = true → phase'.ofCounts = true ∧ s'.counters = s.counters) := by
  cases l with
  | call c' op u' => cases hl
  | command c' =>
    cases of_decide_eq_true hl
    have hnext : s.next c u phase = some s' := by
      rw [step, h.call] at hstep
      exact hstep
    have hincr : phase = .incr → warmPhase s u phase := by
      rintro rfl
      have hw := hwarm rfl
      rw [Warm, h.call] at hw
      exact hw
    obtain ⟨phase', halone, hlt, hcounts⟩ := alone_next h hincr hnext
    refine ⟨phase', halone, ?_, hcounts⟩
    rw [count_singleton_self]
    omega
  | advance d =>
    cases hstep
    refine ⟨phase, ⟨h.call, h.others, ?_, ?_⟩, ?_, fun hc => ⟨hc, rfl⟩⟩
    · exact agrees_step (l := .advance d) h.agrees trivial rfl
    · cases phase with
      | _ => exact h.fits
    · simp

theorem alone_run {ls : List Label} (h : Alone s c u phase) (hls : ∀ l ∈ ls, l.alone c = true)
    (hwarm : phase.ofCounts = false → RunMeets step Warm s ls) (hrun : run step s ls = some s') :
    ∃ phase', Alone s' c u phase' ∧ ls.count (.command c) + phase'.remaining ≤ phase.remaining ∧
      (phase.ofCounts = true → phase'.ofCounts = true ∧ s'.counters = s.counters) := by
  induction ls generalizing s phase with
  | nil =>
    cases hrun
    exact ⟨phase, h, by simp, fun hc => ⟨hc, rfl⟩⟩
  | cons l ls ih =>
    obtain ⟨t, ht, hrun⟩ := of_run_cons hrun
    obtain ⟨phase₁, halone, hcount, hcounts⟩ :=
      alone_step h (hls l mem_cons_self) (fun hc => (hwarm hc).1) ht
    have hrest : phase₁.ofCounts = false → RunMeets step Warm t ls := by
      intro hfalse
      cases hc : phase.ofCounts with
      | false => exact (hwarm hc).2 t ht
      | true => exact absurd ((hcounts hc).1.symm.trans hfalse) (by decide)
    obtain ⟨phase₂, halone₂, hcount₂, hcounts₂⟩ :=
      ih halone (fun l hl => hls l (mem_cons_of_mem _ hl)) hrest hrun
    refine ⟨phase₂, halone₂, ?_, fun hc => ?_⟩
    · rw [← singleton_append, count_append]
      omega
    obtain ⟨hc₁, heq₁⟩ := hcounts hc
    obtain ⟨hc₂, heq₂⟩ := hcounts₂ hc₁
    exact ⟨hc₂, heq₂.trans heq₁⟩

theorem alone_first (hs : Agrees s) (hquiet : s.Quiet) (hc : s.calls.get? c = none) (op : Op) :
    Alone (s.goto c u op.first) c u op.first where
  call := Table.get?_set_self _ _ _
  others := by
    intro c' call hne hc'
    rw [State.goto, get?_set, if_neg hne] at hc'
    exact hquiet c' call hc'
  agrees := by
    refine hs.start hc fun v => ?_
    cases op with
    | like | counts => rfl
  fits := by
    cases op with
    | like | counts => trivial

theorem next_isSome (s : State) (c : Nat) (u : Int) (hphase : phase.answer = none) :
    (s.next c u phase).isSome = true := by
  cases phase with
  | likeReturned n | countsReturned likes followers => cases hphase
  | mget | select =>
    rw [State.next]
    split
    · rfl
    · rfl
  | _ => rfl

theorem stored_of_fits {n : Int} (h : phase.fits s u) (hn : phase.answer = some n) :
    n = s.stored u := by
  cases phase with
  | likeReturned m | countsReturned likes followers =>
    cases hn
    exact h
  | _ => cases hn

end

/-- Every run in which each likes key that is made starts from what Postgres has and will
have. -/
theorem quiet_calls_agree {now : Nat} {counters : Table Int Counter} {ls : List Label} {s : State}
    (hrun : run step (initial now counters) ls = some s)
    (hwarm : RunMeets step Warm (initial now counters) ls) (hquiet : s.Quiet)
    {c : Nat} {op : Op} {u : Int} {alone : List Label} {t : State}
    (halone : ∀ l ∈ alone, l.alone c = true) (hrun' : run step s (.call c op u :: alone) = some t)
    (hlike : op = .like → RunMeets step Warm s (.call c op u :: alone)) :
    ∃ phase, t.calls.get? c = some { userID := u, phase := phase } ∧ alone.count (.command c) ≤ 4 ∧
      (phase.answer = none → (step t (.command c)).isSome = true) ∧
      (∀ n, phase.answer = some n → n = t.stored u) ∧
      (op = .counts → t.counters = s.counters) := by
  have hagrees : Agrees s :=
    run_invariant_of_meets (fun s l s' => agrees_step) (agrees_initial now counters) hwarm hrun
  rw [run_cons, bind_eq_some_iff] at hrun'
  obtain ⟨s₁, hstart, hrun'⟩ := hrun'
  obtain ⟨hc, rfl⟩ := step_call hstart
  have hfirst := alone_first (u := u) hagrees hquiet hc op
  have hwarm' : op.first.ofCounts = false → RunMeets step Warm (s.goto c u op.first) alone := by
    cases op with
    | like => exact fun _ => (hlike rfl).2 _ hstart
    | counts => exact nofun
  obtain ⟨phase, hend, hcount, hcounts⟩ := alone_run hfirst halone hwarm' hrun'
  refine ⟨phase, hend.call, ?_, fun hnone => ?_, fun n hn => stored_of_fits hend.fits hn, ?_⟩
  · have hfour : op.first.remaining ≤ 4 := by cases op <;> decide
    omega
  · rw [step, hend.call]
    exact next_isSome t c u hnone
  · rintro rfl
    exact (hcounts rfl).2

theorem quiet_calls_agree_warmed :
    ∃ s t, run step (initial 0 (Table.empty.set 7 ⟨5, 3⟩))
        [.call 1 .counts 7, .command 1, .command 1, .command 1, .command 1] = some s ∧
      run step s [.call 2 .like 7, .command 2, .advance 100, .command 2] = some t ∧
      t.calls.get? 2 = some ⟨7, .likeReturned 6⟩ ∧ 6 = t.stored 7 := by
  let second : List Label := [.call 2 .like 7, .command 2, .advance 100, .command 2]
  obtain ⟨s, hs, hquiet, hwarm, t, ht, hc⟩ :
      ∃ s ∈ run step (initial 0 (Table.empty.set 7 ⟨5, 3⟩))
          [.call 1 .counts 7, .command 1, .command 1, .command 1, .command 1], s.Quiet ∧
        RunMeets step Warm s second ∧
        ∃ t ∈ run step s second, t.calls.get? 2 = some ⟨7, .likeReturned 6⟩ := by
    decide +kernel
  obtain ⟨phase, hphase, -, -, hanswer, -⟩ :=
    quiet_calls_agree hs (by decide +kernel) hquiet (by decide) ht fun _ => hwarm
  rw [hc] at hphase
  cases hphase
  exact ⟨s, t, hs, ht, hc, hanswer 6 rfl⟩

/-- The likes key expires before the followers key, which was set later. -/
theorem expired_key_answers_one :
    (run step (initial 0 (Table.empty.set 7 ⟨5, 3⟩))
      [.call 1 .counts 7, .command 1, .command 1, .command 1, .advance 5, .command 1,
        .advance 59997, .call 2 .like 7, .command 2, .command 2, .call 3 .counts 7,
        .command 3]).map (fun s => ((s.calls.get? 2).map Call.phase,
          (s.calls.get? 3).map Call.phase, s.stored 7)) =
      some (some (.likeReturned 1), some (.countsReturned 1 3), 6) := by
  decide +kernel

end GoServices.InstaScale
