/-
Which backends a `fetch` tries.

`fetch` asks the pool again after a failure, but it does not tell the pool what it has tried.
-/
import GoServices.Gateway.Breaker
import GoServices.Gateway.Pool

namespace GoServices.Gateway.Retries

open Fetch List Function

structure Env where
  clock : Nat → Int
  answers : Nat → Nat × Values × String
  breakers : String → Breaker

structure Net where
  pool : Pool
  breakers : String → Breaker
  picks : Nat
  clockReads : Nat

variable (p : Pool)

/-- The services of a gateway with no other traffic.  Ids are those of the pool `p`. -/
def services (key : String) (rand : Nat → Nat) (env : Env) : Services Net Nat where
  id b := (p.memory b).id
  pick s :=
    let (pool, picked) := s.pool.pick key (rand s.picks)
    ({ s with pool := pool, picks := s.picks + 1 }, picked)
  release s b := { s with pool := s.pool.release b }
  allow s b :=
    let (breaker, ok) := (s.breakers (p.memory b).id).allow (env.clock s.clockReads)
    ({ s with
        breakers := update s.breakers (p.memory b).id breaker
        clockReads := s.clockReads + 1 }, ok)
  success s b :=
    let id := (p.memory b).id
    { s with breakers := update s.breakers id (s.breakers id).success }
  failure s b :=
    let id := (p.memory b).id
    { s with
      breakers := update s.breakers id
        ((s.breakers id).failure (env.clock s.clockReads))
      clockReads := s.clockReads + 1 }
  serve s b := (s, .answered (env.answers b).1 (env.answers b).2.1 (env.answers b).2.2)

def start (env : Env) : Net := ⟨p, env.breakers, 0, 0⟩

def tried (calls : List (Fetch.Event Nat)) : List Nat :=
  calls.filterMap fun
    | .picked b => some b
    | _ => none

def NoRepeat (calls : List (Fetch.Event Nat)) : Prop :=
  ∀ before b after, tried calls = before ++ b :: after → b ∈ before → ∀ c ∈ p.healthy, c ∈ before

def Blocked (br : Breaker) : Prop :=
  br.state = .opened ∨
    br.state = .halfOpen ∧ int32 br.cfg.maxHalfOpenRequests < int32 (br.halfOpenIssued + 1)
  deriving Decidable

def Fails (env : Env) (b : Nat) : Prop :=
  500 ≤ (env.answers b).1 ∨ Blocked (env.breakers (p.memory b).id)
  deriving Decidable

def Answered (env : Env) (result : Outcome FetchError Recorder) : Prop :=
  ∃ rec, result = .returned (.ok rec) ∧ rec.status < 500 ∧
    ∃ b ∈ p.healthy, (rec.status, rec.header, rec.content) = env.answers b

def RetriesWork (key : String) (rand : Nat → Nat) (env : Env) : Prop :=
  let fetched := Fetch.fetch (services p key rand env) (start p env)
  NoRepeat p fetched.2.1 ∧
    ((p.healthy.filter (Fails p env)).card ≤ 2 → (∃ b ∈ p.healthy, ¬ Fails p env b) →
      Answered p env fetched.2.2)

def PicksDiffer (key : String) (rand : Nat → Nat) : Prop :=
  ∀ i < min maxProxyAttempts p.healthy.card, ∃ b, p.pickAt key rand i = .backend b ∧
    ∀ k < i, ∀ c, p.pickAt key rand k = .backend c → (p.memory c).id ≠ (p.memory b).id

/-! ## The loop, pick by pick -/

section
variable {p : Pool} {key : String} {rand : Nat → Nat} {env : Env}

/-- The state before pick number `i`. -/
def At (p : Pool) (i : Nat) (s : Net) : Prop := s.pool = p.advance i ∧ s.picks = i

theorem start_at (p : Pool) (env : Env) : At p 0 (start p env) := ⟨rfl, rfl⟩

variable {i : Nat} {s : Net} {b : Nat}

theorem pick_snd (hs : At p i s) :
    ((services p key rand env).pick s).2 = p.pickAt key rand i := by
  obtain ⟨hpool, hpicks⟩ := hs
  show (s.pool.pick key (rand s.picks)).2 = _
  rw [Pool.pick_snd, hpool, hpicks]
  rfl

section
variable (hs : At p i s) (hpick : ((services p key rand env).pick s).2 = .backend b)
include hs hpick

theorem release_pick : ((services p key rand env).pick s).1.pool.release b = p.advance (i + 1) := by
  have h : (s.pool.pick key (rand s.picks)).1.release b = s.pool.next := Pool.release_pick hpick
  rw [hs.1] at h
  show (s.pool.pick key (rand s.picks)).1.release b = _
  rw [hs.1, h]
  rfl

theorem at_refused :
    At p (i + 1) ((services p key rand env).release
      ((services p key rand env).allow ((services p key rand env).pick s).1 b).1 b) :=
  ⟨release_pick hs hpick, congrArg (· + 1) hs.2⟩

theorem at_failed :
    At p (i + 1) ((services p key rand env).failure ((services p key rand env).release
      ((services p key rand env).serve ((services p key rand env).allow
        ((services p key rand env).pick s).1 b).1 b).1 b) b) :=
  ⟨release_pick hs hpick, congrArg (· + 1) hs.2⟩

end

theorem breakers_refused (s : Net) (b : Nat) :
    ((services p key rand env).release
      ((services p key rand env).allow ((services p key rand env).pick s).1 b).1 b).breakers =
      update s.breakers (p.memory b).id
        ((s.breakers (p.memory b).id).allow (env.clock s.clockReads)).1 := rfl

theorem breakers_failed (s : Net) (b : Nat) :
    ((services p key rand env).failure ((services p key rand env).release
      ((services p key rand env).serve ((services p key rand env).allow
        ((services p key rand env).pick s).1 b).1 b).1 b) b).breakers =
      update s.breakers (p.memory b).id
        (((s.breakers (p.memory b).id).allow (env.clock s.clockReads)).1.failure
          (env.clock (s.clockReads + 1))) := by
  simp only [services, update_self, update_idem]

variable {n : Nat} {lastErr : FetchError} {calls : List (Fetch.Event Nat)}
  {result : Outcome FetchError Recorder}

theorem looped_tried (h : Looped (services p key rand env) n lastErr s calls result)
    (hs : At p i s) :
    (tried calls).length ≤ n ∧
      ∀ j c, (tried calls)[j]? = some c → p.pickAt key rand (i + j) = .backend c := by
  -- the first pick, and those of the attempts after it
  have hcons : ∀ {i n b : Nat} {l : List Nat}, p.pickAt key rand i = .backend b →
      (l.length ≤ n ∧ ∀ j c, l[j]? = some c → p.pickAt key rand (i + 1 + j) = .backend c) →
      (b :: l).length ≤ n + 1 ∧
        ∀ j c, (b :: l)[j]? = some c → p.pickAt key rand (i + j) = .backend c := by
    intro i n b l hb hl
    refine ⟨Nat.succ_le_succ hl.1, fun j c hj => ?_⟩
    cases j with
    | zero =>
      cases hj
      exact hb
    | succ j =>
      have hnext := hl.2 j c hj
      rwa [Nat.add_assoc, Nat.add_comm 1 j] at hnext
  have hnone : ∀ {i n : Nat}, ([] : List Nat).length ≤ n ∧
      ∀ j c, ([] : List Nat)[j]? = some c → p.pickAt key rand (i + j) = .backend c :=
    ⟨Nat.zero_le _, nofun⟩
  induction h generalizing i with
  | exhausted | pickPanicked | pickFailed => exact hnone
  | refused n lastErr s b calls result hpick hallow hnext ih =>
    exact hcons ((pick_snd hs).symm.trans hpick) (ih (at_refused hs hpick))
  | servePanicked n lastErr s b hpick hallow hserve =>
    exact hcons ((pick_snd hs).symm.trans hpick) hnone
  | succeeded n lastErr s b status header body hpick | kept lastErr s b status header body hpick =>
    exact hcons ((pick_snd hs).symm.trans hpick) hnone
  | retried n lastErr s b status header body calls result hpick hallow hserve hstatus hleft
      hnext ih =>
    exact hcons ((pick_snd hs).symm.trans hpick) (ih (at_failed hs hpick))

theorem allow_of_not_blocked {br : Breaker} (h : ¬ Blocked br) (now : Int) :
    (br.allow now).2 = true := by
  unfold Breaker.allow
  cases hstate : br.state with
  | closed => rfl
  | opened => exact absurd (.inl hstate) h
  | halfOpen => exact decide_eq_true (not_lt.mp fun hlt => h (.inr ⟨hstate, hlt⟩))

/-- Among the next `n` picks is one that does not fail, and those before it have other ids. -/
def Ahead (p : Pool) (key : String) (rand : Nat → Nat) (env : Env) (i n : Nat) (s : Net) : Prop :=
  ∃ j < n, ∃ g, p.pickAt key rand (i + j) = .backend g ∧ (env.answers g).1 < 500 ∧
    ¬ Blocked (s.breakers (p.memory g).id) ∧
    ∀ k < j, ∃ c, p.pickAt key rand (i + k) = .backend c ∧ (p.memory c).id ≠ (p.memory g).id

theorem Ahead.step (h : Ahead p key rand env i (n + 1) s) :
    ∃ b, p.pickAt key rand i = .backend b ∧
      ((env.answers b).1 < 500 ∧ ¬ Blocked (s.breakers (p.memory b).id) ∨
        ∀ s' : Net, (∀ x ≠ (p.memory b).id, s'.breakers x = s.breakers x) →
          Ahead p key rand env (i + 1) n s') := by
  obtain ⟨j, hj, g, hpick, hstatus, hopen, hbefore⟩ := h
  cases j with
  | zero => exact ⟨g, hpick, .inl ⟨hstatus, hopen⟩⟩
  | succ j =>
    obtain ⟨b, hb, hne⟩ := hbefore 0 (Nat.succ_pos j)
    refine ⟨b, hb, .inr fun s' hs' => ⟨j, Nat.lt_of_succ_lt_succ hj, g, ?_, hstatus, ?_, ?_⟩⟩
    · rw [Nat.add_assoc, Nat.add_comm 1 j]
      exact hpick
    · rw [hs' _ hne.symm]
      exact hopen
    intro k hk
    rw [Nat.add_assoc, Nat.add_comm 1 k]
    exact hbefore (k + 1) (Nat.succ_lt_succ hk)

theorem looped_answered (hp : p.Built)
    (h : Looped (services p key rand env) n lastErr s calls result) (hs : At p i s)
    (hahead : Ahead p key rand env i n s) : Answered p env result := by
  induction h generalizing i with
  | exhausted =>
    obtain ⟨j, hj, -⟩ := hahead
    exact absurd hj (Nat.not_lt_zero j)
  | pickPanicked n lastErr s hpanic =>
    obtain ⟨b, hb, -⟩ := hahead.step
    cases hpanic.symm.trans ((pick_snd hs).trans hb)
  | pickFailed n lastErr s error hfailed =>
    obtain ⟨b, hb, -⟩ := hahead.step
    cases hfailed.symm.trans ((pick_snd hs).trans hb)
  | refused n lastErr s c calls result hc hallow hnext ih =>
    obtain ⟨b, hb, hgood | hrest⟩ := hahead.step
    all_goals cases hc.symm.trans ((pick_snd hs).trans hb)
    · cases hallow.symm.trans (allow_of_not_blocked hgood.2 (env.clock s.clockReads))
    · refine ih (at_refused hs hc) (hrest _ fun x hx => ?_)
      rw [breakers_refused, update_of_ne hx]
  | servePanicked n lastErr s b hb hallow hserve => cases hserve
  | succeeded n lastErr s b status header body hb hallow hserve hlt =>
    cases hserve
    exact ⟨_, rfl, hlt, b, p.pickAt_mem hp ((pick_snd hs).symm.trans hb), rfl⟩
  | kept lastErr s c status header body hc hallow hserve hge =>
    obtain ⟨b, hb, hgood | hrest⟩ := hahead.step
    all_goals cases hc.symm.trans ((pick_snd hs).trans hb)
    · cases hserve
      exact absurd hgood.1 (Nat.not_lt.mpr hge)
    · obtain ⟨j, hj, -⟩ := hrest s fun _ _ => rfl
      exact absurd hj (Nat.not_lt_zero j)
  | retried n lastErr s c status header body calls result hc hallow hserve hge hleft
      hnext ih =>
    obtain ⟨b, hb, hgood | hrest⟩ := hahead.step
    all_goals cases hc.symm.trans ((pick_snd hs).trans hb)
    · cases hserve
      exact absurd hgood.1 (Nat.not_lt.mpr hge)
    · refine ih (at_failed hs hc) (hrest _ fun x hx => ?_)
      rw [breakers_failed, update_of_ne hx]

variable {m : Nat} {status : Nat → Nat}

theorem looped_tries (h : Looped (services p key rand env) n lastErr s calls result)
    (hs : At p i s) (hfail : ∀ b, 500 ≤ (env.answers b).1) (hm : m ≤ i + n)
    (hpicks : ∀ j < m, ∃ b, p.pickAt key rand j = .backend b) :
    m ≤ i + (tried calls).length := by
  induction h generalizing i with
  | exhausted => exact hm
  | pickPanicked n lastErr s hpanic =>
    refine Nat.le_add_right_of_le (not_lt.mp fun hi => ?_)
    obtain ⟨b, hb⟩ := hpicks i hi
    cases hpanic.symm.trans ((pick_snd hs).trans hb)
  | pickFailed n lastErr s error hfailed =>
    refine Nat.le_add_right_of_le (not_lt.mp fun hi => ?_)
    obtain ⟨b, hb⟩ := hpicks i hi
    cases hfailed.symm.trans ((pick_snd hs).trans hb)
  | refused n lastErr s b calls result hb hallow hnext ih =>
    have hrest := ih (at_refused hs hb) (by omega)
    show m ≤ i + (tried calls).length.succ
    omega
  | servePanicked n lastErr s b hb hallow hserve => cases hserve
  | succeeded n lastErr s b status header body hb hallow hserve hlt =>
    cases hserve
    exact absurd hlt (Nat.not_lt.mpr (hfail b))
  | kept => exact hm
  | retried n lastErr s b status header body calls result hb hallow hserve hge hleft
      hnext ih =>
    have hrest := ih (at_failed hs hb) (by omega)
    show m ≤ i + (tried calls).length.succ
    omega

/-! ## Backends that fail -/

def fresh : Breaker := .newWithClock ⟨1, 1, 1, 1⟩

def tripped : Breaker := fresh.failure 0

def failing (status : Nat → Nat) : Env := ⟨fun _ => 0, fun b => (status b, [], ""), fun _ => fresh⟩

def Seen (p : Pool) (key : String) (rand : Nat → Nat) (i : Nat) (x : String) : Prop :=
  ∃ k < i, ∃ c, p.pickAt key rand k = .backend c ∧ (p.memory c).id = x

def Tripping (p : Pool) (key : String) (rand : Nat → Nat) (i : Nat) (s : Net) : Prop :=
  ∀ x, s.breakers x = tripped ∨ s.breakers x = fresh ∧ ¬ Seen p key rand i x

theorem Tripping.step {s' : Net} (h : Tripping p key rand i s)
    (hb : p.pickAt key rand i = .backend b) (hself : s'.breakers (p.memory b).id = tripped)
    (hother : ∀ x ≠ (p.memory b).id, s'.breakers x = s.breakers x) :
    Tripping p key rand (i + 1) s' := by
  intro x
  by_cases hx : x = (p.memory b).id
  · exact .inl (hx ▸ hself)
  rw [hother x hx]
  refine (h x).imp_right fun ⟨hfresh, hseen⟩ => ⟨hfresh, ?_⟩
  rintro ⟨k, hk, c, hc, rfl⟩
  rcases Nat.lt_succ_iff_lt_or_eq.mp hk with hlt | rfl
  · exact hseen ⟨k, hlt, c, hc, rfl⟩
  · cases hb.symm.trans hc
    exact hx rfl

theorem looped_unanswered {N : Nat}
    (hfails : ∀ j < N, (∀ k < j, ∃ c, p.pickAt key rand k = .backend c) →
      ∀ b, p.pickAt key rand j = .backend b → 500 ≤ status b ∨ Seen p key rand j (p.memory b).id)
    (h : Looped (services p key rand (failing status)) n lastErr s calls result)
    (hs : At p i s) (hN : i + n = N) (hpast : ∀ k < i, ∃ c, p.pickAt key rand k = .backend c)
    (htrip : Tripping p key rand i s) : ¬ Answered p (failing status) result := by
  induction h generalizing i with
  | exhausted | pickPanicked | pickFailed => exact fun ⟨_, hr, _⟩ => nomatch hr
  | refused n lastErr s b calls result hb hallow hnext ih =>
    have hpick := (pick_snd hs).symm.trans hb
    rcases htrip (p.memory b).id with htripped | ⟨hfresh, -⟩
    · refine ih (at_refused hs hb) (by omega)
        (Nat.forall_lt_succ_right.mpr ⟨hpast, b, hpick⟩) (htrip.step hpick ?_ ?_)
      · rw [breakers_refused, update_self, htripped]
        rfl
      · intro x hx
        rw [breakers_refused, update_of_ne hx]
    · cases hallow.symm.trans (congrArg (fun x => (x.allow 0).2) hfresh)
  | servePanicked n lastErr s b hb hallow hserve => cases hserve
  | succeeded n lastErr s b status' header body hb hallow hserve hlt =>
    have hpick := (pick_snd hs).symm.trans hb
    cases hserve
    rcases htrip (p.memory b).id with htripped | ⟨-, hseen⟩
    · cases hallow.symm.trans (congrArg (fun x => (x.allow 0).2) htripped)
    rcases hfails i (by omega) hpast b hpick with hge | hseen'
    · exact absurd hlt (Nat.not_lt.mpr hge)
    · exact absurd hseen' hseen
  | kept lastErr s b status' header body hb hallow hserve hge =>
    rintro ⟨r, hr, hlt, -⟩
    cases hr
    exact absurd hlt (Nat.not_lt.mpr hge)
  | retried n lastErr s b status' header body calls result hb hallow hserve hge hleft
      hnext ih =>
    have hpick := (pick_snd hs).symm.trans hb
    rcases htrip (p.memory b).id with htripped | ⟨hfresh, -⟩
    · cases hallow.symm.trans (congrArg (fun x => (x.allow 0).2) htripped)
    refine ih (at_failed hs hb) (by omega)
      (Nat.forall_lt_succ_right.mpr ⟨hpast, b, hpick⟩) (htrip.step hpick ?_ ?_)
    · rw [breakers_failed, update_self, hfresh]
      rfl
    · intro x hx
      rw [breakers_failed, update_of_ne hx]

/-! ## The first picks -/

theorem PicksDiffer.exists_pick (hp : p.Built) (hd : PicksDiffer p key rand) (q : Nat → Prop)
    [DecidablePred q] (hfew : (p.healthy.filter q).card < min maxProxyAttempts p.healthy.card) :
    ∃ i < min maxProxyAttempts p.healthy.card, ∃ b,
      p.pickAt key rand i = .backend b ∧ ¬ q b := by
  by_contra hall
  choose! g hpick hne using hd
  -- the picks are as many healthy backends with the property
  have hinj : Set.InjOn g (Finset.range (min maxProxyAttempts p.healthy.card)) := by
    intro i hi k hk hg
    have hi' := Finset.mem_range.mp hi
    have hk' := Finset.mem_range.mp hk
    rcases Nat.lt_trichotomy i k with hlt | heq | hlt
    · exact absurd (congrArg (fun x => (p.memory x).id) hg) (hne k hk' i hlt _ (hpick i hi'))
    · exact heq
    · exact absurd (congrArg (fun x => (p.memory x).id) hg.symm)
        (hne i hi' k hlt _ (hpick k hk'))
  have hsub : (Finset.range (min maxProxyAttempts p.healthy.card)).image g ⊆
      p.healthy.filter q := by
    intro b hb
    obtain ⟨i, hi, rfl⟩ := Finset.mem_image.mp hb
    have hi' := Finset.mem_range.mp hi
    refine Finset.mem_filter.mpr ⟨p.pickAt_mem hp (hpick i hi'), ?_⟩
    by_contra hq
    exact hall ⟨i, hi', g i, hpick i hi', hq⟩
  have hcard := Finset.card_le_card hsub
  rw [Finset.card_image_of_injOn hinj, Finset.card_range] at hcard
  exact absurd hfew (Nat.not_lt.mpr hcard)

section
variable (hp : p.Built) (hd : PicksDiffer p key rand)
    (h : Looped (services p key rand env) maxProxyAttempts lastErr (start p env) calls result)
include hp hd h

theorem PicksDiffer.noRepeat : NoRepeat p calls := by
  intro before b after htried hmem c hc
  obtain ⟨hlen, hpick⟩ := looped_tried h (start_at p env)
  rw [htried] at hlen hpick
  have hb : p.pickAt key rand before.length = .backend b := by
    have hget := hpick before.length b (by simp)
    rwa [Nat.zero_add] at hget
  have hbefore : ∀ k (hk : k < before.length), p.pickAt key rand k = .backend before[k] := by
    intro k hk
    have hget := hpick k before[k] (by simp [getElem?_append_left hk])
    rwa [Nat.zero_add] at hget
  have hm : min maxProxyAttempts p.healthy.card ≤ before.length := by
    by_contra hlt
    obtain ⟨k, hk, hkb⟩ := getElem_of_mem hmem
    obtain ⟨b', hb', hne⟩ := hd before.length (not_le.mp hlt)
    cases hb.symm.trans hb'
    exact hne k hk _ (hbefore k hk) (by rw [hkb])
  have hshort : before.length < maxProxyAttempts := by
    rw [length_append, length_cons] at hlen
    omega
  have hall : p.healthy.card ≤ maxProxyAttempts := by omega
  -- one of the first picks is `c`
  have hfew : (p.healthy.filter (· ≠ c)).card < min maxProxyAttempts p.healthy.card := by
    rw [min_eq_right hall]
    refine Finset.card_lt_card (Finset.filter_ssubset.mpr ⟨c, hc, not_not.mpr rfl⟩)
  obtain ⟨i, hi, x, hx, hxc⟩ := hd.exists_pick hp (· ≠ c) hfew
  have hi' : i < before.length := by omega
  cases (hbefore i hi').symm.trans hx
  rw [← not_not.mp hxc]
  exact getElem_mem hi'

theorem PicksDiffer.answered (hfew : (p.healthy.filter (Fails p env)).card ≤ 2)
    (hgood : ∃ b ∈ p.healthy, ¬ Fails p env b) : Answered p env result := by
  obtain ⟨c, hc, hcgood⟩ := hgood
  have hlt : (p.healthy.filter (Fails p env)).card < p.healthy.card :=
    Finset.card_lt_card (Finset.filter_ssubset.mpr ⟨c, hc, hcgood⟩)
  have hmin : (p.healthy.filter (Fails p env)).card < min maxProxyAttempts p.healthy.card :=
    lt_min (Nat.lt_succ_of_le hfew) hlt
  obtain ⟨i, hi, g, hg, hgood⟩ := hd.exists_pick hp (Fails p env) hmin
  obtain ⟨hstatus, hopen⟩ := not_or.mp hgood
  refine looped_answered hp h (start_at p env) ⟨i, by omega, g, ?_, not_le.mp hstatus, hopen, ?_⟩
  · rw [Nat.zero_add]
    exact hg
  intro k hk
  obtain ⟨b, hb, hne⟩ := hd i hi
  cases hg.symm.trans hb
  obtain ⟨c, hc, -⟩ := hd k (hk.trans hi)
  refine ⟨c, ?_, hne k hk c hc⟩
  rw [Nat.zero_add]
  exact hc

end

/-- The first `i` picks that are backends. -/
def firstPicks (p : Pool) (key : String) (rand : Nat → Nat) (i : Nat) : Finset Nat :=
  ((List.range i).filterMap fun k =>
    match p.pickAt key rand k with
    | .backend b => some b
    | _ => none).toFinset

theorem card_firstPicks_le (p : Pool) (key : String) (rand : Nat → Nat) (i : Nat) :
    (firstPicks p key rand i).card ≤ i := by
  refine (toFinset_card_le _).trans ?_
  refine (length_filterMap_le _ _).trans ?_
  rw [length_range]

theorem mem_firstPicks (h : p.pickAt key rand i = .backend b) (hi : i < m) :
    b ∈ firstPicks p key rand m := by
  refine mem_toFinset.mpr (mem_filterMap.mpr ⟨i, mem_range.mpr hi, ?_⟩)
  rw [h]

theorem fails_failing : Fails p (failing status) b ↔ 500 ≤ status b := by
  refine or_iff_left ?_
  show ¬ Blocked fresh
  decide

theorem start_tripping (status : Nat → Nat) :
    Tripping p key rand 0 (start p (failing status)) := by
  refine fun x => .inr ⟨rfl, ?_⟩
  rintro ⟨k, hk, -⟩
  exact Nat.not_lt_zero k hk

theorem RetriesWork.exists_looped (h : RetriesWork p key rand env) :
    ∃ calls result,
      Looped (services p key rand env) maxProxyAttempts .none (start p env) calls result ∧
      NoRepeat p calls ∧
      ((p.healthy.filter (Fails p env)).card ≤ 2 → (∃ b ∈ p.healthy, ¬ Fails p env b) →
        Answered p env result) :=
  ⟨_, _, fetchLoop_looped _ _ _ _, h.1, h.2⟩

theorem exists_pick_of_work (h : ∀ env, RetriesWork p key rand env) {bad : Finset Nat}
    (hcard : bad.card ≤ 2) (hgood : ∃ b ∈ p.healthy, b ∉ bad) :
    ∃ j < maxProxyAttempts, (∀ k < j, ∃ c, p.pickAt key rand k = .backend c) ∧
      ∃ b, p.pickAt key rand j = .backend b ∧ b ∉ bad ∧ ¬ Seen p key rand j (p.memory b).id := by
  by_contra hnone
  let status : Nat → Nat := fun b => if b ∈ bad then 500 else 200
  have hstatus : ∀ b, 500 ≤ status b ↔ b ∈ bad := by
    intro b
    by_cases hb : b ∈ bad <;> simp [status, hb]
  obtain ⟨calls, result, hlooped, -, hwork⟩ := (h (failing status)).exists_looped
  have hfew : (p.healthy.filter (Fails p (failing status))).card ≤ 2 := by
    refine (Finset.card_le_card fun b hb => ?_).trans hcard
    exact (hstatus b).mp (fails_failing.mp (Finset.mem_filter.mp hb).2)
  have hother : ∃ b ∈ p.healthy, ¬ Fails p (failing status) b := by
    obtain ⟨b, hb, hbad⟩ := hgood
    exact ⟨b, hb, fun hfails => hbad ((hstatus b).mp (fails_failing.mp hfails))⟩
  refine looped_unanswered ?_ hlooped (start_at p _) (Nat.zero_add _)
    (fun k hk => absurd hk (Nat.not_lt_zero k)) (start_tripping status) (hwork hfew hother)
  intro j hj hpast b hb
  by_contra hor
  obtain ⟨hlt, hseen⟩ := not_or.mp hor
  exact hnone ⟨j, hj, hpast, b, hb, fun hbad => hlt ((hstatus b).mpr hbad), hseen⟩

section
variable (h : ∀ env, RetriesWork p key rand env) (hi : i < min maxProxyAttempts p.healthy.card)
include h hi

theorem pick_found_of_work : ∃ b, p.pickAt key rand i = .backend b := by
  have hle := card_firstPicks_le p key rand i
  have htwo : i ≤ 2 := Nat.le_of_lt_succ (lt_min_iff.mp hi).1
  have hother := Finset.exists_mem_notMem_of_card_lt_card
    (hle.trans_lt (lt_min_iff.mp hi).2)
  obtain ⟨j, hj, hpast, b, hb, hbad, -⟩ := exists_pick_of_work h (hle.trans htwo) hother
  -- the fetch comes to a pick that is not one of the first
  rcases Nat.lt_trichotomy i j with hlt | rfl | hlt
  · exact hpast i hlt
  · exact ⟨b, hb⟩
  · exact absurd (mem_firstPicks hb hlt) hbad

theorem pick_new_of_work (hb : p.pickAt key rand i = .backend b) {k : Nat} (hk : k < i) :
    p.pickAt key rand k ≠ .backend b := by
  intro hkb
  obtain ⟨calls, result, hlooped, hnew, -⟩ := (h (failing fun _ => 500)).exists_looped
  have hpicks : ∀ j < i + 1, ∃ c, p.pickAt key rand j = .backend c :=
    fun j hj => pick_found_of_work h ((Nat.lt_succ_iff.mp hj).trans_lt hi)
  have hlen := looped_tries hlooped (start_at p _) (fun _ => le_rfl)
    ((Nat.succ_le_of_lt (lt_min_iff.mp hi).1).trans (Nat.le_add_left _ 0)) hpicks
  rw [Nat.zero_add] at hlen
  have hget : ∀ j (hj : j < (tried calls).length) c, p.pickAt key rand j = .backend c →
      (tried calls)[j] = c := by
    intro j hj c hc
    have hj' := (looped_tried hlooped (start_at p _)).2 j _ (getElem?_eq_getElem hj)
    rw [Nat.zero_add, hc] at hj'
    cases hj'
    rfl
  have htried : tried calls = (tried calls).take i ++ b :: (tried calls).drop (i + 1) := by
    rw [← hget i hlen b hb, ← drop_eq_getElem_cons, take_append_drop]
  have hmem : b ∈ (tried calls).take i :=
    mem_take_iff_getElem.mpr ⟨k, by omega, hget k (by omega) b hkb⟩
  -- the tried ones would be all the healthy backends
  have hsub : p.healthy ⊆ ((tried calls).take i).toFinset :=
    fun c hc => mem_toFinset.mpr (hnew _ b _ htried hmem c hc)
  have hcard := (Finset.card_le_card hsub).trans (toFinset_card_le _)
  have hshort := length_take_le i (tried calls)
  exact absurd (lt_min_iff.mp hi).2 (Nat.not_lt.mpr (hcard.trans hshort))

end

theorem pick_id_ne_of_work (hp : p.Built) (h : ∀ env, RetriesWork p key rand env)
    (hi : i < min maxProxyAttempts p.healthy.card) (hb : p.pickAt key rand i = .backend b)
    {k c : Nat} (hk : k < i) (hc : p.pickAt key rand k = .backend c) :
    (p.memory c).id ≠ (p.memory b).id := by
  intro hid
  have hthree := (lt_min_iff.mp hi).1
  -- the other first picks fail, so the fetch has to be answered by `b`
  have hcard : ((firstPicks p key rand maxProxyAttempts).erase b).card ≤ 2 := by
    rw [Finset.card_erase_of_mem (mem_firstPicks hb hthree)]
    exact Nat.sub_le_sub_right (card_firstPicks_le p key rand maxProxyAttempts) 1
  obtain ⟨j, hj, -, x, hx, hbad, hseen⟩ := exists_pick_of_work h hcard
    ⟨b, p.pickAt_mem hp hb, Finset.notMem_erase b _⟩
  have hxb : x = b := by
    by_contra hne
    exact hbad (Finset.mem_erase.mpr ⟨hne, mem_firstPicks hx hj⟩)
  subst hxb
  -- but the breaker was opened by the failure of `c`
  rcases Nat.lt_trichotomy i j with hlt | rfl | hlt
  · exact hseen ⟨i, hlt, x, hb, rfl⟩
  · exact hseen ⟨k, hk, c, hc, hid⟩
  · exact pick_new_of_work h hi hb hlt hx

theorem retriesWork_iff (hp : p.Built) :
    (∀ env, RetriesWork p key rand env) ↔ PicksDiffer p key rand := by
  constructor
  · intro h i hi
    obtain ⟨b, hb⟩ := pick_found_of_work h hi
    exact ⟨b, hb, fun k hk c hc => pick_id_ne_of_work hp h hi hb hk hc⟩
  intro hd env
  have hlooped := fetchLoop_looped (services p key rand env) maxProxyAttempts .none (start p env)
  exact ⟨hd.noRepeat hp hlooped, hd.answered hp hlooped⟩

end

end GoServices.Gateway.Retries
