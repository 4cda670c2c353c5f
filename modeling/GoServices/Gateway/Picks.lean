/-
What picks return, and what the connection counts say.

Calls of `Pick` and `Release` come in any order, and the health of the backends changes between
them.
-/
import GoServices.Gateway.Ring

namespace GoServices.Gateway.Picks

open List Retries

structure Calls where
  pool : Pool
  picked : List Nat
  released : List Nat

inductive Label
  | pick (key : String) (draw : Nat)
  | release (b : Nat)
  | setHealthy (b : Nat) (v : Bool)

def Label.isPick : Label → Bool
  | .pick _ _ => true
  | .release _ | .setHealthy _ _ => false

def Calls.note (s : Calls) : Fetch.Picked Nat → List Nat
  | .backend b => b :: s.picked
  | _ => s.picked

def step (s : Calls) : Label → Option Calls
  | .pick key draw =>
    some ⟨(s.pool.pick key draw).1, s.note (s.pool.pick key draw).2, s.released⟩
  | .release b => some ⟨s.pool.release b, s.picked, b :: s.released⟩
  | .setHealthy b v => some { s with pool := s.pool.setHealthy b v }

structure Sound (p : Pool) : Prop where
  built : p.Built
  weights : ∀ b ∈ p.backends, 1 ≤ (p.memory b).weight
  fits : (p.backends.map fun b => (p.memory b).weight).sum < 2 ^ 63

/-- A pool that `NewPool` has made of new backends. -/
structure Fresh (p : Pool) : Prop where
  sound : Sound p
  counter : p.rrCounter = 0
  conns : ∀ b, (p.memory b).activeConns = 0

section
variable {p q : Pool} {s : Calls} {key : String} {draw : Nat}

/-! ## One pick -/

theorem totalWeight_le (h : Sound p) :
    0 ≤ totalWeight p ∧ totalWeight p < 2 ^ 63 := by
  have hnonneg : ∀ w ∈ p.backends.map fun b => (p.memory b).weight, 0 ≤ w := by
    intro w hw
    obtain ⟨b, hb, rfl⟩ := mem_map.mp hw
    exact Int.le_trans (by decide) (h.weights b hb)
  have hsub : ((p.backends.filter p.isHealthy).map fun b => (p.memory b).weight).Sublist
      (p.backends.map fun b => (p.memory b).weight) := filter_sublist.map _
  refine ⟨sum_nonneg fun w hw => hnonneg w (hsub.subset hw), ?_⟩
  exact (hsub.sum_le_sum hnonneg).trans_lt h.fits

theorem totalWeight_pos (h : Sound p) (hne : p.healthy.Nonempty) : 0 < totalWeight p := by
  obtain ⟨b, hb⟩ := hne
  obtain ⟨hmem, hhealthy⟩ := Pool.mem_healthy.mp hb
  refine sum_pos _ (fun w hw => ?_) ?_
  · obtain ⟨c, hc, rfl⟩ := mem_map.mp hw
    exact h.weights c (mem_filter.mp hc).1
  · exact ne_nil_of_mem (mem_map_of_mem (mem_filter.mpr ⟨hmem, hhealthy⟩))

theorem choose_roundRobin (h : Sound p) (hs : p.strategy = .roundRobin)
    (hcounter : p.rrCounter + 1 < 2 ^ 63) : p.choose key draw =
      Pool.found ((p.backends.rotate (p.rrCounter + 1)).find? p.isHealthy) :=
  show p.pickAt key (fun _ => draw) 0 = _ from
    pickAt_roundRobin h.built hs hcounter

section
variable (h : Sound p) (hcounter : p.rrCounter + 1 < 2 ^ 63)
include h hcounter

theorem choose_eq_found : ∃ o, p.choose key draw = Pool.found o := by
  cases hs : p.strategy with
  | roundRobin => exact ⟨_, choose_roundRobin h hs hcounter⟩
  | leastConnections | consistentHash => exact ⟨_, by rw [Pool.choose, hs]; rfl⟩
  | weightedRandom =>
    obtain ⟨hnonneg, hlt⟩ := totalWeight_le h
    have htotal : int64 (totalWeight p) = totalWeight p :=
      int64_eq ((by decide : -2 ^ 63 ≤ (0 : Int)).trans hnonneg) hlt
    rw [totalWeight] at htotal hnonneg
    rw [Pool.choose, hs]
    simp only [Pool.pickWeightedRandom, htotal]
    split
    · exact ⟨_, rfl⟩
    · rw [if_neg hnonneg.not_gt]
      exact ⟨_, rfl⟩

theorem choose_of_healthy (hne : p.healthy.Nonempty) : ∃ b, p.choose key draw = .backend b := by
  cases hs : p.strategy with
  | roundRobin =>
    obtain ⟨b, hb⟩ := hne
    obtain ⟨hmem, hhealthy⟩ := Pool.mem_healthy.mp hb
    rw [choose_roundRobin h hs hcounter]
    refine found_of_isSome (find?_isSome.mpr ⟨b, mem_rotate.mpr hmem, hhealthy⟩)
  | leastConnections => exact choose_leastConnections hs draw hne
  | consistentHash => exact choose_consistentHash h.built hs draw hne
  | weightedRandom =>
    exact choose_weightedRandom hs draw (totalWeight_pos h hne) (totalWeight_le h).2

theorem choose_failed_iff :
    p.choose key draw = .failed Pool.errNoHealthyBackends ↔ p.healthy = ∅ := by
  constructor
  · intro hfailed
    by_contra hne
    obtain ⟨b, hb⟩ := choose_of_healthy h hcounter (Finset.nonempty_iff_ne_empty.mpr hne)
    rw [hfailed] at hb
    cases hb
  intro hempty
  obtain ⟨o, ho⟩ : ∃ o, p.choose key draw = Pool.found o := choose_eq_found h hcounter
  cases o with
  | none => exact ho
  | some b =>
    have hmem := Pool.choose_mem h.built ho
    rw [hempty] at hmem
    cases hmem

end

/-! ## Least connections -/

variable {best : Option Nat} {p₀ : Pool} {past : List Label}

theorem lessLoaded_le {c d : Nat} (h : p.lessLoaded best c = some d) :
    (∀ e, best = some e → (p.memory d).activeConns ≤ (p.memory e).activeConns) ∧
      (p.isHealthy c = true → (p.memory d).activeConns ≤ (p.memory c).activeConns) := by
  unfold Pool.lessLoaded at h
  split at h
  · rename_i hc
    exact ⟨fun e he => (by cases he.symm.trans h; exact le_rfl), fun hc' => absurd hc' hc⟩
  cases best with
  | none =>
    cases h
    exact ⟨nofun, fun _ => le_rfl⟩
  | some e =>
    dsimp only at h
    split at h <;> cases h
    · rename_i hlt
      exact ⟨fun e' he => (by cases he; exact hlt.le), fun _ => le_rfl⟩
    rename_i hge
    exact ⟨fun e' he => (by cases he; exact le_rfl), fun _ => not_lt.mp hge⟩

theorem foldl_lessLoaded_le {l : List Nat} {b : Nat} (h : l.foldl p.lessLoaded best = some b) :
    (∀ e, best = some e → (p.memory b).activeConns ≤ (p.memory e).activeConns) ∧
      ∀ c ∈ l, p.isHealthy c = true → (p.memory b).activeConns ≤ (p.memory c).activeConns := by
  induction l generalizing best with
  | nil => exact ⟨fun e he => (by cases he.symm.trans h; exact le_rfl), nofun⟩
  | cons c l ih =>
    obtain ⟨hbest, hrest⟩ := ih h
    refine ⟨fun e he => ?_, fun d hd hhealthy => ?_⟩
    · have hsome : (p.lessLoaded best c).isSome = true :=
        lessLoaded_isSome (.inl (by rw [he]; rfl))
      obtain ⟨d, hd⟩ := Option.isSome_iff_exists.mp hsome
      exact (hbest d hd).trans ((lessLoaded_le hd).1 e he)
    obtain rfl | hd := mem_cons.mp hd
    · have hsome : (p.lessLoaded best d).isSome = true :=
        lessLoaded_isSome (.inr hhealthy)
      obtain ⟨e, he⟩ := Option.isSome_iff_exists.mp hsome
      exact (hbest e he).trans ((lessLoaded_le he).2 hhealthy)
    · exact hrest d hd hhealthy

/-! ## Runs -/

structure Kept (p₀ : Pool) (s : Calls) (past : List Label) : Prop where
  strategy : s.pool.strategy = p₀.strategy
  backends : s.pool.backends = p₀.backends
  hashKey : s.pool.hashKey = p₀.hashKey
  ring : s.pool.ring = p₀.ring
  memory : ∀ b, (s.pool.memory b).id = (p₀.memory b).id ∧
    (s.pool.memory b).weight = (p₀.memory b).weight
  counter : s.pool.rrCounter ≤ past.countP Label.isPick
  conns : ∀ b, (s.pool.memory b).activeConns = s.picked.count b - s.released.count b
  calls : s.picked.length + s.released.length ≤ past.length

theorem memory_addConns (p : Pool) (b : Nat) (d : Int) (c : Nat) :
    (p.addConns b d).memory c =
      { p.memory c with activeConns := (p.memory c).activeConns + if c = b then d else 0 } := by
  simp only [Pool.addConns, Function.update_apply]
  split
  · rename_i hcb
    rw [hcb]
  · rw [Int.add_zero]

theorem intCount_cons (l : List Nat) (b c : Nat) :
    ((b :: l).count c : Int) = l.count c + if c = b then 1 else 0 := by
  by_cases hcb : c = b
  · simp [hcb]
  · simp [hcb, Ne.symm hcb]

theorem next_counter (p : Pool) : p.next.rrCounter ≤ p.rrCounter + 1 := by
  rw [Pool.next]
  split
  · exact Nat.mod_le _ _
  · exact Nat.le_succ _

theorem kept_step {s' : Calls} {a : Label} (h : Kept p₀ s past)
    (hstep : step s a = some s') : Kept p₀ s' (past ++ [a]) := by
  have hcalls : s.picked.length + s.released.length + 1 ≤ (past ++ [a]).length := by
    rw [length_append]
    exact Nat.add_le_add_right h.calls 1
  cases a with
  | pick key draw =>
    cases hstep
    obtain ⟨counter, hnext⟩ := s.pool.next_eq
    have hcounter := (next_counter s.pool).trans (Nat.add_le_add_right h.counter 1)
    have hpast : (past ++ [Label.pick key draw]).countP Label.isPick =
        past.countP Label.isPick + 1 := by
      rw [countP_append]
      rfl
    rw [← hpast, hnext] at hcounter
    cases hchosen : s.pool.choose key draw with
    | backend b =>
      have hpick : s.pool.pick key draw = (s.pool.next.addConns b 1, .backend b) := by
        rw [Pool.pick, hchosen]
      rw [hpick, hnext]
      refine ⟨h.strategy, h.backends, h.hashKey, h.ring, fun c => ?_, hcounter, fun c => ?_, ?_⟩
      · rw [memory_addConns]
        exact h.memory c
      · rw [memory_addConns]
        dsimp only [Calls.note]
        rw [h.conns c, intCount_cons]
        omega
      · rw [Calls.note, length_cons, Nat.add_right_comm]
        exact hcalls
    | failed message | panicked =>
      have hpick : (s.pool.pick key draw).1 = s.pool.next ∧
          s.note (s.pool.pick key draw).2 = s.picked := by
        rw [Pool.pick, hchosen]
        exact ⟨rfl, rfl⟩
      rw [hpick.1, hpick.2, hnext]
      exact ⟨h.strategy, h.backends, h.hashKey, h.ring, h.memory, hcounter, h.conns,
        Nat.le_of_succ_le hcalls⟩
  | release b =>
    cases hstep
    refine ⟨h.strategy, h.backends, h.hashKey, h.ring, fun c => ?_, ?_, fun c => ?_, hcalls⟩
    · rw [Pool.release, memory_addConns]
      exact h.memory c
    · rw [countP_append]
      exact h.counter.trans (Nat.le_add_right _ _)
    rw [Pool.release, memory_addConns, h.conns c, intCount_cons]
    dsimp only
    split <;> omega
  | setHealthy b v =>
    cases hstep
    have hmemory (c : Nat) : ((s.pool.setHealthy b v).memory c).id = (s.pool.memory c).id ∧
        ((s.pool.setHealthy b v).memory c).weight = (s.pool.memory c).weight ∧
        ((s.pool.setHealthy b v).memory c).activeConns = (s.pool.memory c).activeConns := by
      simp only [Pool.setHealthy, Function.update_apply]
      split
      · rename_i hcb
        rw [hcb]
        exact ⟨rfl, rfl, rfl⟩
      · exact ⟨rfl, rfl, rfl⟩
    refine ⟨h.strategy, h.backends, h.hashKey, h.ring, fun c => ?_, ?_, fun c => ?_,
      Nat.le_of_succ_le hcalls⟩
    · rw [(hmemory c).1, (hmemory c).2.1]
      exact h.memory c
    · rw [countP_append]
      exact h.counter.trans (Nat.le_add_right _ _)
    · rw [(hmemory c).2.2]
      exact h.conns c

theorem Kept.sound (h : Kept p₀ s past) (hp : Sound p₀) :
    Sound s.pool := by
  have hnodes : virtualNodes s.pool.hashKey s.pool.memory s.pool.backends =
      virtualNodes p₀.hashKey p₀.memory p₀.backends := by
    simp only [virtualNodes, h.hashKey, h.backends, (h.memory _).1]
  refine ⟨⟨?_, fun hs => ?_⟩, fun b hb => ?_, ?_⟩
  · rw [h.backends]
    exact hp.built.nonempty
  · rw [hnodes, h.ring]
    exact hp.built.ring (h.strategy.symm.trans hs)
  · rw [h.backends] at hb
    rw [(h.memory b).2]
    exact hp.weights b hb
  · simp only [h.backends, (h.memory _).2]
    exact hp.fits

end

/-- After any calls, a pick fails exactly when no backend is healthy and returns a healthy one
otherwise, a least loaded one if that is the strategy; the connection counts are the picks minus
the releases, and an `int64` holds them for fewer than 2^63 calls. -/
theorem picks_healthy {p₀ : Pool} (hfresh : Fresh p₀) {as : List Label} {s : Calls}
    (hrun : run step ⟨p₀, [], []⟩ as = some s) (hcalls : as.countP Label.isPick + 1 < 2 ^ 63)
    (key : String) (draw : Nat) :
    ((s.pool.pick key draw).2 = .failed Pool.errNoHealthyBackends ↔ s.pool.healthy = ∅) ∧
    (s.pool.healthy.Nonempty → ∃ b ∈ s.pool.healthy, (s.pool.pick key draw).2 = .backend b ∧
      (s.pool.strategy = .leastConnections → ∀ c ∈ s.pool.healthy,
        (s.pool.memory b).activeConns ≤ (s.pool.memory c).activeConns)) ∧
    ∀ b, (s.pool.memory b).activeConns = s.picked.count b - s.released.count b ∧
      (as.length < 2 ^ 63 →
        int64 (s.pool.memory b).activeConns = (s.pool.memory b).activeConns) := by
  have hstart : Kept p₀ ⟨p₀, [], []⟩ [] :=
    ⟨rfl, rfl, rfl, rfl, fun b => ⟨rfl, rfl⟩, Nat.le_of_eq hfresh.counter, hfresh.conns,
      le_rfl⟩
  have hkept : Kept p₀ s ([] ++ as) :=
    run_history (I := Kept p₀) (fun _ _ _ _ h _ hstep => kept_step h hstep) hstart
      (runMeets_true _ as) hrun
  have hsound := hkept.sound hfresh.sound
  have hcounter : s.pool.rrCounter + 1 < 2 ^ 63 :=
    (Nat.add_le_add_right hkept.counter 1).trans_lt hcalls
  rw [Pool.pick_snd]
  refine ⟨choose_failed_iff hsound hcounter, fun hne => ?_,
    fun b => ⟨hkept.conns b, fun hlength => ?_⟩⟩
  · obtain ⟨b, hb⟩ : ∃ b, s.pool.choose key draw = .backend b :=
      choose_of_healthy hsound hcounter hne
    refine ⟨b, Pool.choose_mem hsound.built hb, hb, fun hs c hc => ?_⟩
    rw [Pool.choose, hs] at hb
    obtain ⟨hmem, hhealthy⟩ := Pool.mem_healthy.mp hc
    exact (foldl_lessLoaded_le (Pool.found_eq_backend.mp hb)).2 c hmem hhealthy
  · have hcalls : s.picked.length + s.released.length ≤ as.length := hkept.calls
    have hpicked := s.picked.count_le_length (a := b)
    have hreleased := s.released.count_le_length (a := b)
    rw [hkept.conns]
    exact int64_eq (by omega) (by omega)

theorem picks_healthy_least :
    ∃ s, run step ⟨healthyPool .leastConnections 2, [], []⟩
        [.pick "" 0, .setHealthy 0 false, .pick "" 0, .setHealthy 0 true, .release 1] = some s ∧
      (s.pool.memory 0).activeConns = 1 ∧ (s.pool.memory 1).activeConns = 0 ∧
      ∃ b ∈ s.pool.healthy, (s.pool.pick "" 0).2 = .backend b := by
  have hfresh : Fresh (healthyPool .leastConnections 2) :=
    ⟨⟨⟨by decide, nofun⟩, by decide, by decide⟩, rfl, fun _ => rfl⟩
  refine exists_some_imp (A := fun s => (s.pool.memory 0).activeConns = 1 ∧
      (s.pool.memory 1).activeConns = 0 ∧ s.pool.healthy.Nonempty)
    ⟨_, rfl, rfl, rfl, 0, by decide⟩ fun s hrun ⟨hzero, hone, hne⟩ => ⟨hzero, hone, ?_⟩
  obtain ⟨b, hmem, hb, -⟩ := (picks_healthy hfresh hrun (by decide) "" 0).2.1 hne
  exact ⟨b, hmem, hb⟩

end GoServices.Gateway.Picks
