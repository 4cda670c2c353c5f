/-
Which strategies give the retries other backends.

Least connections and the ring pick the same backend again, so the retries work only in front of
one healthy backend.
-/
import GoServices.Gateway.Retries

namespace GoServices.Gateway.Retries

open Fetch List

/-- The position that round robin comes to with pick number `k` is healthy. -/
def InTurn (p : Pool) (k : Nat) : Prop :=
  ∃ b, p.backends[(p.rrCounter + 1 + k) % p.backends.length]? = some b ∧ p.isHealthy b = true

def totalWeight (p : Pool) : Int :=
  ((p.backends.filter p.isHealthy).map fun b => (p.memory b).weight).sum

section
variable {p : Pool} {key : String} {rand : Nat → Nat}

/-! ## The same pick again -/

variable {i : Nat}

theorem PicksDiffer.pickAt_ne (hd : PicksDiffer p key rand)
    (hi : i + 1 < min maxProxyAttempts p.healthy.card) :
    p.pickAt key rand (i + 1) ≠ p.pickAt key rand i := by
  intro heq
  obtain ⟨b, hb, hne⟩ := hd (i + 1) hi
  exact hne i (Nat.lt_succ_self i) b (heq.symm.trans hb) rfl

theorem PicksDiffer.card_le_one (hd : PicksDiffer p key rand)
    (hsame : p.pickAt key rand 1 = p.pickAt key rand 0) : p.healthy.card ≤ 1 := by
  by_contra hcard
  exact hd.pickAt_ne (lt_min (by decide) (not_le.mp hcard)) hsame

theorem picksDiffer_of_card_le_one (hcard : p.healthy.card ≤ 1)
    (hfound : p.healthy.Nonempty → ∃ b, p.pickAt key rand 0 = .backend b) :
    PicksDiffer p key rand := by
  intro i hi
  have hpos := (lt_min_iff.mp hi).2
  have hzero : i = 0 := by omega
  subst hzero
  obtain ⟨b, hb⟩ := hfound (Finset.card_pos.mp hpos)
  exact ⟨b, hb, fun k hk => absurd hk (Nat.not_lt_zero k)⟩

theorem advance_of_ne (hs : p.strategy ≠ .roundRobin) (i : Nat) : p.advance i = p := by
  induction i with
  | zero => rfl
  | succ i ih =>
    show (p.advance i).next = p
    rw [ih, Pool.next]
    split
    · rename_i hrr
      exact absurd hrr hs
    · rfl

theorem pickAt_of_ne (hs : p.strategy ≠ .roundRobin) (i : Nat) :
    p.pickAt key rand i = p.choose key (rand i) := by
  rw [Pool.pickAt, advance_of_ne hs]

/-! ## Least connections -/

variable {best : Option Nat} {b k : Nat}

theorem lessLoaded_isSome
    (h : best.isSome = true ∨ p.isHealthy b = true) : (p.lessLoaded best b).isSome = true := by
  unfold Pool.lessLoaded
  split
  · rename_i hb
    exact h.resolve_right hb
  split
  · rfl
  · split <;> rfl

theorem foldl_lessLoaded_isSome {l : List Nat}
    (h : best.isSome = true ∨ ∃ b ∈ l, p.isHealthy b = true) :
    (l.foldl p.lessLoaded best).isSome = true := by
  induction l generalizing best with
  | nil => exact h.resolve_right fun ⟨_, hb, _⟩ => absurd hb not_mem_nil
  | cons c l ih =>
    refine ih ?_
    rcases h with hbest | ⟨b, hb, hhealthy⟩
    · exact .inl (lessLoaded_isSome (.inl hbest))
    rcases mem_cons.mp hb with rfl | hb
    · exact .inl (lessLoaded_isSome (.inr hhealthy))
    · exact .inr ⟨b, hb, hhealthy⟩

theorem found_of_isSome {o : Option Nat} (h : o.isSome = true) :
    ∃ b, Pool.found o = .backend b := by
  obtain ⟨b, rfl⟩ := Option.isSome_iff_exists.mp h
  exact ⟨b, rfl⟩

theorem choose_leastConnections (hs : p.strategy = .leastConnections) (draw : Nat)
    (h : p.healthy.Nonempty) : ∃ b, p.choose key draw = .backend b := by
  obtain ⟨b, hb⟩ := h
  obtain ⟨hmem, hhealthy⟩ := Pool.mem_healthy.mp hb
  rw [Pool.choose, hs]
  exact found_of_isSome (foldl_lessLoaded_isSome (.inr ⟨b, hmem, hhealthy⟩))

/-! ## The ring -/

theorem mem_ring (hp : p.Built) (hs : p.strategy = .consistentHash)
    (hb : b ∈ p.backends) : ∃ node ∈ p.ring, node.2 = b := by
  refine ⟨(p.hashKey ((p.memory b).id ++ "#" ++ toString 0), b), ?_, rfl⟩
  refine (hp.ring hs).1.mem_iff.mpr (mem_flatMap.mpr ⟨b, hb, ?_⟩)
  exact mem_map.mpr ⟨0, mem_range.mpr (by decide), rfl⟩

theorem choose_consistentHash (hp : p.Built) (hs : p.strategy = .consistentHash) (draw : Nat)
    (h : p.healthy.Nonempty) : ∃ b, p.choose key draw = .backend b := by
  obtain ⟨b, hb⟩ := h
  obtain ⟨hmem, hhealthy⟩ := Pool.mem_healthy.mp hb
  obtain ⟨node, hnode, rfl⟩ := mem_ring hp hs hmem
  rw [Pool.choose, hs]
  refine found_of_isSome ?_
  rw [Option.isSome_map, find?_isSome]
  exact ⟨node, mem_rotate.mpr hnode, hhealthy⟩

/-! ## Random picks -/

theorem choose_weightedRandom (hs : p.strategy = .weightedRandom) (draw : Nat)
    (hpos : 0 < totalWeight p) (hfits : totalWeight p < 2 ^ 63) :
    ∃ b, p.choose key draw = .backend b := by
  have hne : p.backends.filter p.isHealthy ≠ [] := by
    intro hnil
    rw [totalWeight, hnil] at hpos
    exact absurd hpos (lt_irrefl 0)
  have htotal : int64 (totalWeight p) = totalWeight p :=
    int64_eq ((by decide : -2 ^ 63 ≤ (0 : Int)).trans hpos.le) hfits
  rw [totalWeight] at htotal hpos
  rw [Pool.choose, hs]
  simp only [Pool.pickWeightedRandom]
  rw [htotal, if_neg hpos.ne', if_neg hpos.not_gt]
  refine found_of_isSome ?_
  rw [Option.isSome_or, getLast?_isSome.mpr hne, Bool.or_true]

/-! ## Round robin -/

theorem advance_roundRobin (hs : p.strategy = .roundRobin) (hfits : p.rrCounter + i < 2 ^ 64) :
    p.advance i = { p with rrCounter := p.rrCounter + i } := by
  induction i with
  | zero => rfl
  | succ i ih =>
    show (p.advance i).next = _
    rw [ih (by omega), Pool.next]
    simp only [hs]
    rw [Nat.add_assoc, Nat.mod_eq_of_lt hfits]

theorem pickAt_roundRobin (hp : p.Built) (hs : p.strategy = .roundRobin)
    (hfits : p.rrCounter + 1 + i < 2 ^ 63) :
    p.pickAt key rand i =
      Pool.found ((p.backends.rotate (p.rrCounter + 1 + i)).find? p.isHealthy) := by
  have hcounter : (p.rrCounter + i + 1) % 2 ^ 64 = p.rrCounter + 1 + i := by omega
  have hstart : (int64 (p.rrCounter + 1 + i : Nat)).tmod p.backends.length =
      ((p.rrCounter + 1 + i) % p.backends.length : Nat) := by
    rw [int64_eq (by omega) (by exact_mod_cast hfits)]
    rfl
  rw [Pool.pickAt, advance_roundRobin hs (by omega)]
  simp only [Pool.choose, Pool.next, hs, Pool.pickRoundRobin]
  rw [hcounter, hstart, if_neg]
  · rw [Int.toNat_natCast, rotate_mod]
    rfl
  rintro (hzero | hneg)
  · exact hp.nonempty (length_eq_zero_iff.mp hzero)
  · exact absurd hneg (Int.natCast_nonneg _).not_gt

variable {α : Type} {l : List α} {q : α → Bool}

theorem find?_rotate_one (h : ∀ b ∈ l.head?, q b = false) :
    (l.rotate 1).find? q = l.find? q := by
  cases l with
  | nil => rfl
  | cons b l =>
    have hb := h b rfl
    all_goals simp [hb]

theorem find?_rotate_of_get {c : α} (hk : l[k]? = some c) (hc : q c = true) :
    (l.rotate k).find? q = some c := by
  obtain ⟨hlt, hget⟩ := List.getElem?_eq_some_iff.mp hk
  rw [rotate_eq_drop_append_take hlt.le, drop_eq_getElem_cons hlt, hget,
    cons_append, find?_cons_of_pos hc]

theorem find?_rotate_mem {x : α} (hx : x ∈ l.drop i) (hq : q x = true) :
    i ≤ l.length ∧ ∃ b ∈ l.drop i, (l.rotate i).find? q = some b := by
  have hi : i ≤ l.length := by
    by_contra hlong
    rw [drop_eq_nil_of_le (not_le.mp hlong).le] at hx
    exact absurd hx not_mem_nil
  obtain ⟨b, hb⟩ := Option.isSome_iff_exists.mp (find?_isSome.mpr ⟨x, hx, hq⟩)
  refine ⟨hi, b, mem_of_find?_eq_some hb, ?_⟩
  rw [rotate_eq_drop_append_take hi, find?_append, hb, Option.some_or]

theorem inTurn_iff (hp : p.Built) :
    InTurn p k ↔ ∃ b ∈ (p.backends.rotate (p.rrCounter + 1 + k)).head?, p.isHealthy b = true := by
  have hpos := length_pos_iff.mpr hp.nonempty
  rw [← rotate_mod, head?_rotate (Nat.mod_lt _ hpos)]
  rfl

theorem exists_healthy_drop {l : List Nat} (hl : ∀ b ∈ p.backends, b ∈ l)
    (hi : i < p.healthy.card) : ∃ x ∈ l.drop i, p.isHealthy x = true := by
  obtain ⟨x, hx, hnew⟩ := Finset.exists_mem_notMem_of_card_lt_card
    (((toFinset_card_le (l.take i)).trans (length_take_le i l)).trans_lt hi)
  obtain ⟨hmem, hhealthy⟩ := Pool.mem_healthy.mp hx
  have hxl := hl x hmem
  rw [← take_append_drop i l] at hxl
  exact ⟨x, (mem_append.mp hxl).resolve_left (hnew ∘ mem_toFinset.mpr), hhealthy⟩

theorem picksDiffer_roundRobin (hp : p.Built) (hs : p.strategy = .roundRobin)
    (hfits : p.rrCounter + maxProxyAttempts < 2 ^ 63)
    (hids : (p.backends.map fun b => (p.memory b).id).Nodup) :
    PicksDiffer p key rand ↔ ∀ k, k + 1 < min maxProxyAttempts p.healthy.card → InTurn p k := by
  have hpick : ∀ i < maxProxyAttempts, p.pickAt key rand i =
      Pool.found ((p.backends.rotate (p.rrCounter + 1 + i)).find? p.isHealthy) :=
    fun i hi => pickAt_roundRobin hp hs (by omega)
  constructor
  · intro hd k hk
    have hthree := (lt_min_iff.mp hk).1
    by_contra hturn
    refine hd.pickAt_ne hk ?_
    rw [hpick k (by omega), hpick (k + 1) hthree, ← Nat.add_assoc, ← rotate_rotate]
    refine congrArg Pool.found (find?_rotate_one fun b hb => ?_)
    by_contra hhealthy
    exact hturn ((inTurn_iff hp).mpr ⟨b, hb, Bool.not_eq_false _ ▸ hhealthy⟩)
  intro hturn i hi
  obtain ⟨hthree, hcard⟩ := lt_min_iff.mp hi
  let l := p.backends.rotate (p.rrCounter + 1)
  have hrotate : ∀ k, p.backends.rotate (p.rrCounter + 1 + k) = l.rotate k :=
    fun k => (rotate_rotate p.backends _ k).symm
  obtain ⟨x, hx, hhealthy⟩ := exists_healthy_drop (l := l) (fun b => mem_rotate.mpr) hcard
  obtain ⟨hlen, b, hb, hfind⟩ := find?_rotate_mem hx hhealthy
  refine ⟨b, ?_, fun k hk c hc => ?_⟩
  · rw [hpick i hthree, hrotate, hfind]
    rfl
  -- the earlier picks are the positions left behind
  obtain ⟨c', hhead, hhealthy⟩ := (inTurn_iff hp).mp (hturn k (by omega))
  rw [hrotate, head?_rotate (hk.trans_le hlen)] at hhead
  rw [hpick k (hk.trans hthree), hrotate, find?_rotate_of_get hhead hhealthy] at hc
  cases hc
  have htake : c ∈ l.take i := mem_of_getElem? ((getElem?_take_of_lt hk).trans hhead)
  have hnodup : (l.map fun b => (p.memory b).id).Nodup :=
    ((rotate_perm p.backends _).map _).nodup_iff.mpr hids
  rw [← take_append_drop i l, map_append] at hnodup
  exact (nodup_append.mp hnodup).2.2 _ (mem_map_of_mem htake) _
    (mem_map_of_mem hb)

/-! ## Strategy by strategy -/

theorem picksDiffer_iff_of_const (hs : p.strategy ≠ .roundRobin)
    (hconst : ∀ draw draw', p.choose key draw = p.choose key draw')
    (hfound : ∀ draw, p.healthy.Nonempty → ∃ b, p.choose key draw = .backend b) :
    PicksDiffer p key rand ↔ p.healthy.card ≤ 1 := by
  constructor
  · intro hd
    refine hd.card_le_one ?_
    rw [pickAt_of_ne hs, pickAt_of_ne hs]
    exact hconst _ _
  intro hcard
  refine picksDiffer_of_card_le_one hcard fun hne => ?_
  exact hfound _ hne

theorem picksDiffer_leastConnections (hs : p.strategy = .leastConnections) :
    PicksDiffer p key rand ↔ p.healthy.card ≤ 1 :=
  picksDiffer_iff_of_const (hs ▸ Strategy.noConfusion)
    (fun draw draw' => by simp only [Pool.choose, hs]) (choose_leastConnections hs)

theorem picksDiffer_consistentHash (hp : p.Built) (hs : p.strategy = .consistentHash) :
    PicksDiffer p key rand ↔ p.healthy.card ≤ 1 :=
  picksDiffer_iff_of_const (hs ▸ Strategy.noConfusion)
    (fun draw draw' => by simp only [Pool.choose, hs]) (choose_consistentHash hp hs)

theorem picksDiffer_weightedRandom (hs : p.strategy = .weightedRandom) (hpos : 0 < totalWeight p)
    (hfits : totalWeight p < 2 ^ 63) :
    (∀ rand, PicksDiffer p key rand) ↔ p.healthy.card ≤ 1 := by
  have hpick : ∀ rand i, p.pickAt key rand i = p.choose key (rand i) :=
    fun rand => pickAt_of_ne (hs ▸ Strategy.noConfusion)
  constructor
  · intro hd
    refine (hd fun _ => 0).card_le_one ?_
    rw [hpick, hpick]
  intro hcard rand
  refine picksDiffer_of_card_le_one hcard fun _ => ?_
  exact choose_weightedRandom hs _ hpos hfits

end

/-- The retries go to backends that were not tried, and reach one that does not fail,
whatever the breakers, the answers and the clock are, exactly when the first picks have
different ids. -/
theorem retries_reach_others (p : Pool) (key : String) (rand : Nat → Nat) (hp : p.Built) :
    ((∀ env, RetriesWork p key rand env) ↔ PicksDiffer p key rand) ∧
    (p.strategy = .roundRobin → p.rrCounter + maxProxyAttempts < 2 ^ 63 →
      (p.backends.map fun b => (p.memory b).id).Nodup →
      ((∀ env, RetriesWork p key rand env) ↔
        ∀ k, k + 1 < min maxProxyAttempts p.healthy.card → InTurn p k)) ∧
    (p.strategy = .leastConnections ∨ p.strategy = .consistentHash →
      ((∀ env, RetriesWork p key rand env) ↔ p.healthy.card ≤ 1)) ∧
    (p.strategy = .weightedRandom → 0 < totalWeight p → totalWeight p < 2 ^ 63 →
      ((∀ rand env, RetriesWork p key rand env) ↔ p.healthy.card ≤ 1)) := by
  refine ⟨retriesWork_iff hp, fun hs hfits hids => ?_, fun hs => ?_, fun hs hpos hfits => ?_⟩
  · exact (retriesWork_iff hp).trans (picksDiffer_roundRobin hp hs hfits hids)
  · rcases hs with hs | hs
    · exact (retriesWork_iff hp).trans (picksDiffer_leastConnections hs)
    · exact (retriesWork_iff hp).trans (picksDiffer_consistentHash hp hs)
  · exact (forall_congr' fun _ => retriesWork_iff hp).trans
      (picksDiffer_weightedRandom hs hpos hfits)

/-- Backends that are all healthy, `n` of them. -/
def healthyPool (strategy : Strategy) (n : Nat) : Pool where
  memory b := newBackend (toString b) 1
  strategy := strategy
  backends := List.range n
  rrCounter := 0
  hashKey _ := 0
  ring := []

theorem retries_reach_others_turns :
    (healthyPool .roundRobin 3).Built ∧
      ∀ env, RetriesWork (healthyPool .roundRobin 3) "" (fun _ => 0) env := by
  have hp : (healthyPool .roundRobin 3).Built := ⟨by decide, nofun⟩
  refine ⟨hp, ((retries_reach_others _ "" (fun _ => 0) hp).2.1 rfl (by decide) (by decide)).mpr ?_⟩
  intro k hk
  have hk' : k = 0 ∨ k = 1 := by
    have hthree := (lt_min_iff.mp hk).1
    simp only [maxProxyAttempts] at hthree
    omega
  rcases hk' with rfl | rfl
  · exact ⟨1, rfl, rfl⟩
  · exact ⟨2, rfl, rfl⟩

def firstDown : Env :=
  ⟨fun _ => 0, fun b => (if b = 0 then 500 else 200, [], ""), fun _ =>
    .newWithClock Breaker.defaultConfig⟩

/-- The least loaded backend is tried three times, and the other one not at all. -/
theorem least_loaded_retried :
    let fetched := Fetch.fetch
      (services (healthyPool .leastConnections 2) "" (fun _ => 0) firstDown)
      (start (healthyPool .leastConnections 2) firstDown)
    tried fetched.2.1 = [0, 0, 0] ∧ (healthyPool .leastConnections 2).healthy = {0, 1} ∧
      Fails (healthyPool .leastConnections 2) firstDown 0 ∧
      ¬ Fails (healthyPool .leastConnections 2) firstDown 1 ∧
      fetched.2.2 = .returned (.ok ⟨500, [], "", some 0⟩) ∧
      ¬ RetriesWork (healthyPool .leastConnections 2) "" (fun _ => 0) firstDown := by
  refine ⟨by decide +kernel, by decide, by decide, by decide, rfl, ?_⟩
  intro hwork
  have hmem := hwork.1 [0] 0 [0] (by decide +kernel) (by decide) 1 (by decide)
  exact absurd hmem (by decide)

end GoServices.Gateway.Retries
