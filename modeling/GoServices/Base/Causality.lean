/-
Causal order of a run and the vectors that capture it.

A run is a list of events.
-/
import Mathlib.Tactic

namespace GoServices

open List

section Causality

variable {ε ν : Type} (proc : ε → ν) (source : ε → Option Nat)

def Precedes (es : List ε) (i j : Nat) : Prop :=
  i < j ∧ ∃ e f, es[i]? = some e ∧ es[j]? = some f ∧ (proc e = proc f ∨ source f = some i)

def HappenedBefore (es : List ε) : Nat → Nat → Prop :=
  Relation.TransGen (Precedes proc source es)

def CausalPast (es : List ε) : Nat → Nat → Prop :=
  Relation.ReflTransGen (Precedes proc source es)

variable {proc source} {es : List ε} {i j : Nat}

theorem causalPast_iff :
    CausalPast proc source es i j ↔ i = j ∨ HappenedBefore proc source es i j := by
  rw [CausalPast, Relation.reflTransGen_iff_eq_or_transGen, HappenedBefore, eq_comm]

theorem HappenedBefore.lt (h : HappenedBefore proc source es i j) :
    i < j := by
  induction h with
  | single h => exact h.1
  | tail _ h ih => exact Nat.lt_trans ih h.1

theorem getElem?_append_of_some {e : ε} (h : es[i]? = some e) (fs : List ε) :
    (es ++ fs)[i]? = some e := by
  rw [getElem?_append_left (List.getElem?_eq_some_iff.mp h).1, h]

theorem Precedes.append (h : Precedes proc source es i j) (fs : List ε) :
    Precedes proc source (es ++ fs) i j := by
  obtain ⟨hlt, e, f, hi, hj, hef⟩ := h
  exact ⟨hlt, e, f, getElem?_append_of_some hi fs, getElem?_append_of_some hj fs, hef⟩

theorem CausalPast.append (h : CausalPast proc source es i j) (fs : List ε) :
    CausalPast proc source (es ++ fs) i j :=
  Relation.ReflTransGen.mono (fun _ _ hp => Precedes.append hp fs) i j h

theorem causalPast_map {α : Type} {f : α → ε} {es : List α} {i j : Nat} :
    CausalPast proc source (es.map f) i j ↔ CausalPast (proc ∘ f) (source ∘ f) es i j := by
  have hmap : Precedes proc source (es.map f) = Precedes (proc ∘ f) (source ∘ f) es := by
    ext k l
    simp [Precedes]
  rw [CausalPast, hmap, CausalPast]

/-! ## One more event -/

theorem getElem?_concat_cases {f g : ε} (h : (es ++ [f])[j]? = some g) :
    es[j]? = some g ∨ (j = es.length ∧ g = f) := by
  rcases Nat.lt_or_ge j es.length with hlt | hge
  · rw [getElem?_append_left hlt] at h
    exact .inl h
  rw [getElem?_append_right hge, getElem?_singleton] at h
  split at h
  · exact .inr ⟨by omega, (Option.some.inj h).symm⟩
  · cases h

theorem lt_length_of_getElem? {e : ε} (h : es[i]? = some e) :
    i < es.length :=
  (List.getElem?_eq_some_iff.mp h).1

variable (proc source) in
/-- The event at `i` is one that the new event `f` follows directly: it is of the same
process or the source. -/
def Feeds (es : List ε) (f : ε) (i : Nat) (e : ε) : Prop :=
  es[i]? = some e ∧ (proc e = proc f ∨ source f = some i)

variable {es : List ε} {f : ε} {i : Nat}

theorem precedes_concat {j : Nat} :
    Precedes proc source (es ++ [f]) i j ↔
      Precedes proc source es i j ∨ (j = es.length ∧ ∃ e, Feeds proc source es f i e) := by
  constructor
  · rintro ⟨hlt, e, g, hi, hj, hor⟩
    rcases getElem?_concat_cases hj with hj | ⟨rfl, rfl⟩
    · rcases getElem?_concat_cases hi with hi | ⟨rfl, -⟩
      · exact .inl ⟨hlt, e, g, hi, hj, hor⟩
      · exact absurd (lt_length_of_getElem? hj) (by omega)
    rcases getElem?_concat_cases hi with hi | ⟨rfl, -⟩
    · exact .inr ⟨rfl, e, hi, hor⟩
    · exact absurd hlt (Nat.lt_irrefl _)
  · rintro (h | ⟨rfl, e, hi, hor⟩)
    · exact h.append [f]
    · exact ⟨lt_length_of_getElem? hi, e, f, getElem?_append_of_some hi _,
        getElem?_concat_length, hor⟩

theorem causalPast_concat_of_lt {j : Nat} (hj : j < es.length) :
    CausalPast proc source (es ++ [f]) i j ↔ CausalPast proc source es i j := by
  refine ⟨fun h => ?_, fun h => h.append [f]⟩
  induction h with
  | refl => exact .refl
  | tail _ hstep ih =>
    rcases precedes_concat.mp hstep with hold | ⟨rfl, -⟩
    · exact (ih (Nat.lt_trans hold.1 hj)).tail hold
    · exact absurd hj (Nat.lt_irrefl _)

theorem causalPast_concat_length :
    CausalPast proc source (es ++ [f]) i es.length ↔
      i = es.length ∨ ∃ k e, Feeds proc source es f k e ∧ CausalPast proc source es i k := by
  constructor
  · intro h
    rcases Relation.ReflTransGen.cases_tail h with heq | ⟨k, hk, hstep⟩
    · exact .inl heq.symm
    rcases precedes_concat.mp hstep with hold | ⟨-, e, he⟩
    · obtain ⟨-, -, g, -, hg, -⟩ := hold
      exact absurd (lt_length_of_getElem? hg) (Nat.lt_irrefl _)
    · exact .inr ⟨k, e, he, (causalPast_concat_of_lt (lt_length_of_getElem? he.1)).mp hk⟩
  · rintro (rfl | ⟨k, e, he, hk⟩)
    · exact .refl
    · exact (hk.append [f]).tail (precedes_concat.mpr (.inr ⟨rfl, e, he⟩))

/-! ## Relations along a run -/

variable (proc source) in
/-- Each step of the causal order is one of `R`. -/
def Along (R : ε → ε → Prop) (es : List ε) : Prop :=
  ∀ (i j : Nat) (e f : ε), Precedes proc source es i j → es[i]? = some e → es[j]? = some f → R e f

section
variable {R : ε → ε → Prop} {es : List ε}

theorem along_nil (R : ε → ε → Prop) : Along proc source R [] := by
  intro i j e f _ hi
  cases hi

variable {f : ε}

section
variable (h : Along proc source R es)
include h

theorem Along.concat (hnew : ∀ i e, Feeds proc source es f i e → R e f) :
    Along proc source R (es ++ [f]) := by
  intro i j e g hstep hi hj
  rcases precedes_concat.mp hstep with hold | ⟨rfl, e', he'⟩
  · obtain ⟨-, e', g', hi', hj', -⟩ := id hold
    rw [getElem?_append_of_some hi'] at hi
    rw [getElem?_append_of_some hj'] at hj
    cases hi
    cases hj
    exact h i j e g hold hi' hj'
  · rw [getElem?_concat_length] at hj
    rw [getElem?_append_of_some he'.1] at hi
    cases hi
    cases hj
    exact hnew i e he'

theorem Along.before (htrans : ∀ {a b c}, R a b → R b c → R a c) {i j : Nat} {e : ε}
    (hij : HappenedBefore proc source es i j) (hi : es[i]? = some e) (hj : es[j]? = some f) :
    R e f := by
  induction hij generalizing f with
  | single hstep => exact h _ _ e f hstep hi hj
  | tail _ hstep ih =>
    obtain ⟨-, g, -, hg, -⟩ := id hstep
    exact htrans (ih hg) (h _ _ g f hstep hg hj)

theorem Along.past (hrefl : ∀ e, R e e) (htrans : ∀ {a b c}, R a b → R b c → R a c) {i j : Nat}
    {e : ε} (hij : CausalPast proc source es i j) (hi : es[i]? = some e) (hj : es[j]? = some f) :
    R e f := by
  rcases Relation.reflTransGen_iff_eq_or_transGen.mp hij with rfl | hbefore
  · rw [hi] at hj
    cases hj
    exact hrefl _
  · exact h.before htrans hbefore hi hj

end

end

/-! ## Values in the past -/

variable (proc source) in
/-- The values of the events in the past of the event at `j`, itself included. -/
def pastValues {α : Type} (val : ε → α) (es : List ε) (j : Nat) : Set α :=
  {w | ∃ i e, CausalPast proc source es i j ∧ es[i]? = some e ∧ val e = w}

section
variable {α : Type} {val : ε → α} {es : List ε} {f : ε}

theorem pastValues_concat_of_lt {j : Nat} (hj : j < es.length) :
    pastValues proc source val (es ++ [f]) j = pastValues proc source val es j := by
  ext w
  constructor
  · rintro ⟨i, e, hij, hi, hw⟩
    have hpast := (causalPast_concat_of_lt hj).mp hij
    rcases getElem?_concat_cases hi with hi | ⟨rfl, -⟩
    · exact ⟨i, e, hpast, hi, hw⟩
    rcases causalPast_iff.mp hpast with heq | hlt
    · omega
    · exact absurd hlt.lt (by omega)
  · rintro ⟨i, e, hij, hi, hw⟩
    exact ⟨i, e, hij.append _, getElem?_append_of_some hi _, hw⟩

theorem mem_pastValues_concat {w : α} :
    w ∈ pastValues proc source val (es ++ [f]) es.length ↔
      w = val f ∨ ∃ k e, Feeds proc source es f k e ∧ w ∈ pastValues proc source val es k := by
  constructor
  · rintro ⟨i, e, hij, hi, rfl⟩
    rcases causalPast_concat_length.mp hij with rfl | ⟨k, g, hg, hik⟩
    · rw [getElem?_concat_length] at hi
      cases hi
      exact .inl rfl
    refine .inr ⟨k, g, hg, ?_⟩
    rw [← pastValues_concat_of_lt (f := f) (lt_length_of_getElem? hg.1)]
    exact ⟨i, e, hik.append _, hi, rfl⟩
  · rintro (rfl | ⟨k, g, hg, i, e, hik, hi, rfl⟩)
    · exact ⟨es.length, f, .refl, getElem?_concat_length, rfl⟩
    · refine ⟨i, e, causalPast_concat_length.mpr (.inr ⟨k, g, hg, hik⟩), ?_, rfl⟩
      exact getElem?_append_of_some hi _

end

/-! ## Stamps -/

variable (proc source) in
/-- What a clock owes to a run; `stamp e n` is the count of `n`'s events that `e`
has seen. -/
structure Stamped (stamp : ε → ν → Nat) (es : List ε) : Prop where
  mono : ∀ {i j : Nat} {e f : ε}, Precedes proc source es i j → es[i]? = some e →
    es[j]? = some f → ∀ n, stamp e n ≤ stamp f n
  own_pos : ∀ e ∈ es, 0 < stamp e (proc e)
  own_lt : ∀ {i j : Nat} {e f : ε}, i < j → es[i]? = some e → es[j]? = some f →
    proc e = proc f → stamp e (proc e) < stamp f (proc e)
  witnessed : ∀ {j : Nat} {f : ε}, es[j]? = some f → ∀ n, 0 < stamp f n →
    ∃ i e, es[i]? = some e ∧ proc e = n ∧ stamp e n = stamp f n ∧ CausalPast proc source es i j

theorem stamped_nil (stamp : ε → ν → Nat) : Stamped proc source stamp [] where
  mono _ hi := by cases hi
  own_pos _ he := by cases he
  own_lt _ hi := by cases hi
  witnessed hj := by cases hj

variable {stamp : ε → ν → Nat} {es : List ε} {i j : Nat} {e f : ε}

section
variable (h : Stamped proc source stamp es)
include h

theorem Stamped.mono_past (hij : CausalPast proc source es i j) (hi : es[i]? = some e)
    (hj : es[j]? = some f) (n : ν) : stamp e n ≤ stamp f n := by
  have halong : Along proc source (fun e f => stamp e n ≤ stamp f n) es :=
    fun _ _ _ _ hstep hi hj => h.mono hstep hi hj n
  exact halong.past (fun _ => Nat.le_refl _) Nat.le_trans hij hi hj

theorem Stamped.past_of_own_le (hi : es[i]? = some e) (hj : es[j]? = some f)
    (hproc : proc e = proc f) (hle : stamp e (proc e) ≤ stamp f (proc e)) :
    CausalPast proc source es i j := by
  rcases Nat.lt_trichotomy i j with hlt | rfl | hgt
  · exact .single ⟨hlt, e, f, hi, hj, .inl hproc⟩
  · exact .refl
  have hlt := h.own_lt hgt hj hi hproc.symm
  rw [← hproc] at hlt
  omega

theorem Stamped.le_iff (hi : es[i]? = some e) (hj : es[j]? = some f) :
    (∀ n, stamp e n ≤ stamp f n) ↔ CausalPast proc source es i j := by
  refine ⟨fun hle => ?_, fun hij => h.mono_past hij hi hj⟩
  have hpos := h.own_pos e (mem_iff_getElem?.mpr ⟨i, hi⟩)
  obtain ⟨k, g, hk, hproc, heq, hkj⟩ :=
    h.witnessed hj (proc e) (Nat.lt_of_lt_of_le hpos (hle (proc e)))
  refine Relation.ReflTransGen.trans (h.past_of_own_le hi hk hproc.symm ?_) hkj
  rw [heq]
  exact hle (proc e)

theorem Stamped.append
    (hle : ∀ (i : Nat) (e : ε), es[i]? = some e → proc e = proc f ∨ source f = some i →
      ∀ n, stamp e n ≤ stamp f n)
    (hpos : 0 < stamp f (proc f))
    (hown : ∀ e ∈ es, proc e = proc f → stamp e (proc f) < stamp f (proc f))
    (hfrom : ∀ n, n ≠ proc f → 0 < stamp f n →
      ∃ (i : Nat) (e : ε), es[i]? = some e ∧ stamp e n = stamp f n ∧
        (proc e = proc f ∨ source f = some i)) :
    Stamped proc source stamp (es ++ [f]) := by
  refine ⟨?_, ?_, ?_, ?_⟩
  · have halong : Along proc source (fun e g => ∀ n, stamp e n ≤ stamp g n) es :=
      fun _ _ _ _ hstep hi hj => h.mono hstep hi hj
    intro i j e g hstep hi hj
    exact halong.concat (fun i e he => hle i e he.1 he.2) i j e g hstep hi hj
  · intro e he
    rcases mem_append.mp he with he | he
    · exact h.own_pos e he
    · rw [mem_singleton.mp he]
      exact hpos
  · intro i j e g hlt hi hj hproc
    rcases getElem?_concat_cases hj with hj | ⟨rfl, rfl⟩
    · rcases getElem?_concat_cases hi with hi | ⟨rfl, -⟩
      · exact h.own_lt hlt hi hj hproc
      · exact absurd (lt_length_of_getElem? hj) (by omega)
    rcases getElem?_concat_cases hi with hi | ⟨rfl, -⟩
    · rw [hproc]
      exact hown e (mem_iff_getElem?.mpr ⟨i, hi⟩) hproc
    · exact absurd hlt (Nat.lt_irrefl _)
  intro j g hj n hn
  rcases getElem?_concat_cases hj with hj | ⟨rfl, rfl⟩
  · obtain ⟨i, e, hi, hproc, heq, hij⟩ := h.witnessed hj n hn
    exact ⟨i, e, getElem?_append_of_some hi _, hproc, heq, hij.append _⟩
  by_cases hself : n = proc g
  · exact ⟨es.length, g, hj, hself.symm, rfl, .refl⟩
  obtain ⟨k, c, hk, hkeq, hor⟩ := hfrom n hself hn
  obtain ⟨i, e, hi, hproc, heq, hik⟩ := h.witnessed hk n (by omega)
  refine ⟨i, e, getElem?_append_of_some hi _, hproc, heq.trans hkeq, ?_⟩
  exact causalPast_concat_length.mpr (.inr ⟨k, c, ⟨hk, hor⟩, hik⟩)

end

/-! ## Chains -/

variable (proc source) in
/-- The lengths of the chains in the past of the event at `j`, itself included. -/
def chainLengths (es : List ε) (j : Nat) : Set Nat :=
  {n | ∃ c : List Nat, c.Pairwise (HappenedBefore proc source es) ∧
    (∀ i ∈ c, CausalPast proc source es i j) ∧ c.length = n}

section
variable {time : ε → Nat} (h : Along proc source (fun e f => time e < time f) es)
include h

theorem Along.chain_le (hj : es[j]? = some f) {c : List Nat}
    (hc : c.Pairwise (HappenedBefore proc source es))
    (hpast : ∀ i ∈ c, CausalPast proc source es i j) {m : Nat} (hm : m ≤ time f)
    (habove : ∀ i ∈ c, ∀ e, es[i]? = some e → m < time e) : c.length + m ≤ time f := by
  induction c generalizing m with
  | nil => simpa using hm
  | cons i c ih =>
    rw [pairwise_cons] at hc
    rw [forall_mem_cons] at hpast habove
    have hi : ∃ e, es[i]? = some e ∧ time e ≤ time f := by
      rcases causalPast_iff.mp hpast.1 with rfl | hij
      · exact ⟨f, hj, le_rfl⟩
      · obtain ⟨k, ⟨-, e, -, he, -⟩, -⟩ := Relation.TransGen.head'_iff.mp hij
        exact ⟨e, he, (h.before Nat.lt_trans hij he hj).le⟩
    obtain ⟨e, he, hle⟩ := hi
    have hrest := ih hc.2 hpast.2 hle fun k hk g hg => h.before Nat.lt_trans (hc.1 k hk) he hg
    have hlt := habove.1 e he
    rw [length_cons]
    omega

/-- A measure that grows along a run, and never by more than one over everything that an event
follows, is the length of the longest chain. -/
theorem Along.isGreatest_chain (hfrom : ∀ j f, es[j]? = some f → time f = 1 ∨
      ∃ i e, Precedes proc source es i j ∧ es[i]? = some e ∧ time f = time e + 1)
    (hj : es[j]? = some f) : IsGreatest (chainLengths proc source es j) (time f) := by
  constructor
  · induction j using Nat.strong_induction_on generalizing f with
    | _ j ih =>
      rcases hfrom j f hj with hone | ⟨i, e, hij, hi, htime⟩
      · exact ⟨[j], pairwise_singleton _ _, forall_mem_singleton.mpr .refl, hone.symm⟩
      obtain ⟨c, hc, hpast, hlen⟩ := ih i hij.1 hi
      refine ⟨c ++ [j], pairwise_append.mpr ⟨hc, pairwise_singleton _ _, ?_⟩,
        forall_mem_append.mpr ⟨fun k hk => (hpast k hk).tail hij,
          forall_mem_singleton.mpr .refl⟩, by simp [hlen, htime]⟩
      intro k hk l hl
      rw [mem_singleton.mp hl]
      exact Relation.TransGen.tail' (hpast k hk) hij
  · rintro n ⟨c, hc, hpast, rfl⟩
    refine h.chain_le hj hc hpast (Nat.zero_le _) fun i _ e he => ?_
    rcases hfrom i e he with hone | ⟨_, _, _, _, htime⟩ <;> omega

end

/-! ## What the processes hold -/

theorem held_concat [DecidableEq ν] {α : Type} {R : ε → α → Prop} {held : ν → α} {es : List ε}
    {a : α} (h : ∀ e ∈ es, R e (held (proc e))) (hkeep : ∀ e, R e (held (proc f)) → R e a)
    (hnew : R f a) :
    ∀ e ∈ es ++ [f], R e (if proc e = proc f then a else held (proc e)) := by
  intro e he
  rcases mem_append.mp he with hold | hlast
  · have hrel := h e hold
    split
    · rename_i hproc
      rw [hproc] at hrel
      exact hkeep e hrel
    · exact hrel
  · rw [mem_singleton.mp hlast, if_pos rfl]
    exact hnew

end Causality

end GoServices
