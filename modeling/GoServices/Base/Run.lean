/-
Runs of a partial step function.

A component is a state type, a label type and `step : σ → ℓ → Option σ`.
-/
import Mathlib.Tactic

namespace GoServices

open List

theorem mem_concat_cases {α : Type} {x a : α} {l : List α} (h : x ∈ l ++ [a]) :
    x ∈ l ∨ x = a := by
  simpa using h

section Run

variable {σ ℓ : Type} (step : σ → ℓ → Option σ)

def run (s : σ) : List ℓ → Option σ
  | [] => some s
  | a :: as => (step s a).bind fun s' => run s' as

/-- Every step of the run from `s` meets `ok`, which reads the state before the
step and the label. -/
def RunMeets (ok : σ → ℓ → Prop) : σ → List ℓ → Prop
  | _, [] => True
  | s, a :: as => ok s a ∧ ∀ s', step s a = some s' → RunMeets ok s' as

variable {step}

instance RunMeets.decidable (ok : σ → ℓ → Prop) [∀ s a, Decidable (ok s a)] :
    ∀ s as, Decidable (RunMeets step ok s as)
  | _, [] => isTrue trivial
  | s, a :: as =>
    have : Decidable (∀ s', step s a = some s' → RunMeets step ok s' as) :=
      match step s a with
      | none => isTrue nofun
      | some t =>
        match RunMeets.decidable ok t as with
        | isTrue ht => isTrue fun _ h => Option.some.inj h ▸ ht
        | isFalse ht => isFalse fun h => ht (h t rfl)
    inferInstanceAs (Decidable (_ ∧ _))

@[simp] theorem run_nil (s : σ) : run step s [] = some s := rfl

theorem run_cons (s : σ) (a : ℓ) (as : List ℓ) :
    run step s (a :: as) = (step s a).bind fun s' => run step s' as := rfl

variable {ok : σ → ℓ → Prop} {I : σ → Prop} {s s' : σ} {as : List ℓ}

theorem of_run_cons {a : ℓ} (h : run step s (a :: as) = some s') :
    ∃ t, step s a = some t ∧ run step t as = some s' :=
  Option.bind_eq_some_iff.mp h

theorem run_append (s : σ) (as bs : List ℓ) :
    run step s (as ++ bs) = (run step s as).bind fun t => run step t bs := by
  induction as generalizing s with
  | nil => rfl
  | cons a as ih => simp only [cons_append, run_cons, ih, Option.bind_assoc]

theorem run_history {I : σ → List ℓ → Prop}
    (hstep : ∀ s past a s', I s past → ok s a → step s a = some s' → I s' (past ++ [a]))
    {past : List ℓ} (hs : I s past) (hok : RunMeets step ok s as) (hrun : run step s as = some s') :
    I s' (past ++ as) := by
  induction as generalizing s past with
  | nil =>
    cases hrun
    rw [append_nil]
    exact hs
  | cons a as ih =>
    obtain ⟨t, ht, hrun⟩ := of_run_cons hrun
    have hnext := ih (hstep s past a t hs hok.1 ht) (hok.2 t ht) hrun
    rwa [append_assoc] at hnext

theorem run_invariant_of_meets (hstep : ∀ s a s', I s → ok s a → step s a = some s' → I s')
    (hs : I s) (hok : RunMeets step ok s as) (hrun : run step s as = some s') : I s' :=
  @run_history _ _ step ok s s' as (fun s _ => I s) (fun s _ a s' => hstep s a s') [] hs hok hrun

theorem runMeets_of_forall (h : ∀ a ∈ as, ∀ s, ok s a) (s : σ) : RunMeets step ok s as := by
  induction as generalizing s with
  | nil => trivial
  | cons a as ih =>
    refine ⟨h a mem_cons_self s, fun s' _ => ?_⟩
    exact ih (fun b hb => h b (mem_cons_of_mem a hb)) s'

theorem RunMeets.and {ok' : σ → ℓ → Prop} (h : RunMeets step ok s as)
    (h' : RunMeets step ok' s as) : RunMeets step (fun s a => ok s a ∧ ok' s a) s as := by
  induction as generalizing s with
  | nil => trivial
  | cons a as ih => exact ⟨⟨h.1, h'.1⟩, fun t ht => ih (h.2 t ht) (h'.2 t ht)⟩

theorem runMeets_true (s : σ) (as : List ℓ) : RunMeets step (fun _ _ => True) s as :=
  runMeets_of_forall (fun _ _ _ => trivial) s

theorem run_invariant (hstep : ∀ s a s', I s → step s a = some s' → I s') (hs : I s)
    (hrun : run step s as = some s') : I s' :=
  run_invariant_of_meets (fun s a s' hs _ h => hstep s a s' hs h) hs (runMeets_true s as) hrun

variable {m : σ → Nat}

theorem run_countP_le_of_meets {c : σ → ℓ → Prop} {p : ℓ → Bool}
    (hstep : ∀ s a s', c s a → step s a = some s' → (if p a then 1 else 0) + m s' ≤ m s)
    (hok : RunMeets step c s as) (hrun : run step s as = some s') :
    as.countP p + m s' ≤ m s := by
  induction as generalizing s with
  | nil =>
    cases hrun
    exact Nat.le_of_eq (Nat.zero_add _)
  | cons a as ih =>
    obtain ⟨t, ht, hrun⟩ := of_run_cons hrun
    have hlower := hstep s a t hok.1 ht
    have hrest := ih (hok.2 t ht) hrun
    rw [countP_cons]
    omega

theorem run_countP_le {p : ℓ → Bool}
    (hstep : ∀ s a s', step s a = some s' → (if p a then 1 else 0) + m s' ≤ m s)
    (hrun : run step s as = some s') : as.countP p + m s' ≤ m s :=
  run_countP_le_of_meets (fun s a s' _ h => hstep s a s' h) (runMeets_true s as) hrun

theorem run_length_le (hstep : ∀ s a s', step s a = some s' → m s' < m s)
    (hrun : run step s as = some s') : as.length + m s' ≤ m s := by
  have hcount := run_countP_le (p := fun _ => true) (m := m)
    (fun s a s' h => by rw [if_pos rfl, Nat.add_comm]; exact hstep s a s' h) hrun
  rwa [countP_true] at hcount

theorem run_relates {R : σ → σ → Prop} (hinv : ∀ s a s', I s → step s a = some s' → I s')
    (hstep : ∀ s a s', I s → step s a = some s' → R s s') (hrefl : ∀ s, R s s)
    (htrans : ∀ {s t u}, R s t → R t u → R s u) (hs : I s) (hrun : run step s as = some s') :
    R s s' := by
  refine (run_invariant (I := fun t => I t ∧ R s t) (fun t a t' ht h => ?_)
    ⟨hs, hrefl s⟩ hrun).2
  exact ⟨hinv t a t' ht.1 h, htrans ht.2 (hstep t a t' ht.1 h)⟩

theorem run_simulates {τ : Type} {step' : τ → ℓ → Option τ} {R : σ → τ → Prop}
    (hstep : ∀ s t a s', R s t → step s a = some s' → ∃ t', step' t a = some t' ∧ R s' t') {t : τ}
    (hs : R s t) (hrun : run step s as = some s') :
    ∃ t', run step' t as = some t' ∧ R s' t' := by
  induction as generalizing s t with
  | nil =>
    cases hrun
    exact ⟨t, rfl, hs⟩
  | cons a as ih =>
    obtain ⟨u, hu, hrun⟩ := of_run_cons hrun
    obtain ⟨v, hv, huv⟩ := hstep s t a u hs hu
    obtain ⟨t', ht', hR⟩ := ih huv hrun
    exact ⟨t', by rw [run_cons, hv]; exact ht', hR⟩

section
variable {P : σ → Prop} (hinv : ∀ s a s', I s → step s a = some s' → I s')
include hinv

theorem run_iff_meets (hstep : ∀ s a s', I s → step s a = some s' → (P s' ↔ P s ∧ ok s a))
    (hs : I s) (hrun : run step s as = some s') : P s' ↔ P s ∧ RunMeets step ok s as := by
  induction as generalizing s with
  | nil =>
    cases hrun
    exact ⟨fun h => ⟨h, trivial⟩, fun h => h.1⟩
  | cons a as ih =>
    obtain ⟨t, ht, hrun⟩ := of_run_cons hrun
    rw [ih (hinv s a t hs ht) hrun, hstep s a t hs ht, and_assoc]
    refine and_congr_right fun _ => and_congr_right fun _ => ?_
    constructor
    · intro h t' ht'
      rw [ht] at ht'
      cases ht'
      exact h
    · exact fun h => h t ht

theorem prefixes_iff_meets (hstep : ∀ s a s', I s → P s → step s a = some s' → (P s' ↔ ok s a))
    (hstop : ∀ s a, step s a = none → ok s a) (hs : I s) (hP : P s) (as : List ℓ) :
    (∀ bs, bs <+: as → ∀ t, run step s bs = some t → P t) ↔ RunMeets step ok s as := by
  induction as generalizing s with
  | nil =>
    refine ⟨fun _ => trivial, fun _ bs hbs t ht => ?_⟩
    rw [prefix_nil.mp hbs] at ht
    cases ht
    exact hP
  | cons a as ih =>
    constructor
    · intro h
      cases hnext : step s a with
      | none => exact ⟨hstop s a hnext, fun t ht => by rw [hnext] at ht; cases ht⟩
      | some s' =>
        have hP' : P s' := by
          refine h [a] (prefix_append [a] as) s' ?_
          rw [run_cons, hnext]
          rfl
        refine ⟨(hstep s a s' hs hP hnext).mp hP', fun t ht => ?_⟩
        rw [hnext] at ht
        cases ht
        refine (ih (hinv s a s' hs hnext) hP').mp fun bs hbs t ht => ?_
        refine h (a :: bs) (cons_prefix_cons.mpr ⟨rfl, hbs⟩) t ?_
        rw [run_cons, hnext]
        exact ht
    · intro hmeets bs hbs t ht
      cases bs with
      | nil =>
        cases ht
        exact hP
      | cons b bs =>
        obtain ⟨rfl, htail⟩ := cons_prefix_cons.mp hbs
        obtain ⟨s', hnext, ht⟩ := of_run_cons ht
        have hP' : P s' := (hstep s b s' hs hP hnext).mpr hmeets.1
        exact (ih (hinv s b s' hs hnext) hP').mpr (hmeets.2 s' hnext) bs htail t ht

end

theorem runMeets_iff {fine : σ → ℓ → Prop}
    (hinv : ∀ s a s', I s → ok s a → step s a = some s' → I s')
    (hstep : ∀ s a s', I s → step s a = some s' → (fine s a ↔ ok s a)) (hs : I s)
    (hrun : run step s as = some s') :
    RunMeets step fine s as ↔ RunMeets step ok s as := by
  induction as generalizing s with
  | nil => exact Iff.rfl
  | cons a as ih =>
    obtain ⟨t, ht, hrun⟩ := of_run_cons hrun
    refine (and_congr_left' (hstep s a t hs ht)).trans (and_congr_right fun hok => ?_)
    refine forall_congr' fun u => imp_congr_right fun hu => ?_
    rw [ht] at hu
    cases hu
    exact ih (hinv s a t hs hok ht) hrun

/-- What holds at the end of a run that is known to end. -/
theorem exists_some_imp {o : Option σ} {A B : σ → Prop} (h : ∃ s ∈ o, A s)
    (hB : ∀ s, o = some s → A s → B s) : ∃ s ∈ o, B s := by
  obtain ⟨s, hs, hA⟩ := h
  exact ⟨s, hs, hB s hs hA⟩

end Run

section Logged

variable {σ ℓ ω : Type}

def logged (step : σ → ℓ → Option σ) (emit : σ → ℓ → List ω) (p : σ × List ω) (a : ℓ) :
    Option (σ × List ω) :=
  (step p.1 a).map fun s' => (s', p.2 ++ emit p.1 a)

variable {step : σ → ℓ → Option σ}

theorem logged_eq_some {emit : σ → ℓ → List ω} {p q : σ × List ω} {a : ℓ} :
    logged step emit p a = some q ↔ step p.1 a = some q.1 ∧ q.2 = p.2 ++ emit p.1 a := by
  rw [logged, Option.map_eq_some_iff]
  constructor
  · rintro ⟨s', hs', rfl⟩
    exact ⟨hs', rfl⟩
  · rintro ⟨hs', hq⟩
    exact ⟨q.1, hs', Prod.ext rfl hq.symm⟩

theorem exists_run_logged (emit : σ → ℓ → List ω) {s s' : σ} {as : List ℓ} {log : List ω}
    (h : run step s as = some s') :
    ∃ log', run (logged step emit) (s, log) as = some (s', log') := by
  have hstep : ∀ s (p : σ × List ω) a s', p.1 = s → step s a = some s' →
      ∃ q, logged step emit p a = some q ∧ q.1 = s' := by
    rintro _ p a s' rfl hstep
    exact ⟨(s', p.2 ++ emit p.1 a), logged_eq_some.mpr ⟨hstep, rfl⟩, rfl⟩
  obtain ⟨⟨t, log'⟩, hrun, ht⟩ := run_simulates hstep (t := (s, log)) rfl h
  subst ht
  exact ⟨log', hrun⟩

end Logged

end GoServices
