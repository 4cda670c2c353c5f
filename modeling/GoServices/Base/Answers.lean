/-
Systems that answer each operation with an output.

`answers` is the list of operations of a run with their outputs.
-/
import Mathlib.Tactic

namespace GoServices

section Answers

variable {σ α ω : Type} (step : σ → α → σ × ω)

def answers : σ → List α → List (α × ω)
  | _, [] => []
  | s, a :: as => (a, (step s a).2) :: answers (step s a).1 as

def after : σ → List α → σ
  | s, [] => s
  | s, a :: as => after (step s a).1 as

/-- Every operation meets `ok`, which reads the state before it. -/
def StepsMeet (ok : σ → α → Prop) : σ → List α → Prop
  | _, [] => True
  | s, a :: as => ok s a ∧ StepsMeet ok (step s a).1 as

instance StepsMeet.decidable (ok : σ → α → Prop) [∀ s a, Decidable (ok s a)] :
    ∀ s as, Decidable (StepsMeet step ok s as)
  | _, [] => isTrue trivial
  | s, a :: as =>
    have : Decidable (StepsMeet step ok (step s a).1 as) := StepsMeet.decidable ok _ as
    inferInstanceAs (Decidable (_ ∧ _))

end Answers

section Alike

variable {σ τ α ω : Type} (f : σ → α → σ × ω) (g : τ → α → τ × ω)

/-- The two systems answer every operation alike, and `P` holds before and after each. -/
def AlikeAlong (P : σ → τ → Prop) : σ → τ → List α → Prop
  | s, t, [] => P s t
  | s, t, a :: as =>
    P s t ∧ (f s a).2 = (g t a).2 ∧ AlikeAlong P (f s a).1 (g t a).1 as

variable {f g}

theorem AlikeAlong.answers_eq {P : σ → τ → Prop} {s : σ} {t : τ} {as : List α}
    (h : AlikeAlong f g P s t as) : answers f s as = answers g t as := by
  induction as generalizing s t with
  | nil => rfl
  | cons a as ih =>
    obtain ⟨_, hout, hrest⟩ := h
    rw [answers, answers, hout, ih hrest]

theorem alikeAlong_iff {P R : σ → τ → Prop} {ok : τ → α → Prop} (hlook : ∀ {s t}, R s t → P s t)
    (hok : ∀ {s t a}, R s t → ok t a → (f s a).2 = (g t a).2 ∧ R (f s a).1 (g t a).1)
    (hneeds : ∀ {s t a}, R s t → (f s a).2 = (g t a).2 → P (f s a).1 (g t a).1 → ok t a)
    {s : σ} {t : τ} (hst : R s t) (as : List α) :
    AlikeAlong f g P s t as ↔ StepsMeet g ok t as := by
  induction as generalizing s t with
  | nil => exact ⟨fun _ => trivial, fun _ => hlook hst⟩
  | cons a as ih =>
    constructor
    · rintro ⟨_, hout, hrest⟩
      have hlooks : P (f s a).1 (g t a).1 := by
        cases as with
        | nil => exact hrest
        | cons b bs => exact hrest.1
      have ha : ok t a := hneeds hst hout hlooks
      exact ⟨ha, (ih (hok hst ha).2).mp hrest⟩
    · rintro ⟨ha, hrest⟩
      exact ⟨hlook hst, (hok hst ha).1, (ih (hok hst ha).2).mpr hrest⟩

end Alike

section Same

variable {σ τ α ω ω' : Type} (f : σ → α → σ × ω) (g : τ → α → τ × ω') (same : ω → ω' → Prop)

/-- The two systems give the same answers, as `same` compares them. -/
def SameAnswers : σ → τ → List α → Prop
  | _, _, [] => True
  | s, t, a :: as => same (f s a).2 (g t a).2 ∧ SameAnswers (f s a).1 (g t a).1 as

variable {f g same} {ok : σ → α → Prop}

theorem stepsMeet_append (s : σ) (as bs : List α) :
    StepsMeet f ok s (as ++ bs) ↔ StepsMeet f ok s as ∧ StepsMeet f ok (after f s as) bs := by
  induction as generalizing s with
  | nil => exact (iff_of_eq (true_and _)).symm
  | cons a as ih =>
    refine (and_congr_right fun _ => ih (f s a).1).trans ?_
    exact and_assoc.symm

theorem sameAnswers_append (s : σ) (t : τ) (as bs : List α) :
    SameAnswers f g same s t (as ++ bs) ↔
      SameAnswers f g same s t as ∧ SameAnswers f g same (after f s as) (after g t as) bs := by
  induction as generalizing s t with
  | nil => exact (iff_of_eq (true_and _)).symm
  | cons a as ih =>
    refine (and_congr_right fun _ => ih (f s a).1 (g t a).1).trans ?_
    exact and_assoc.symm

theorem after_related {D : σ → τ → Prop} (hkept : ∀ {s t}, D s t → ∀ a, D (f s a).1 (g t a).1)
    {s : σ} {t : τ} (hst : D s t) (as : List α) : D (after f s as) (after g t as) := by
  induction as generalizing s t with
  | nil => exact hst
  | cons a as ih => exact ih (hkept hst a)

theorem sameAnswers_iff {R D : σ → τ → Prop}
    (hok : ∀ {s t a}, R s t → ok s a → same (f s a).2 (g t a).2 ∧ R (f s a).1 (g t a).1)
    (hbad : ∀ {s t a}, R s t → ¬ ok s a → same (f s a).2 (g t a).2 → D (f s a).1 (g t a).1)
    (hkept : ∀ {s t}, D s t → ∀ a, D (f s a).1 (g t a).1)
    (hshown : ∀ {s t}, D s t → ∃ bs, StepsMeet f ok s bs ∧ ¬ SameAnswers f g same s t bs) {s : σ}
    {t : τ} (hst : R s t) (as : List α) :
    (∀ bs, StepsMeet f ok (after f s as) bs → SameAnswers f g same s t (as ++ bs)) ↔
      StepsMeet f ok s as := by
  have halike {s : σ} {t : τ} (hst : R s t) (as : List α) (has : StepsMeet f ok s as) :
      SameAnswers f g same s t as := by
    induction as generalizing s t with
    | nil => trivial
    | cons a as ih => exact ⟨(hok hst has.1).1, ih (hok hst has.1).2 has.2⟩
  constructor
  · intro hsame
    induction as generalizing s t with
    | nil => trivial
    | cons a as ih =>
      have hout : same (f s a).2 (g t a).2 := (hsame [] trivial).1
      by_cases ha : ok s a
      · exact ⟨ha, ih (hok hst ha).2 fun bs hbs => (hsame bs hbs).2⟩
      -- the difference that the operation made is there at the end
      have hD := after_related hkept (hbad hst ha hout) as
      obtain ⟨bs, hbs, hdiffer⟩ := hshown hD
      exact absurd ((sameAnswers_append _ _ _ _).mp (hsame bs hbs).2).2 hdiffer
  · intro has bs hbs
    exact halike hst (as ++ bs) ((stepsMeet_append s as bs).mpr ⟨has, hbs⟩)

end Same

end GoServices
