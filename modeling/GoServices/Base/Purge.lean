/-
Noninterference by purging.

A system answers each operation with an output.
-/
import GoServices.Base.Answers

namespace GoServices

section Purge

variable {σ α ω : Type} (step : σ → α → σ × ω)

/-- `same` compares the outputs of one operation. -/
structure Unwinding (keep : α → Bool) (ok : σ → α → Prop) (R : σ → σ → Prop)
    (same : ω → ω → Prop) : Prop where
  kept : ∀ {s t a}, R s t → keep a = true → ok s a →
    R (step s a).1 (step t a).1 ∧ same (step s a).2 (step t a).2
  purged : ∀ {s t a}, R s t → keep a = false → ok s a → R (step s a).1 t

variable {step} {keep : α → Bool} {ok : σ → α → Prop} {R : σ → σ → Prop} {same : ω → ω → Prop}

section
variable (h : Unwinding step keep ok R same) {s t : σ} {as : List α} (hst : R s t)
    (hok : StepsMeet step ok s as)
include h hst hok

theorem Unwinding.after : R (after step s as) (after step t (as.filter keep)) := by
  induction as generalizing s t with
  | nil => exact hst
  | cons a as ih =>
    obtain ⟨ha, hok⟩ := hok
    cases hk : keep a with
    | true =>
      rw [List.filter_cons_of_pos hk]
      exact ih (h.kept hst hk ha).1 hok
    | false =>
      rw [List.filter_cons_of_neg (by simp [hk])]
      exact ih (h.purged hst hk ha) hok

theorem Unwinding.answers :
    List.Forall₂ (fun x y => x.1 = y.1 ∧ same x.2 y.2)
      ((answers step s as).filter fun x => keep x.1) (answers step t (as.filter keep)) := by
  induction as generalizing s t with
  | nil => exact .nil
  | cons a as ih =>
    obtain ⟨ha, hok⟩ := hok
    cases hk : keep a with
    | true =>
      obtain ⟨hR, hsame⟩ := h.kept hst hk ha
      simp only [GoServices.answers, List.filter_cons, hk, if_true]
      exact .cons ⟨rfl, hsame⟩ (ih hR hok)
    | false =>
      simp only [GoServices.answers, List.filter_cons, hk, Bool.false_eq_true, if_false]
      exact ih (h.purged hst hk ha) hok

end

end Purge

end GoServices
