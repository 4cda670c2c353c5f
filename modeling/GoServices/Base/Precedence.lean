/-
Lists in which everything comes after what has to come before it.

`before e x` says that `e` has to come before `x`, and `done` which elements have come already.
-/
import Mathlib.Tactic

namespace GoServices

open List

section Follows

variable {α : Type} {before before' : α → α → Prop} {done done' : α → Prop} {l l' : List α}

def Follows (before : α → α → Prop) (done : α → Prop) (l : List α) : Prop :=
  ∀ past x rest, l = past ++ x :: rest → ∀ e, before e x → done e ∨ e ∈ past

theorem follows_nil : Follows before done [] := by
  intro past x rest h
  cases (append_eq_nil_iff.mp h.symm).2

section
variable (h : Follows before done l)
include h

theorem Follows.mono (hbefore : ∀ x ∈ l, ∀ e, before' e x → before e x)
    (hdone : ∀ e, done e → done' e) : Follows before' done' l := by
  intro past x rest hl e he
  have hx : x ∈ l := by
    rw [hl]
    exact mem_append_right _ mem_cons_self
  exact (h past x rest hl e (hbefore x hx e he)).imp_left (hdone e)

theorem Follows.append (h' : Follows before (fun e => done e ∨ e ∈ l) l') :
    Follows before done (l ++ l') := by
  intro past x rest hl e he
  obtain ⟨mid, rfl, hmid⟩ | ⟨mid, rfl, hmid⟩ := append_eq_append_iff.mp hl
  · obtain hdone | hpast := h' mid x rest hmid e he
    · exact hdone.imp_right fun hmem => mem_append_left _ hmem
    · exact .inr (mem_append_right _ hpast)
  cases mid with
  | nil =>
    have hfirst := h' [] x rest hmid.symm e he
    simpa using hfirst
  | cons y mid =>
    cases hmid
    exact h past x mid rfl e he

theorem Follows.filter {p : α → Bool} (hp : ∀ x e, before e x → p x = true → p e = true) :
    Follows before done (l.filter p) := by
  intro past x rest hl e he
  obtain ⟨l₁, l₂, rfl, hpast, hrest⟩ := filter_eq_append_iff.mp hl
  obtain ⟨m₁, m₂, rfl, hm₁, hx, -⟩ := filter_eq_cons_iff.mp hrest
  have hsplit : l₁ ++ (m₁ ++ x :: m₂) = (l₁ ++ m₁) ++ x :: m₂ := (append_assoc _ _ _).symm
  obtain hdone | hmem := h _ x m₂ hsplit e he
  · exact .inl hdone
  have hpe := hp x e he hx
  obtain hl₁ | hm := mem_append.mp hmem
  · rw [← hpast]
    exact .inr (mem_filter.mpr ⟨hl₁, hpe⟩)
  · exact absurd hpe (hm₁ e hm)

end

end Follows

end GoServices
