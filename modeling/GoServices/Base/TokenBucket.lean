/-
Token buckets over an ordered field.

`Metered` says of a trace of answers that each of them is covered: between two answers the level
rises by at most `rate` per unit of time, never above `burst`, and a granted request takes one
token.
-/
import Mathlib.Tactic

namespace GoServices.TokenBucket

variable {K : Type} [Field K] [LinearOrder K]

def cost (granted : Bool) : K := if granted then 1 else 0

def granted (s e : K) (trace : List (K × Bool)) : Nat :=
  trace.countP fun a => a.2 && decide (s ≤ a.1) && decide (a.1 ≤ e)

/-- The trace that follows an answer at `time` which left `level` tokens. -/
inductive Metered (burst rate : K) : K → K → List (K × Bool) → Prop
  | nil (time level : K) : Metered burst rate time level []
  | cons {time level time' level' : K} {answer : Bool} {trace : List (K × Bool)}
    (htime : time ≤ time') (hlevel : 0 ≤ level') (hburst : level' + cost answer ≤ burst)
    (hrefill : level' + cost answer ≤ level + rate * (time' - time))
    (htail : Metered burst rate time' level' trace) :
    Metered burst rate time level ((time', answer) :: trace)

section Granted

variable {burst rate time level s e : K} {trace : List (K × Bool)}

theorem granted_cons_of_mem {t : K} (hs : s ≤ t) (he : t ≤ e) (answer : Bool) :
    ((granted s e ((t, answer) :: trace) : Nat) : K) = granted s e trace + cost answer := by
  unfold granted
  cases answer <;> simp [cost, hs, he]

omit [Field K] in
theorem granted_cons_of_lt {t : K} (h : t < s ∨ e < t) (answer : Bool) :
    granted s e ((t, answer) :: trace) = granted s e trace := by
  unfold granted
  rcases h with h | h <;> simp [not_le.mpr h]

theorem Metered.times (h : Metered burst rate time level trace) : ∀ a ∈ trace, time ≤ a.1 := by
  induction h with
  | nil => exact fun _ h => absurd h List.not_mem_nil
  | cons htime _ _ _ _ ih =>
    intro a ha
    rcases List.mem_cons.mp ha with rfl | ha
    · exact htime
    · exact le_trans htime (ih a ha)

theorem Metered.granted_eq_zero (h : Metered burst rate time level trace) (he : e < time) :
    granted s e trace = 0 := by
  refine List.countP_eq_zero.mpr fun a ha => ?_
  have htime := lt_of_lt_of_le he (h.times a ha)
  simp [not_le.mpr htime]

variable [IsStrictOrderedRing K]

theorem Metered.granted_le_level (h : Metered burst rate time level trace) (hlevel : 0 ≤ level)
    (hrate : 0 ≤ rate) (hs : s ≤ time) (he : time ≤ e) :
    (granted s e trace : K) ≤ level + rate * (e - time) := by
  induction h with
  | nil =>
    have hrefill := mul_nonneg hrate (sub_nonneg.mpr he)
    exact le_trans (by simp [granted]) (add_nonneg hlevel hrefill)
  | @cons time level time' level' answer trace htime hlevel' _ hrefill htail ih =>
    rcases le_or_gt time' e with hin | hout
    · have hrest := ih hlevel' (le_trans hs htime) hin
      rw [granted_cons_of_mem (le_trans hs htime) hin]
      calc (granted s e trace : K) + cost answer
          ≤ level' + rate * (e - time') + cost answer := by linarith
        _ ≤ level + rate * (time' - time) + rate * (e - time') := by linarith
        _ = level + rate * (e - time) := by ring
    · rw [granted_cons_of_lt (.inr hout), htail.granted_eq_zero hout, Nat.cast_zero]
      exact add_nonneg hlevel (mul_nonneg hrate (sub_nonneg.mpr he))

theorem Metered.granted_le (h : Metered burst rate time level trace) (hburst : 0 ≤ burst)
    (hrate : 0 ≤ rate) (hse : s ≤ e) :
    (granted s e trace : K) ≤ burst + rate * (e - s) := by
  have hwindow : 0 ≤ rate * (e - s) := mul_nonneg hrate (sub_nonneg.mpr hse)
  induction h with
  | nil => exact le_trans (by simp [granted]) (add_nonneg hburst hwindow)
  | @cons time level time' level' answer trace _ hlevel' hfull _ htail ih =>
    rcases lt_or_ge time' s with hbefore | hin
    · rw [granted_cons_of_lt (.inl hbefore)]
      exact ih
    rcases le_or_gt time' e with hend | hout
    · -- The first answer of the window: what follows is bounded by its level.
      have hrest := htail.granted_le_level hlevel' hrate hin hend
      rw [granted_cons_of_mem hin hend]
      have hlater : rate * (e - time') ≤ rate * (e - s) :=
        mul_le_mul_of_nonneg_left (by linarith) hrate
      linarith
    · rw [granted_cons_of_lt (.inr hout), htail.granted_eq_zero hout, Nat.cast_zero]
      exact add_nonneg hburst hwindow

end Granted

end GoServices.TokenBucket
