/-
The delay before a dispatcher tries an event again.

`delay` doubles only below half of `MaxBackoff`, so the 64-bit product is the exact one.
-/
import GoServices.Base.FixedWidth
import GoServices.OrderService.Dispatcher

namespace GoServices.OrderService.RetryPolicy

/-- The loop with the product as the machine computes it. -/
def delayLoop64 (maxBackoff : Int) : Nat → Int → Int
  | 0, delay => if delay > maxBackoff then maxBackoff else delay
  | n + 1, delay =>
    if delay ≥ maxBackoff.tdiv 2 then maxBackoff
    else delayLoop64 maxBackoff n (int64 (delay * 2))

/-- `delay` on 64-bit numbers; the loop runs for `i` from 1 to below `attempt`. -/
def delay64 (p : RetryPolicy) (attempt : Int) : Int :=
  if p.baseBackoff ≤ 0 then 0
  else delayLoop64 p.maxBackoff (attempt - 1).toNat p.baseBackoff

section
variable {maxBackoff : Int} (hmax : 0 < maxBackoff)
include hmax

theorem delayLoop64_eq (hfits : maxBackoff < 2 ^ 63) {n : Nat} {delay : Int} (hdelay : 0 < delay) :
    delayLoop64 maxBackoff n delay = delayLoop maxBackoff n delay := by
  induction n generalizing delay with
  | zero => rfl
  | succ n ih =>
    rw [delayLoop64, delayLoop, Int.tdiv_eq_ediv_of_nonneg hmax.le]
    split
    · rfl
    · rw [int64_eq (by omega) (by omega)]
      exact ih (by omega)

theorem delayLoop_bounds {n : Nat} {delay : Int} (hdelay : 0 < delay) :
    0 < delayLoop maxBackoff n delay ∧ delayLoop maxBackoff n delay ≤ maxBackoff ∧
      min maxBackoff (delay * 2 ^ n) ≤ delayLoop maxBackoff n delay := by
  induction n generalizing delay with
  | zero =>
    rw [delayLoop, Int.pow_zero]
    split <;> omega
  | succ n ih =>
    rw [delayLoop]
    split
    · omega
    · rw [pow_succ', ← mul_assoc]
      exact ih (by omega)

end

theorem delayLoop_le_succ (maxBackoff : Int) {n : Nat} {delay : Int} (hdelay : 0 < delay) :
    delayLoop maxBackoff n delay ≤ delayLoop maxBackoff (n + 1) delay := by
  induction n generalizing delay with
  | zero =>
    simp only [delayLoop]
    split <;> split <;> (try split) <;> omega
  | succ n ih =>
    rw [delayLoop, delayLoop]
    split
    · exact le_rfl
    · exact ih (by omega)

/-- The delay is computed without a wrap, is positive and at most `MaxBackoff`, never falls from
one attempt to a later one, and is at least the doubled base or `MaxBackoff`. -/
theorem delay_bounded {p : RetryPolicy} (hbase : 0 < p.baseBackoff) (hmax : 0 < p.maxBackoff)
    (hfits : p.maxBackoff < 2 ^ 63) (attempt : Int) :
    p.delay64 attempt = p.delay attempt.toNat ∧
    0 < p.delay64 attempt ∧ p.delay64 attempt ≤ p.maxBackoff ∧
    (∀ later, attempt ≤ later → p.delay64 attempt ≤ p.delay64 later) ∧
    min p.maxBackoff (p.baseBackoff * 2 ^ (attempt - 1).toNat) ≤ p.delay64 attempt := by
  have heq : ∀ attempt, p.delay64 attempt =
      delayLoop p.maxBackoff (attempt - 1).toNat p.baseBackoff := by
    intro attempt
    rw [delay64, if_neg (by omega), delayLoop64_eq hmax hfits hbase]
  have hmono : Monotone fun n => delayLoop p.maxBackoff n p.baseBackoff :=
    monotone_nat_of_le_succ fun n => delayLoop_le_succ _ hbase
  obtain ⟨hpos, hle, hmin⟩ := delayLoop_bounds hmax (n := (attempt - 1).toNat) hbase
  rw [heq attempt]
  refine ⟨?_, hpos, hle, fun later hlater => ?_, hmin⟩
  · rw [delay, if_neg (by omega), show attempt.toNat - 1 = (attempt - 1).toNat by omega]
  · rw [heq later]
    exact hmono (by omega)

theorem delay_bounded_halved :
    delay64 ⟨8, 1, 3⟩ 2 = 3 ∧ delay64 ⟨8, 1, 3⟩ 2 ≤ delay64 ⟨8, 1, 3⟩ 9 := by
  have h := @delay_bounded ⟨8, 1, 3⟩ (by decide) (by decide) (by decide) 2
  exact ⟨by decide, h.2.2.2.1 9 (by decide)⟩

end GoServices.OrderService.RetryPolicy
