/-
The delay before the ledger retries a call of the payment gateway.

`BaseDelay << uint(attempt-1)` drops the bits above the 64th, and what is left may look like a
delay again.  `backoff` only replaces it when it is not positive or above `MaxDelay`.
-/
import GoServices.Base.FixedWidth

namespace GoServices.Ledger.Backoff

structure RetryConfig where
  baseDelay : Int
  maxDelay : Int

variable (cfg : RetryConfig)

/-- `d` in `backoff` before the jitter; the attempts of the retry loop count from one. -/
def RetryConfig.delay (attempt : Nat) : Int :=
  let d := int64 (cfg.baseDelay * 2 ^ (attempt - 1))
  if d ≤ 0 ∨ d > cfg.maxDelay then cfg.maxDelay else d

/-- `backoff`, where `draw` is what `rand.Int63n` returns. -/
def RetryConfig.backoff (attempt : Nat) (draw : Int) : Int :=
  cfg.delay attempt / 2 + draw

/-- The product fits, or what is left of it is replaced. -/
def RetryConfig.Caught (attempt : Nat) : Prop :=
  cfg.baseDelay * 2 ^ (attempt - 1) < 2 ^ 63 ∨ ¬ (0 < int64 (cfg.baseDelay * 2 ^ (attempt - 1)) ∧
      int64 (cfg.baseDelay * 2 ^ (attempt - 1)) < cfg.maxDelay)

/-- The delay is the capped product exactly when a product that wraps is replaced, and a jittered
delay lies between the integer half of the delay and all of it. -/
theorem backoff_exact {cfg : RetryConfig} (hbase : 0 < cfg.baseDelay)
    (hle : cfg.baseDelay ≤ cfg.maxDelay) (hmax : cfg.maxDelay < 2 ^ 63) {attempt : Nat} :
    (cfg.delay attempt = min cfg.maxDelay (cfg.baseDelay * 2 ^ (attempt - 1)) ↔
      cfg.Caught attempt) ∧
    ∀ draw, 0 ≤ draw → draw < cfg.delay attempt / 2 + 1 →
      cfg.delay attempt / 2 ≤ cfg.backoff attempt draw ∧
        cfg.backoff attempt draw ≤ cfg.delay attempt := by
  have hpos : 0 < cfg.baseDelay * 2 ^ (attempt - 1) := Int.mul_pos hbase (Int.pow_pos (by decide))
  have hfits : cfg.baseDelay * 2 ^ (attempt - 1) < 2 ^ 63 →
      int64 (cfg.baseDelay * 2 ^ (attempt - 1)) = cfg.baseDelay * 2 ^ (attempt - 1) :=
    fun hlt => int64_eq (by omega) hlt
  have hdelay : cfg.delay attempt = if int64 (cfg.baseDelay * 2 ^ (attempt - 1)) ≤ 0 ∨
      int64 (cfg.baseDelay * 2 ^ (attempt - 1)) > cfg.maxDelay then cfg.maxDelay
      else int64 (cfg.baseDelay * 2 ^ (attempt - 1)) := rfl
  refine ⟨?_, fun draw hdraw hlt => ?_⟩
  · rw [hdelay, RetryConfig.Caught]
    split <;> omega
  · rw [RetryConfig.backoff]
    omega

theorem backoff_exact_doubled :
    RetryConfig.delay ⟨200, 5000⟩ 3 = min 5000 (200 * 2 ^ 2) ∧
      RetryConfig.backoff ⟨200, 5000⟩ 3 400 ≤ 800 := by
  obtain ⟨hdelay, hjitter⟩ := @backoff_exact ⟨200, 5000⟩ (by decide) (by decide) (by decide) 3
  exact ⟨hdelay.mpr (.inl (by decide)), (hjitter 400 (by decide) (by decide)).2⟩

/-- The third attempt would wait four nanoseconds. -/
theorem wrapped_delay :
    RetryConfig.delay ⟨2 ^ 62 + 1, 2 ^ 63 - 1⟩ 3 = 4 ∧
      min (2 ^ 63 - 1) ((2 ^ 62 + 1) * 2 ^ 2 : Int) = 2 ^ 63 - 1 := by
  decide

end GoServices.Ledger.Backoff
