/-
The sharded token-bucket limiter: `Allow` and the sweeper.

`Allow` refills the bucket of the key by the time since its last use and takes a token.
-/
import GoServices.Base.FixedWidth
import GoServices.Base.Table
import GoServices.Base.TokenBucket

namespace GoServices.Gateway.RateLimiter

open List TokenBucket

def defaultShardCount : Nat := 256

def second : Int := 10 ^ 9
def minute : Int := 60 * second

structure Bucket where
  tokens : ℚ
  lastSeen : Int

/-- `Limiter`, with the hash that spreads the keys over the shards. -/
structure Limiter where
  sum32 : String → Nat
  rate : ℚ
  burst : ℚ
  idleTTL : Int
  shards : Fin defaultShardCount → Table String Bucket

def idleTTL (ratePerSecond : ℚ) (burst : Int) : Int :=
  let ttl := int64 (int64 ⌊(burst : ℚ) / ratePerSecond * 4⌋ * second)
  if ttl < minute then minute else ttl

def newWithClock (sum32 : String → Nat) (ratePerSecond : ℚ) (burst : Int) : Limiter where
  sum32 := sum32
  rate := ratePerSecond
  burst := burst
  idleTTL := idleTTL ratePerSecond burst
  shards := fun _ => .empty

/-- `Time.Sub`, which stays within the range of a duration. -/
def timeSub (t u : Int) : Int := max (-2 ^ 63) (min (t - u) (2 ^ 63 - 1))

def seconds (d : Int) : ℚ := d / second

namespace Limiter

variable (l : Limiter)

def shardFor (key : String) : Fin defaultShardCount :=
  ⟨l.sum32 key % defaultShardCount, Nat.mod_lt _ (by decide)⟩

def setShard (i : Fin defaultShardCount) (buckets : Table String Bucket) : Limiter :=
  { l with shards := Function.update l.shards i buckets }

/-- The loop body of `sweep` for one shard, with the reading that the sweep began with. -/
def sweepShard (i : Fin defaultShardCount) (now : Int) : Limiter :=
  let cutoff := now - l.idleTTL
  l.setShard i ((l.shards i).filter fun _ b => !decide (b.lastSeen < cutoff))

def refill (b : Bucket) (now : Int) : ℚ :=
  let tokens := b.tokens + seconds (timeSub now b.lastSeen) * l.rate
  if tokens > l.burst then l.burst else tokens

def allow (key : String) (now : Int) : Limiter × Bool :=
  let i := l.shardFor key
  match (l.shards i).get? key with
  | none => (l.setShard i ((l.shards i).set key ⟨l.burst - 1, now⟩), true)
  | some b =>
    let tokens := l.refill b now
    if tokens < 1 then (l.setShard i ((l.shards i).set key ⟨tokens, now⟩), false)
    else (l.setShard i ((l.shards i).set key ⟨tokens - 1, now⟩), true)

end Limiter

inductive Op
  | allow (key : String) (now : Int)
  | sweep (shard : Fin defaultShardCount) (now : Int)

def Op.now : Op → Int
  | .allow _ now | .sweep _ now => now

def answers (key : String) : Limiter → List Op → List (Int × Bool)
  | _, [] => []
  | l, .sweep i now :: ops => answers key (l.sweepShard i now) ops
  | l, .allow k now :: ops =>
    let (l', ok) := l.allow k now
    if k = key then (now, ok) :: answers key l' ops else answers key l' ops

def allowed (s t : Int) (as : List (Int × Bool)) : Nat :=
  as.countP fun a => a.2 && decide (s ≤ a.1) && decide (a.1 ≤ t)

def InOrder (key : String) (ops : List Op) : Prop :=
  ops.Pairwise fun a b => ∀ t, b = .allow key t → match a with
    | .allow k now => k = key → now ≤ t
    | .sweep _ now => now ≤ t

/-! ## The buckets -/

theorem timeSub_spec {t u : Int} (h : u ≤ t) : 0 ≤ timeSub t u ∧ timeSub t u ≤ t - u := by
  unfold timeSub
  omega

theorem seconds_mul (d : Int) (rate : ℚ) : seconds d * rate = rate / second * d := by
  unfold seconds
  ring

theorem burst_le_idleTTL {rate : ℚ} {burst : Int} (hrate : 0 < rate) (hburst : 1 ≤ burst)
    (httl : ⌊(burst : ℚ) / rate * 4⌋ * second < 2 ^ 63) :
    (burst : ℚ) ≤ rate / second * idleTTL rate burst := by
  set q : ℚ := (burst : ℚ) / rate with hq
  have hburst' : (1 : ℚ) ≤ burst := by exact_mod_cast hburst
  have hpos : 0 < q := div_pos (by linarith) hrate
  have hfloor : 0 ≤ ⌊q * 4⌋ := Int.floor_nonneg.mpr (by linarith)
  have hsecond : (1 : Int) ≤ second := by decide
  have hsmall : ⌊q * 4⌋ ≤ ⌊q * 4⌋ * second := le_mul_of_one_le_right hfloor hsecond
  -- No conversion wraps.
  have hconvert : int64 (int64 ⌊q * 4⌋ * second) = ⌊q * 4⌋ * second := by
    rw [int64_eq (x := ⌊q * 4⌋) (by omega) (by omega), int64_eq (by omega) httl]
  suffices hfull : q * second ≤ idleTTL rate burst by
    have heq : (burst : ℚ) = rate / second * (q * second) := by
      rw [hq]
      field_simp
    rw [heq]
    exact mul_le_mul_of_nonneg_left hfull (by positivity)
  have hlt := Int.lt_floor_add_one (q * 4)
  simp only [idleTTL, ← hq, hconvert]
  split
  · -- Below a minute the fill time is at most a quarter of it.
    rename_i hminute
    have hminutes : ⌊q * 4⌋ < 60 := by
      exact lt_of_mul_lt_mul_right hminute (by decide)
    have hcast : ((⌊q * 4⌋ : Int) : ℚ) ≤ 59 := by exact_mod_cast (by omega : ⌊q * 4⌋ ≤ 59)
    simp only [minute, second]
    push_cast
    linarith
  · rename_i hminute
    have hminutes : 60 ≤ ⌊q * 4⌋ := by
      exact le_of_mul_le_mul_right (not_lt.mp hminute) (by decide)
    have hcast : (60 : ℚ) ≤ ((⌊q * 4⌋ : Int) : ℚ) := by exact_mod_cast hminutes
    push_cast
    have hq15 : q ≤ (⌊q * 4⌋ : Int) := by linarith
    exact mul_le_mul_of_nonneg_right hq15 (by norm_num [second])

namespace Limiter

variable (l : Limiter) (key : String)

def bucket : Option Bucket := (l.shards (l.shardFor key)).get? key

theorem bucket_setShard (i : Fin defaultShardCount) (buckets : Table String Bucket)
    (key : String) :
    (l.setShard i buckets).bucket key =
      if l.shardFor key = i then buckets.get? key else l.bucket key := by
  have hread : (l.setShard i buckets).bucket key =
      (Function.update l.shards i buckets (l.shardFor key)).get? key := rfl
  rw [hread, Function.update_apply]
  split
  · rfl
  · rfl

theorem bucket_set_self (b : Bucket) :
    (l.setShard (l.shardFor key) ((l.shards (l.shardFor key)).set key b)).bucket key = some b := by
  rw [bucket_setShard, if_pos rfl, Table.get?_set_self]

theorem bucket_set_of_ne {k key : String} (hne : k ≠ key) (b : Bucket) :
    (l.setShard (l.shardFor k) ((l.shards (l.shardFor k)).set k b)).bucket key = l.bucket key := by
  rw [bucket_setShard]
  split
  · rename_i hshard
    rw [Table.get?_set, if_neg (Ne.symm hne), bucket, hshard]
  · rfl

theorem bucket_sweepShard (i : Fin defaultShardCount) (now : Int) (key : String) :
    (l.sweepShard i now).bucket key = l.bucket key ∨ (l.sweepShard i now).bucket key = none ∧
        ∃ b, l.bucket key = some b ∧ b.lastSeen < now - l.idleTTL := by
  rw [sweepShard, bucket_setShard]
  split
  · rename_i hshard
    rw [Table.get?_filter, ← hshard, ← bucket]
    cases l.bucket key with
    | none => exact .inl rfl
    | some b =>
      by_cases hold : b.lastSeen < now - l.idleTTL
      · exact .inr ⟨by simp [Option.filter, hold], b, rfl, hold⟩
      · exact .inl (by simp [Option.filter, hold])
  · exact .inl rfl

theorem refill_spec {l : Limiter} {b : Bucket} {now : Int} (hrate : 0 ≤ l.rate)
    (hburst : 0 ≤ l.burst) (htokens : 0 ≤ b.tokens) (hnow : b.lastSeen ≤ now) :
    0 ≤ l.refill b now ∧ l.refill b now ≤ l.burst ∧
      l.refill b now ≤ b.tokens + l.rate / second * (now - b.lastSeen) := by
  obtain ⟨hnonneg, hle⟩ := timeSub_spec hnow
  have hsecond : (0 : ℚ) < second := by norm_num [second]
  have hunit : 0 ≤ l.rate / second := by positivity
  have hgain : 0 ≤ l.rate / second * timeSub now b.lastSeen :=
    mul_nonneg hunit (by exact_mod_cast hnonneg)
  have hbound : l.rate / second * timeSub now b.lastSeen ≤ l.rate / second * (now - b.lastSeen) :=
    mul_le_mul_of_nonneg_left (by exact_mod_cast hle) hunit
  simp only [refill, seconds_mul]
  split
  · exact ⟨hburst, le_rfl, by linarith⟩
  · rename_i hfull
    exact ⟨by linarith, not_lt.mp hfull, by linarith⟩

theorem allow_spec (now : Int) :
    ∃ level, (l.allow key now).1 =
        l.setShard (l.shardFor key) ((l.shards (l.shardFor key)).set key ⟨level, now⟩) ∧
      (l.bucket key = none ∧ (l.allow key now).2 = true ∧ level = l.burst - 1 ∨
        ∃ b, l.bucket key = some b ∧ level + cost (l.allow key now).2 = l.refill b now ∧
          (0 ≤ l.refill b now → 0 ≤ level)) := by
  cases hbucket : (l.shards (l.shardFor key)).get? key with
  | none =>
    have hallow : l.allow key now = (l.setShard (l.shardFor key)
        ((l.shards (l.shardFor key)).set key ⟨l.burst - 1, now⟩), true) := by
      simp only [allow, hbucket]
    rw [hallow]
    exact ⟨_, rfl, .inl ⟨hbucket, rfl, rfl⟩⟩
  | some b =>
    by_cases hempty : l.refill b now < 1
    · have hallow : l.allow key now = (l.setShard (l.shardFor key)
          ((l.shards (l.shardFor key)).set key ⟨l.refill b now, now⟩), false) := by
        simp only [allow, hbucket, hempty, if_true]
      rw [hallow]
      exact ⟨_, rfl, .inr ⟨b, hbucket, add_zero _, id⟩⟩
    have hallow : l.allow key now = (l.setShard (l.shardFor key)
        ((l.shards (l.shardFor key)).set key ⟨l.refill b now - 1, now⟩), true) := by
      simp only [allow, hbucket, hempty, if_false]
    rw [hallow]
    refine ⟨_, rfl, .inr ⟨b, hbucket, sub_add_cancel _ _, fun _ => ?_⟩⟩
    exact sub_nonneg.mpr (not_lt.mp hempty)

theorem allow_config (now : Int) :
    (l.allow key now).1.burst = l.burst ∧ (l.allow key now).1.rate = l.rate := by
  obtain ⟨_, hallow, -⟩ := l.allow_spec key now
  rw [hallow]
  exact ⟨rfl, rfl⟩

end Limiter

/-! ## Whole sequences -/

/-- The limiter before `ops`, for a key whose last call was at `time` and left `level` tokens.
Where the bucket is gone, it would be full at every call that is still to come. -/
structure Follows (l : Limiter) (key : String) (ops : List Op) (time : Int) (level : ℚ) : Prop where
  rate_pos : 0 < l.rate
  one_le_burst : 1 ≤ l.burst
  full : l.burst ≤ l.rate / second * l.idleTTL
  level_nonneg : 0 ≤ level
  later : ∀ t, .allow key t ∈ ops → time ≤ t
  bucket : l.bucket key = some ⟨level, time⟩ ∨ l.bucket key = none ∧ ∀ t : Int, .allow key t ∈ ops →
      l.burst ≤ level + l.rate / second * (t - time)

section Follows

variable {l : Limiter} {key : String} {ops : List Op} {time : Int} {level : ℚ}

theorem Follows.sweep {i : Fin defaultShardCount} {now : Int}
    (h : Follows l key (.sweep i now :: ops) time level)
    (horder : InOrder key (.sweep i now :: ops)) :
    Follows (l.sweepShard i now) key ops time level := by
  have hlater : ∀ t, .allow key t ∈ ops → time ≤ t := fun t ht => h.later t (mem_cons_of_mem _ ht)
  refine ⟨h.rate_pos, h.one_le_burst, h.full, h.level_nonneg, hlater, ?_⟩
  obtain hsame | ⟨hnone, b, hb, hidle⟩ := l.bucket_sweepShard i now key
  · rw [hsame]
    exact h.bucket.imp_right fun ⟨hnone, hfull⟩ =>
      ⟨hnone, fun t ht => hfull t (mem_cons_of_mem _ ht)⟩
  refine .inr ⟨hnone, fun t ht => ?_⟩
  obtain hbucket | ⟨hgone, -⟩ := h.bucket
  · -- The evicted bucket was idle for `idleTTL` at the sweep, and the call is not earlier.
    rw [hb] at hbucket
    cases hbucket
    have hsweep : now ≤ t := (pairwise_cons.mp horder).1 _ ht t rfl
    have hwait : (l.idleTTL : ℚ) ≤ t - time := by
      have : l.idleTTL ≤ t - time := by
        simp only at hidle
        omega
      exact_mod_cast this
    have hrate := h.rate_pos
    have hunit : 0 ≤ l.rate / second := by
      have : (0 : ℚ) < second := by norm_num [second]
      positivity
    calc l.burst ≤ l.rate / second * l.idleTTL := h.full
      _ ≤ l.rate / second * (t - time) := mul_le_mul_of_nonneg_left hwait hunit
      _ ≤ level + l.rate / second * (t - time) := le_add_of_nonneg_left h.level_nonneg
  · rw [hb] at hgone
    cases hgone

theorem Follows.other {k : String} {now : Int} (hne : k ≠ key)
    (h : Follows l key (.allow k now :: ops) time level) :
    Follows (l.allow k now).1 key ops time level := by
  obtain ⟨level', hnext, -⟩ := l.allow_spec k now
  rw [hnext]
  have hlater : ∀ t, .allow key t ∈ ops → time ≤ t := fun t ht => h.later t (mem_cons_of_mem _ ht)
  refine ⟨h.rate_pos, h.one_le_burst, h.full, h.level_nonneg, hlater, ?_⟩
  rw [l.bucket_set_of_ne hne]
  exact h.bucket.imp_right fun ⟨hnone, hfull⟩ =>
    ⟨hnone, fun t ht => hfull t (mem_cons_of_mem _ ht)⟩

theorem Follows.call {now : Int} (h : Follows l key (.allow key now :: ops) time level)
    (horder : InOrder key (.allow key now :: ops)) :
    ∃ level', Follows (l.allow key now).1 key ops now level' ∧ time ≤ now ∧ 0 ≤ level' ∧
      level' + cost (l.allow key now).2 ≤ l.burst ∧
      level' + cost (l.allow key now).2 ≤
        level + l.rate / second * ((now : ℚ) - time) := by
  have htime : time ≤ now := h.later now mem_cons_self
  obtain ⟨level', hnext, hcases⟩ := l.allow_spec key now
  suffices hbounds : 0 ≤ level' ∧ level' + cost (l.allow key now).2 ≤ l.burst ∧
      level' + cost (l.allow key now).2 ≤
        level + l.rate / second * ((now : ℚ) - time) by
    refine ⟨level', ?_, htime, hbounds⟩
    rw [hnext]
    have hlater : ∀ t, .allow key t ∈ ops → now ≤ t :=
      fun t ht => (pairwise_cons.mp horder).1 _ ht t rfl rfl
    exact ⟨h.rate_pos, h.one_le_burst, h.full, hbounds.1, hlater, .inl (l.bucket_set_self key _)⟩
  have hburst := h.one_le_burst
  obtain ⟨hnone, hok, rfl⟩ | ⟨b, hb, hlevel, hnonneg⟩ := hcases
  · obtain hbucket | ⟨-, hfull⟩ := h.bucket
    · rw [hnone] at hbucket
      cases hbucket
    have hcovered := hfull now mem_cons_self
    rw [hok]
    refine ⟨sub_nonneg.mpr hburst, ?_, ?_⟩
    · exact le_of_eq (sub_add_cancel _ _)
    · exact (le_of_eq (sub_add_cancel _ _)).trans hcovered
  obtain hbucket | ⟨hnone, -⟩ := h.bucket
  · rw [hb] at hbucket
    cases hbucket
    obtain ⟨hrefill, hmax, hgain⟩ :=
      Limiter.refill_spec (b := ⟨level, time⟩) (le_of_lt h.rate_pos) (by linarith)
        h.level_nonneg htime
    rw [hlevel]
    exact ⟨hnonneg hrefill, hmax, hgain⟩
  · rw [hb] at hnone
    cases hnone

end Follows

theorem answers_metered {key : String} {ops : List Op} (horder : InOrder key ops) {l : Limiter}
    {time : Int} {level : ℚ} (h : Follows l key ops time level) :
    TokenBucket.Metered l.burst (l.rate / second) time level
      ((answers key l ops).map fun a => ((a.1 : ℚ), a.2)) := by
  induction ops generalizing l time level with
  | nil => exact .nil _ _
  | cons op ops ih =>
    have horder' : InOrder key ops := (pairwise_cons.mp horder).2
    cases op with
    | sweep i now => exact ih horder' (h.sweep horder)
    | allow k now =>
      by_cases hk : k = key
      · subst hk
        obtain ⟨level', hnext, htime, hnonneg, hmax, hgain⟩ := h.call horder
        have htail := ih horder' hnext
        rw [(l.allow_config k now).1, (l.allow_config k now).2] at htail
        simp only [answers, if_true, map_cons]
        exact .cons (by exact_mod_cast htime) hnonneg hmax hgain htail
      · have htail := ih horder' (h.other hk)
        rw [(l.allow_config k now).1, (l.allow_config k now).2] at htail
        simp only [answers, hk, if_false]
        exact htail

theorem granted_map (s t : Int) (as : List (Int × Bool)) :
    granted (s : ℚ) t (as.map fun a => ((a.1 : ℚ), a.2)) = allowed s t as := by
  unfold granted allowed
  rw [countP_map]
  refine countP_congr fun a _ => ?_
  simp

/-- However the calls and the sweeps come, the requests allowed for a key in an interval are
at most the burst and what the rate gives for the interval. -/
theorem allowed_le_burst_add_rate (sum32 : String → Nat) {rate : ℚ} {burst : Int}
    (hrate : 0 < rate) (hburst : 1 ≤ burst)
    (httl : ⌊(burst : ℚ) / rate * 4⌋ * second < 2 ^ 63) {key : String} {ops : List Op}
    (horder : InOrder key ops) {s t : Int} (hst : s ≤ t) :
    (allowed s t (answers key (newWithClock sum32 rate burst) ops) : ℚ) ≤
      burst + rate * seconds (t - s) := by
  have hburst' : (1 : ℚ) ≤ burst := by exact_mod_cast hburst
  -- The empty limiter is as after a call in the past that left a full bucket.
  obtain ⟨time, htime⟩ : ∃ time : Int, ∀ t, .allow key t ∈ ops → time ≤ t := by
    obtain ⟨m, hm⟩ := (ops.map Op.now).toFinset.bddBelow
    refine ⟨m, fun t ht => hm ?_⟩
    exact mem_toFinset.mpr (mem_map.mpr ⟨_, ht, rfl⟩)
  have hunit : 0 ≤ rate / second := by
    have : (0 : ℚ) < second := by norm_num [second]
    positivity
  have hfollows : Follows (newWithClock sum32 rate burst) key ops time burst := by
    refine ⟨hrate, hburst', burst_le_idleTTL hrate hburst httl, by linarith, htime, .inr ⟨rfl, ?_⟩⟩
    intro t ht
    have hwait : (0 : ℚ) ≤ t - time := sub_nonneg.mpr (by exact_mod_cast htime t ht)
    exact le_add_of_nonneg_right (mul_nonneg hunit hwait)
  have hbound := (answers_metered horder hfollows).granted_le (s := (s : ℚ)) (e := t)
    (by show (0 : ℚ) ≤ burst; linarith) hunit (by exact_mod_cast hst)
  rw [granted_map] at hbound
  refine le_trans hbound (le_of_eq ?_)
  rw [mul_comm rate (seconds _), seconds_mul]
  push_cast
  rfl

def sampleOps : List Op :=
  [.allow "caller" 0, .allow "caller" 0, .allow "caller" 0,
    .sweep ⟨0, by decide⟩ (2 * minute), .allow "caller" (2 * minute)]

theorem allowed_le_burst_add_rate_swept :
    answers "caller" (newWithClock (fun _ => 0) 1 2) sampleOps =
        [(0, true), (0, true), (0, false), (2 * minute, true)] ∧
      (allowed 0 second (answers "caller" (newWithClock (fun _ => 0) 1 2) sampleOps) : ℚ) ≤
        (2 : Int) + 1 * seconds (second - 0) := by
  refine ⟨by decide +kernel, allowed_le_burst_add_rate _ (by norm_num) (by norm_num) ?_ ?_ ?_⟩
  · decide +kernel
  · simp [InOrder, sampleOps, minute, second]
  · decide

end GoServices.Gateway.RateLimiter
