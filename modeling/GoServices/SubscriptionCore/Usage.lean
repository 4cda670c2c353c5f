/-
Metered usage: the counter, the keys of the meter, and the flusher.

The meter counts under a key that spells out subject, feature and period.
-/
import GoServices.Base.FixedWidth
import GoServices.Base.Run
import GoServices.Base.Separator
import GoServices.Base.Table

namespace GoServices.SubscriptionCore.Usage

open List

/-! ## Keys -/

structure LedgerEntry where
  subject : String
  feature : String
  period : String
  amount : Int64
  deriving DecidableEq

/-- `Meter.key`; the period is the month in the form 2006-01. -/
def usageKey (subject feature period : String) : String :=
  "usage:" ++ subject ++ ":" ++ feature ++ ":" ++ period

def LedgerEntry.key (e : LedgerEntry) : String := usageKey e.subject e.feature e.period

def parseUsageKey (key : String) : Option LedgerEntry :=
  if "usage:".toList.isPrefixOf key.toList then
    let parts := (key.toList.drop 6).splitOn ':'
    match parts.reverse with
    | period :: feature :: last :: before =>
      let subject := [':'].intercalate (last :: before).reverse
      if subject = [] ∨ feature = [] ∨ period = [] then none
      else
        some { subject := .ofList subject, feature := .ofList feature, period := .ofList period,
               amount := 0 }
    | _ => none
  else none

variable {key : String}

theorem key_of_parseUsageKey {e : LedgerEntry} (h : parseUsageKey key = some e) :
    e.key = key := by
  unfold parseUsageKey at h
  split at h <;> try cases h
  rename_i hprefix
  obtain ⟨rest, hrest⟩ := isPrefixOf_iff_prefix.mp hprefix
  dsimp only at h
  split at h <;> try cases h
  rename_i period feature last before hparts
  split at h <;> cases h
  have hdrop : key.toList.drop 6 = rest := by
    rw [← hrest]
    rfl
  have hlist : rest.splitOn ':' = (last :: before).reverse ++ [feature] ++ [period] := by
    rw [← hdrop, ← reverse_reverse ((key.toList.drop 6).splitOn ':'), hparts]
    simp
  have hjoin : [':'].intercalate (rest.splitOn ':') = rest := intercalate_splitOn ':'
  rw [hlist, intercalate_append_singleton _ _ (by simp),
    intercalate_append_singleton _ _ (by simp)] at hjoin
  rw [← String.toList_inj, ← hrest, ← hjoin]
  simp [LedgerEntry.key, usageKey]

/-! ### Keys of the meter -/

section
variable {subject feature period : String}

theorem parseUsageKey_usageKey (hfeature : ':' ∉ feature.toList) (hperiod : ':' ∉ period.toList) :
    parseUsageKey (usageKey subject feature period) =
      if subject = "" ∨ feature = "" ∨ period = "" then none
      else some ⟨subject, feature, period, 0⟩ := by
  have hkey : (usageKey subject feature period).toList =
      "usage:".toList ++ (subject.toList ++ ':' :: (feature.toList ++ ':' :: period.toList)) := by
    simp [usageKey]
  have hparts : (subject.toList ++ ':' :: (feature.toList ++ ':' :: period.toList)).splitOn ':' =
      subject.toList.splitOn ':' ++ [feature.toList, period.toList] := by
    rw [splitOn_separator, splitOn_separator, splitOn_of_notMem hfeature, splitOn_of_notMem hperiod]
    rfl
  have hjoin : [':'].intercalate (subject.toList.splitOn ':') = subject.toList :=
    intercalate_splitOn ':'
  obtain ⟨last, before, hsubject⟩ := exists_cons_of_ne_nil
    (mt reverse_eq_nil_iff.mp (splitOn_ne_nil ':' subject.toList))
  have hdrop : ("usage:".toList ++
      (subject.toList ++ ':' :: (feature.toList ++ ':' :: period.toList))).drop 6 =
      subject.toList ++ ':' :: (feature.toList ++ ':' :: period.toList) := rfl
  rw [parseUsageKey, hkey, hdrop, hparts, if_pos (List.isPrefixOf_iff_prefix.mpr ⟨_, rfl⟩)]
  simp only [reverse_append, hsubject, reverse_cons, reverse_nil, nil_append, cons_append]
  rw [← reverse_cons, ← hsubject, reverse_reverse, hjoin]
  simp only [String.toList_eq_nil_iff, String.ofList_toList]

theorem usageKey_of_colon {before after : List Char}
    (hfeature : feature.toList = before ++ ':' :: after) :
    usageKey subject feature period =
      usageKey (subject ++ ":" ++ .ofList before) (.ofList after) period := by
  rw [← String.toList_inj]
  simp [usageKey, hfeature]

end

/-- The key of a subject and a feature is read back exactly when the feature has no colon, and
such features and their subjects have different keys. -/
theorem usage_key_read_back {subject feature period : String} (hsubject : subject ≠ "")
    (hfeature : feature ≠ "") (hperiod : period ≠ "" ∧ ':' ∉ period.toList) :
    (parseUsageKey (usageKey subject feature period) = some ⟨subject, feature, period, 0⟩ ↔
      ':' ∉ feature.toList) ∧
    (':' ∉ feature.toList → ∀ subject' feature', ':' ∉ feature'.toList →
      usageKey subject feature period = usageKey subject' feature' period →
        subject = subject' ∧ feature = feature') := by
  have hread (h : ':' ∉ feature.toList) : parseUsageKey (usageKey subject feature period) =
      some ⟨subject, feature, period, 0⟩ := by
    rw [parseUsageKey_usageKey h hperiod.2, if_neg]
    simp only [hsubject, hfeature, hperiod.1, or_self, not_false_eq_true]
  refine ⟨⟨fun h hcolon => ?_, hread⟩, fun h subject' feature' h' heq => ?_⟩
  · -- What stands before the last colon of the feature is read as part of the subject.
    obtain ⟨before, after, hsplit, hafter⟩ := exists_last_separator hcolon
    rw [usageKey_of_colon hsplit, parseUsageKey_usageKey (by simpa using hafter) hperiod.2] at h
    split at h <;> try cases h
    have hlength := congrArg (fun e => e.map (·.subject.toList.length)) h
    simp at hlength
  · have hparsed := hread h
    rw [heq, parseUsageKey_usageKey h' hperiod.2] at hparsed
    split at hparsed <;> cases hparsed
    exact ⟨rfl, rfl⟩

theorem usage_key_read_back_colons :
    parseUsageKey (usageKey "team:42" "api_calls" "2026-11") =
      some ⟨"team:42", "api_calls", "2026-11", 0⟩ :=
  ((usage_key_read_back (by decide) (by decide) (by decide)).1).mpr (by decide)

/-- Two features of different subjects have the same key. -/
theorem usage_key_shared :
    usageKey "team" "api:calls" "2026-11" = usageKey "team:api" "calls" "2026-11" ∧
      parseUsageKey (usageKey "team" "api:calls" "2026-11") =
        some ⟨"team:api", "calls", "2026-11", 0⟩ := by
  decide

/-! ## The flusher -/

structure State where
  counter : Table String Int64
  ledger : List LedgerEntry
  flushed : Table String Int64

def State.new : State := { counter := .empty, ledger := [], flushed := .empty }

/-- The map read `m[key]`. -/
def value (m : Table String Int64) (key : String) : Int64 := (m.get? key).getD 0

def incr (s : State) (key : String) (n : Int64) : State :=
  { s with counter := s.counter.set key (value s.counter key + n) }

/-- What `FlushOnce` returns: the entries written, and whether an `Append` failed. -/
structure FlushResult where
  written : Nat
  failed : Bool

/-- A successful `Append` of the difference to `total`, and the note of it. -/
def State.append (s : State) (key : String) (entry : LedgerEntry) (total : Int64) : State :=
  { s with
    ledger := s.ledger ++ [{ entry with amount := total - value s.flushed key }]
    flushed := s.flushed.set key total }

/-- The loop of `FlushOnce` over the keys of the snapshot; `Append` fails for the keys in
`fails`, and then writes nothing. -/
def flushLoop (snap : Table String Int64) (fails : List String) :
    List String → State → Nat → State × FlushResult
  | [], s, written => (s, { written := written, failed := false })
  | key :: keys, s, written =>
    if value snap key - value s.flushed key = 0 then flushLoop snap fails keys s written
    else
      match parseUsageKey key with
      | none => flushLoop snap fails keys s written
      | some entry =>
        if key ∈ fails then (s, { written := written, failed := true })
        else flushLoop snap fails keys (s.append key entry (value snap key)) (written + 1)

/-- `FlushOnce`; a range over a map goes through the keys in any order. -/
def flushOnce (s : State) (order fails : List String) : State × FlushResult :=
  flushLoop s.counter fails order s 0

inductive Label
  | record (subject feature period : String) (n : Int64)
  | flush (order fails : List String)
  | restart

def step (s : State) : Label → Option State
  | .record subject feature period n => some (incr s (usageKey subject feature period) n)
  | .flush order fails =>
    if order.Perm s.counter.keys then some (flushOnce s order fails).1 else none
  | .restart => some { s with flushed := .empty }

/-! ## What the ledger holds -/

def ledgerTotal (ledger : List LedgerEntry) (key : String) : Int :=
  ((ledger.filter fun e => e.key = key).map fun e => e.amount.toInt).sum

theorem ledgerTotal_append (ledger : List LedgerEntry) (e : LedgerEntry) (key : String) :
    ledgerTotal (ledger ++ [e]) key =
      ledgerTotal ledger key + if e.key = key then e.amount.toInt else 0 := by
  unfold ledgerTotal
  by_cases h : e.key = key
  · simp [h]
  · simp [h]

theorem value_set (m : Table String Int64) (key : String) (v : Int64) (k : String) :
    value (m.set key v) k = if k = key then v else value m k := by
  unfold value
  rw [Table.get?_set]
  split <;> rfl

variable (snap : Table String Int64)

theorem flushLoop_cases (fails : List String) (key : String)
    (keys : List String) (s : State) (written : Nat) :
    (flushLoop snap fails (key :: keys) s written = flushLoop snap fails keys s written ∧
        ((parseUsageKey key).isSome → value s.flushed key = value snap key)) ∨
      flushLoop snap fails (key :: keys) s written = (s, { written := written, failed := true }) ∨
      ∃ entry, parseUsageKey key = some entry ∧ flushLoop snap fails (key :: keys) s written =
          flushLoop snap fails keys (s.append key entry (value snap key)) (written + 1) := by
  rw [flushLoop]
  split
  · rename_i hdelta
    have hsame : value snap key = value s.flushed key := by
      rw [Int64.sub_eq_iff_eq_add.mp hdelta, Int64.zero_add]
    exact Or.inl ⟨rfl, fun _ => hsame.symm⟩
  split
  · rename_i hparse
    exact Or.inl ⟨rfl, fun h => by rw [hparse] at h; cases h⟩
  rename_i entry hparse
  split
  · exact Or.inr (Or.inl rfl)
  · exact Or.inr (Or.inr ⟨entry, hparse, rfl⟩)

/-- The flusher remembers what the ledger got since the process started, when it had `base`,
and that is at most what was counted. -/
structure Inv (base : String → Int) (s : State) : Prop where
  ledger : ∀ key, ledgerTotal s.ledger key = base key + (value s.flushed key).toInt
  nonneg : ∀ key, 0 ≤ (value s.flushed key).toInt
  within : ∀ key, (value s.flushed key).toInt ≤ (value s.counter key).toInt
  skipped : ∀ key, parseUsageKey key = none → value s.flushed key = 0

theorem inv_new : Inv (fun _ => 0) .new where
  ledger _ := rfl
  nonneg _ := le_rfl
  within _ := le_rfl
  skipped _ _ := rfl

variable {base : String → Int} {s : State}

theorem Inv.append (hs : Inv base s) {entry : LedgerEntry}
    (hentry : parseUsageKey key = some entry) :
    Inv base (s.append key entry (value s.counter key)) where
  ledger k := by
    have hkey : LedgerEntry.key
        { entry with amount := value s.counter key - value s.flushed key } = key :=
      (key_of_parseUsageKey hentry : entry.key = key)
    have hdelta := toInt_sub_of_nonneg ((hs.nonneg key).trans (hs.within key)) (hs.nonneg key)
    show ledgerTotal (s.ledger ++ _) k = base k + (value (s.flushed.set key _) k).toInt
    rw [ledgerTotal_append, hkey, value_set, hs.ledger k]
    by_cases hk : k = key
    · subst hk
      rw [if_pos rfl, if_pos rfl]
      show _ + (value s.counter k - value s.flushed k).toInt = _
      omega
    · rw [if_neg (Ne.symm hk), if_neg hk, add_zero]
  nonneg k := by
    show 0 ≤ (value (s.flushed.set key _) k).toInt
    rw [value_set]
    split
    · exact (hs.nonneg key).trans (hs.within key)
    · exact hs.nonneg k
  within k := by
    show (value (s.flushed.set key _) k).toInt ≤ (value s.counter k).toInt
    rw [value_set]
    split
    · rename_i hk
      rw [hk]
    · exact hs.within k
  skipped k hnone := by
    show value (s.flushed.set key _) k = 0
    rw [value_set]
    split
    · rename_i hk
      rw [hk, hentry] at hnone
      cases hnone
    · exact hs.skipped k hnone

variable (fails keys : List String)

theorem flushLoop_counter (s : State)
    (written : Nat) : (flushLoop snap fails keys s written).1.counter = s.counter := by
  induction keys generalizing s written with
  | nil => rfl
  | cons key keys ih =>
    rcases flushLoop_cases snap fails key keys s written with ⟨h, _⟩ | h | ⟨entry, _, h⟩
    · rw [h, ih]
    · rw [h]
    · rw [h, ih]
      rfl

theorem Inv.flushLoop (hs : Inv base s) (written : Nat) :
    Inv base (Usage.flushLoop s.counter fails keys s written).1 := by
  induction keys generalizing s written with
  | nil => exact hs
  | cons key keys ih =>
    rcases flushLoop_cases s.counter fails key keys s written with
      ⟨h, _⟩ | h | ⟨entry, hentry, h⟩
    · rw [h]
      exact ih hs written
    · rw [h]
      exact hs
    · rw [h]
      exact ih (hs.append hentry) (written + 1)

theorem flushLoop_noted (written : Nat)
    {k : String} (hk : value s.flushed k = value snap k) :
    value (flushLoop snap fails keys s written).1.flushed k = value snap k := by
  induction keys generalizing s written with
  | nil => exact hk
  | cons key keys ih =>
    rcases flushLoop_cases snap fails key keys s written with ⟨h, _⟩ | h | ⟨entry, _, h⟩
    · rw [h, ih written hk]
    · rw [h, hk]
    rw [h]
    apply ih
    show value (s.flushed.set key (value snap key)) k = value snap k
    rw [value_set]
    split
    · rename_i heq
      rw [heq]
    · exact hk

theorem flushLoop_complete {written : Nat}
    (hok : (flushLoop snap fails keys s written).2.failed = false) {k : String} (hk : k ∈ keys)
    (hparse : (parseUsageKey k).isSome) :
    value (flushLoop snap fails keys s written).1.flushed k = value snap k := by
  induction keys generalizing s written with
  | nil => cases hk
  | cons key keys ih =>
    rcases flushLoop_cases snap fails key keys s written with ⟨h, hsame⟩ | h | ⟨entry, _, h⟩
    · rw [h] at hok ⊢
      rcases mem_cons.mp hk with rfl | hk
      · exact flushLoop_noted snap fails keys written (hsame hparse)
      · exact ih hok hk
    · rw [h] at hok
      cases hok
    rw [h] at hok ⊢
    rcases mem_cons.mp hk with rfl | hk
    · apply flushLoop_noted
      show value (s.flushed.set k (value snap k)) k = value snap k
      rw [value_set, if_pos rfl]
    · exact ih hok hk

/-! ## Runs -/

def Regular (s : State) : Label → Prop
  | .record subject feature period n =>
    0 ≤ n.toInt ∧ (value s.counter (usageKey subject feature period)).toInt + n.toInt < 2 ^ 63
  | .flush _ _ => True
  | .restart => s.ledger = []

instance (s : State) (a : Label) : Decidable (Regular s a) := by
  cases a <;> unfold Regular <;> infer_instance

theorem Inv.incr (hs : Inv base s) {n : Int64} (hn : 0 ≤ n.toInt)
    (hlt : (value s.counter key).toInt + n.toInt < 2 ^ 63) :
    Inv base (Usage.incr s key n) := { hs with
  within := fun k => by
    show (value s.flushed k).toInt ≤ (value (s.counter.set key _) k).toInt
    rw [value_set]
    split
    · rename_i hk
      subst hk
      have hle := hs.within k
      have hadd := toInt_add_of_lt ((hs.nonneg k).trans hle) hn hlt
      omega
    · exact hs.within k }

theorem Inv.restart (hs : Inv base s) :
    Inv (ledgerTotal s.ledger) { s with flushed := .empty } where
  ledger key := (add_zero (ledgerTotal s.ledger key)).symm
  nonneg _ := le_rfl
  within key := (hs.nonneg key).trans (hs.within key)
  skipped _ _ := rfl

theorem Inv.step {s' : State} {a : Label} (hs : Inv (fun _ => 0) s) (ha : Regular s a)
    (h : Usage.step s a = some s') : Inv (fun _ => 0) s' := by
  cases a with
  | record subject feature period n =>
    cases h
    exact hs.incr ha.1 ha.2
  | flush order fails =>
    simp only [Usage.step] at h
    split at h <;> cases h
    exact hs.flushLoop fails order 0
  | restart =>
    cases h
    have hnothing : s.ledger = [] := ha
    have hzero : ledgerTotal s.ledger = fun _ => 0 := by
      rw [hnothing]
      rfl
    exact hzero ▸ hs.restart

theorem Inv.flushed_all (hs : Inv base s) {order fails : List String}
    (horder : order.Perm s.counter.keys) (hok : (flushOnce s order fails).2.failed = false)
    (key : String) :
    ledgerTotal (flushOnce s order fails).1.ledger key =
      base key + if (parseUsageKey key).isSome then (value s.counter key).toInt else 0 := by
  have hinv : Inv base (flushOnce s order fails).1 := hs.flushLoop fails order 0
  rw [hinv.ledger]
  congr 1
  split
  · rename_i hparse
    by_cases hmem : key ∈ order
    · exact congrArg Int64.toInt (flushLoop_complete s.counter fails order hok hmem hparse)
    have hnone : s.counter.get? key = none := by
      by_contra hne
      exact hmem (horder.mem_iff.mpr (Table.mem_keys.mpr (Option.ne_none_iff_exists'.mp hne)))
    have hzero : value s.counter key = 0 := by rw [value, hnone]; rfl
    have hle := hinv.within key
    have hge := hinv.nonneg key
    rw [show (flushOnce s order fails).1.counter = s.counter from
      flushLoop_counter s.counter fails order s 0, hzero] at hle
    rw [hzero]
    exact le_antisymm hle hge
  · rename_i hparse
    rw [hinv.skipped key (Option.not_isSome_iff_eq_none.mp hparse)]
    rfl

/-- While amounts are not negative, the counter does not wrap and no restart follows a write,
the ledger never has more than the counter, and right after a flush without an error it has
the whole count of every key that `parseUsageKey` takes (and nothing of the others). -/
theorem ledger_follows_counter (labels : List Label) (s : State)
    (hregular : RunMeets step Regular .new labels) (hrun : run step .new labels = some s) :
    (∀ key, ledgerTotal s.ledger key ≤ (value s.counter key).toInt) ∧
    ∀ order fails, order.Perm s.counter.keys → (flushOnce s order fails).2.failed = false →
      ∀ key, ledgerTotal (flushOnce s order fails).1.ledger key =
        if (parseUsageKey key).isSome then (value (flushOnce s order fails).1.counter key).toInt
        else 0 := by
  have hinv : Inv (fun _ => 0) s :=
    run_invariant_of_meets (I := Inv fun _ => 0) (fun s a s' hs ha h => hs.step ha h) inv_new
      hregular hrun
  constructor
  · intro key
    rw [hinv.ledger, zero_add]
    exact hinv.within key
  intro order fails horder hok key
  rw [show (flushOnce s order fails).1.counter = s.counter from
    flushLoop_counter s.counter fails order s 0]
  rw [hinv.flushed_all horder hok key, zero_add]

/-- A restart before anything was written, an `Append` that fails, and a retry. -/
def demoRun : List Label :=
  [.record "cus:1" "seats" "2026-07" 5, .restart,
    .flush ["usage:cus:1:seats:2026-07"] ["usage:cus:1:seats:2026-07"],
    .record "cus:1" "seats" "2026-07" 2,
    .flush ["usage:cus:1:seats:2026-07"] []]

theorem ledger_follows_counter_retried :
    ∃ s, run step .new demoRun = some s ∧ s.ledger.length = 1 ∧
      ∀ key, ledgerTotal s.ledger key ≤ (value s.counter key).toInt := by
  refine ⟨_, rfl, by decide +kernel, ?_⟩
  exact (ledger_follows_counter demoRun _ (by decide +kernel) rfl).1

/-- The new process has an empty `flushed` map: five units that were counted once are written
to the ledger twice. -/
theorem restart_writes_usage_twice :
    ∃ s, run step .new
        [.record "cus" "seats" "2026-07" 5, .flush ["usage:cus:seats:2026-07"] [], .restart,
          .flush ["usage:cus:seats:2026-07"] []] = some s ∧
      (value s.counter "usage:cus:seats:2026-07").toInt = 5 ∧
      ledgerTotal s.ledger "usage:cus:seats:2026-07" = 10 := by
  refine ⟨_, rfl, ?_, ?_⟩
  · decide +kernel
  · decide +kernel

end GoServices.SubscriptionCore.Usage
