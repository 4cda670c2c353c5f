/-
The text of an amount in rupees.

The smallest `int64` is its own negation, so `String` prints its rupees and its paise with signs
of their own.
-/
import GoServices.Base.Decimal
import GoServices.Base.Separator
import GoServices.Ledger.Account

namespace GoServices.Ledger

open List

/-- `%02d`. -/
def twoDigits (n : Int) : String :=
  if (toString n).length < 2 then "0" ++ toString n else toString n

/-- `v` in `String`. -/
def Paise.magnitude (p : Paise) : Paise := if p < 0 then -p else p

def Paise.string (p : Paise) : String :=
  (if p < 0 then "-" else "") ++ "₹" ++ toString (p.magnitude / 100).toInt ++ "." ++
    twoDigits (p.magnitude % 100).toInt

/-- A decimal number of rupees with two places, in paise. -/
def readAmount : List Char → Option Int
  | '₹' :: l =>
    match l.splitOn '.' with
    | [rupees, [a, b]] =>
      (parseDigits rupees).bind fun r => (parseDigits [a, b]).map fun q => (100 * r + q : Int)
    | _ => none
  | _ => none

def readRupees (l : List Char) : Option Int :=
  if l.head? = some '-' then (readAmount l.tail).map fun n => -n else readAmount l

/-- A sign, the symbol, the rupees without leading zeros, a dot and two digits, which read as the
amount. -/
def Rendered (p : Paise) (text : List Char) : Prop :=
  ∃ (rupees : Nat) (a b : Char), a.isDigit ∧ b.isDigit ∧
    text = (if p < 0 then ['-'] else []) ++ '₹' :: (rupees.repr.toList ++ ['.', a, b]) ∧
    readRupees text = some p.toInt

theorem twoDigits_lt : ∀ m < 100, (twoDigits (m : Nat)).toList.length = 2 ∧
    (twoDigits (m : Nat)).toList.all Char.isDigit ∧
    parseDigits (twoDigits (m : Nat)).toList = some m := by
  decide +kernel

theorem readAmount_text (r : Nat) {a b : Char} {q : Nat} (ha : a.isDigit) (hb : b.isDigit)
    (hq : parseDigits [a, b] = some q) :
    readAmount ('₹' :: (r.repr.toList ++ ['.', a, b])) = some (100 * r + q : Int) := by
  have hdot : ∀ c, c.isDigit = true → '.' ≠ c := by
    rintro c hc rfl
    exact absurd hc (by decide)
  have hrupees : '.' ∉ r.repr.toList := fun h => hdot _ (isDigit_of_mem_repr h) rfl
  have hpaise : '.' ∉ [a, b] := by simp [hdot a ha, hdot b hb]
  rw [readAmount, splitOn_separator, splitOn_of_notMem hrupees, splitOn_of_notMem hpaise]
  show (parseDigits r.repr.toList).bind _ = _
  rw [parseDigits_repr, hq]
  rfl

theorem magnitude_toInt {p : Paise} (h : p ≠ Int64.minValue) :
    p.magnitude.toInt = p.toInt.natAbs := by
  have hmin : p.toInt ≠ -2 ^ 63 := fun heq => h (Int64.toInt_inj.mp heq)
  have hlo := Int64.le_toInt p
  unfold Paise.magnitude
  split <;> rename_i hneg <;> rw [Int64.lt_iff_toInt_lt, Int64.toInt_zero] at hneg
  · rw [Int64.toInt_neg, Int.bmod_eq_of_le (by omega) (by omega)]
    omega
  · omega

theorem rendered_string {p : Paise} (h : p ≠ Int64.minValue) : Rendered p p.string.toList := by
  have hmag := magnitude_toInt h
  generalize hn : p.toInt.natAbs = n at hmag
  have hdiv : (p.magnitude / 100).toInt = (n / 100 : Nat) := by
    rw [Int64.toInt_div_of_ne_right _ _ (by decide), hmag]
    rfl
  have hmod : (p.magnitude % 100).toInt = (n % 100 : Nat) := by
    rw [Int64.toInt_mod, hmag]
    rfl
  obtain ⟨hlen, hall, hq⟩ := twoDigits_lt (n % 100) (Nat.mod_lt _ (by decide))
  obtain ⟨a, b, hab⟩ := length_eq_two.mp hlen
  rw [hab] at hall hq
  simp only [all_cons, all_nil, Bool.and_true, Bool.and_eq_true] at hall
  have hread := readAmount_text (n / 100) hall.1 hall.2 hq
  have htext : p.string.toList = (if p < 0 then ['-'] else []) ++
      '₹' :: ((n / 100).repr.toList ++ ['.', a, b]) := by
    rw [Paise.string, hdiv, hmod, show toString ((n / 100 : Nat) : Int) = (n / 100).repr from rfl]
    simp only [String.toList_append, hab]
    split <;> simp
  refine ⟨n / 100, a, b, hall.1, hall.2, htext, ?_⟩
  rw [htext]
  split <;> rename_i hneg <;> rw [Int64.lt_iff_toInt_lt, Int64.toInt_zero] at hneg
  · rw [singleton_append, readRupees, if_pos (by rfl), tail_cons, hread,
      Option.map_some, Option.some.injEq]
    omega
  · rw [nil_append, readRupees, if_neg (by simp), hread, Option.some.injEq]
    omega

/-- Every amount but the smallest is rendered, and no other amount has its text. -/
theorem string_rendered_iff (p : Paise) :
    (Rendered p p.string.toList ↔ p ≠ Int64.minValue) ∧
      ∀ q : Paise, q.string = p.string → q = p := by
  have hread : ∀ q : Paise, readRupees q.string.toList =
      if q = Int64.minValue then none else some q.toInt := by
    intro q
    split <;> rename_i hq
    · rw [hq]
      decide +kernel
    · obtain ⟨_, _, _, _, _, _, h⟩ := rendered_string hq
      exact h
  refine ⟨⟨?_, rendered_string⟩, fun q h => ?_⟩
  · rintro ⟨_, _, _, _, _, _, h⟩ rfl
    rw [hread, if_pos rfl] at h
    cases h
  · have hqp := hread q
    rw [h, hread p] at hqp
    split at hqp <;> split at hqp <;> simp_all [Int64.toInt_inj]

theorem smallest_string :
    Paise.string Int64.minValue = "-₹-92233720368547758.-8" := by
  decide +kernel

end GoServices.Ledger
