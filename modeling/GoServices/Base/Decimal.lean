/-
Decimal numbers as `strconv` reads and `%d` writes them.
-/
import Mathlib.Tactic

namespace GoServices

def parseDigits (l : List Char) : Option Nat :=
  if l ≠ [] ∧ l.all Char.isDigit then some (Nat.ofDigitChars 10 l 0) else none

/-- `strconv.Atoi`, and `strconv.ParseInt` with base 10 and 64 bits. -/
def parseInt : List Char → Option Int
  | '-' :: l => (parseDigits l).bind fun n => if n ≤ 2 ^ 63 then some (-n) else none
  | '+' :: l | l => (parseDigits l).bind fun n => if n < 2 ^ 63 then some n else none

theorem parseDigits_repr (n : Nat) : parseDigits n.repr.toList = some n := by
  rw [Nat.repr_eq_ofList_toDigits, String.toList_ofList, parseDigits, if_pos]
  · rw [Nat.ofDigitChars_ten_toDigits]
  · refine ⟨Nat.toDigits_ne_nil, List.all_eq_true.mpr fun c hc => ?_⟩
    exact Nat.isDigit_of_mem_toDigits (by decide) le_rfl hc

theorem isDigit_of_mem_repr {n : Nat} {c : Char} (hc : c ∈ n.repr.toList) : c.isDigit = true := by
  rw [Nat.repr_eq_ofList_toDigits, String.toList_ofList] at hc
  exact Nat.isDigit_of_mem_toDigits (by decide) le_rfl hc

theorem parseInt_repr {n : Nat} (h : n < 2 ^ 63) : parseInt n.repr.toList = some n := by
  have hdigits := parseDigits_repr n
  have hdigit := fun c => isDigit_of_mem_repr (n := n) (c := c)
  revert hdigits hdigit
  cases n.repr.toList with
  | nil => exact nofun
  | cons c l =>
    intro hdigits hdigit
    have hc := hdigit c List.mem_cons_self
    rw [parseInt, hdigits]
    · exact if_pos h
    · rintro l' heq
      cases heq
      cases hc
    rintro l' heq
    cases heq
    cases hc

theorem parseInt_toString {n : Int} (h : -2 ^ 63 ≤ n ∧ n < 2 ^ 63) :
    parseInt (toString n).toList = some n := by
  cases n with
  | ofNat n =>
    have hlt := h.2
    rw [Int.ofNat_eq_natCast] at hlt
    exact parseInt_repr (by omega)
  | negSucc n =>
    have htext : (toString (Int.negSucc n)).toList = '-' :: (n + 1).repr.toList := by
      show ("-" ++ (n + 1).repr).toList = _
      simp
    rw [htext, parseInt, parseDigits_repr]
    exact if_pos (by omega)

theorem notMem_toString {c : Char} (hdigit : c.isDigit = false) (hminus : c ≠ '-') (n : Int) :
    c ∉ (toString n).toList := by
  have hrepr : ∀ m : Nat, c ∉ m.repr.toList := fun m hc => by
    simp [isDigit_of_mem_repr hc] at hdigit
  cases n with
  | ofNat n => exact hrepr n
  | negSucc n =>
    show c ∉ ("-" ++ (n + 1).repr).toList
    simp_all

end GoServices
