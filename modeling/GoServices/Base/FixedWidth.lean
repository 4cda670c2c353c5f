/-
Signed machine arithmetic: the conversions to 32 and 64 bits, and where they and the
64-bit operations do not wrap.
-/
import Mathlib.Tactic

namespace GoServices

variable {p q : Int64} {x : Int}

theorem toInt_sub_of_nonneg (hp : 0 ≤ p.toInt) (hq : 0 ≤ q.toInt) :
    (p - q).toInt = p.toInt - q.toInt := by
  have hp' := Int64.toInt_lt p
  have hq' := Int64.toInt_lt q
  rw [Int64.toInt_sub]
  exact Int.bmod_eq_of_le (by omega) (by omega)

theorem toInt_add_of_lt (hp : 0 ≤ p.toInt) (hq : 0 ≤ q.toInt)
    (h : p.toInt + q.toInt < 2 ^ 63) : (p + q).toInt = p.toInt + q.toInt := by
  rw [Int64.toInt_add]
  exact Int.bmod_eq_of_le (by omega) (by omega)

def int32 (x : Int) : Int := x.bmod (2 ^ 32)

def int64 (x : Int) : Int := x.bmod (2 ^ 64)

theorem int32_eq (hlo : -2 ^ 31 ≤ x) (hhi : x < 2 ^ 31) : int32 x = x :=
  Int.bmod_eq_of_le (by omega) (by omega)

theorem int32_lt (x : Int) : int32 x < 2 ^ 31 := by
  have h := Int.bmod_lt (m := 2 ^ 32) (x := x) (by decide)
  simpa [int32] using h

theorem le_int32 (x : Int) : -2 ^ 31 ≤ int32 x := by
  have h := Int.le_bmod (m := 2 ^ 32) (x := x) (by decide)
  simpa [int32] using h

theorem int32_le (h : -2 ^ 31 ≤ x) : int32 x ≤ x := by
  by_cases hhi : x < 2 ^ 31
  · exact (int32_eq h hhi).le
  · exact (int32_lt x).le.trans (not_lt.mp hhi)

theorem int64_eq (hlo : -2 ^ 63 ≤ x) (hhi : x < 2 ^ 63) : int64 x = x :=
  Int.bmod_eq_of_le (by omega) (by omega)

theorem le_int64 (h : x < 2 ^ 63) : x ≤ int64 x := by
  by_cases hlo : -2 ^ 63 ≤ x
  · exact le_of_eq (int64_eq hlo h).symm
  have hwrap := Int.le_bmod (m := 2 ^ 64) (x := x) (by decide)
  simp only [int64]
  omega

end GoServices
