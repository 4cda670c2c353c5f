/-
Account balances in integer paise.

`money.Paise` is an `int64`, so `Add` and `Sub` wrap.
-/
import GoServices.Base.FixedWidth

namespace GoServices.Ledger

abbrev Paise := Int64

instance : AddCommGroup Paise where
  add_assoc := Int64.add_assoc
  zero_add := Int64.zero_add
  add_zero := Int64.add_zero
  nsmul := nsmulRec
  zsmul := zsmulRec
  neg_add_cancel := Int64.add_left_neg
  add_comm := Int64.add_comm
  sub_eq_add_neg := Int64.sub_eq_add_neg

def Paise.isNegative (p : Paise) : Bool := decide (p < 0)

inductive LedgerError
  | insufficientFunds
  | negativeAmount

structure Account where
  id : String
  balance : Paise

namespace Account

/-- The unexported `debit`, which runs with the account's lock held. -/
def debitLocked (a : Account) (amt : Paise) : Except LedgerError Account :=
  if Paise.isNegative (a.balance - amt) then .error .insufficientFunds
  else .ok { a with balance := a.balance - amt }

/-- The unexported `credit`, which runs with the account's lock held. -/
def creditLocked (a : Account) (amt : Paise) : Account :=
  { a with balance := a.balance + amt }

/-- `Account.Debit`, one critical section. -/
def debit (a : Account) (amt : Paise) : Except LedgerError Account :=
  if Paise.isNegative amt then .error .negativeAmount else a.debitLocked amt

/-- `Account.Credit`, one critical section. -/
def credit (a : Account) (amt : Paise) : Except LedgerError Account :=
  if Paise.isNegative amt then .error .negativeAmount else .ok (a.creditLocked amt)

theorem isNegative_eq_false {p : Paise} : Paise.isNegative p = false ↔ 0 ≤ p.toInt := by
  rw [Paise.isNegative, decide_eq_false_iff_not, Int64.lt_iff_toInt_lt, Int64.toInt_zero]
  omega

variable {a a' : Account} {amt : Paise}

theorem debit_eq_ok :
    a.debit amt = .ok a' ↔
      0 ≤ amt.toInt ∧ 0 ≤ (a.balance - amt).toInt ∧ a' = { a with balance := a.balance - amt } := by
  rw [← isNegative_eq_false, ← isNegative_eq_false, debit, debitLocked]
  cases Paise.isNegative amt
  · cases Paise.isNegative (a.balance - amt)
    · simp [eq_comm]
    · simp
  · simp

theorem debit_balance (h : a.debit amt = .ok a') :
    a'.balance = a.balance - amt := by
  rw [(debit_eq_ok.mp h).2.2]

theorem credit_eq_ok (hamt : 0 ≤ amt.toInt) :
    a.credit amt = .ok { a with balance := a.balance + amt } := by
  rw [credit, isNegative_eq_false.mpr hamt]
  rfl

theorem debit_toInt (hbal : 0 ≤ a.balance.toInt) (h : a.debit amt = .ok a') :
    a'.balance.toInt = a.balance.toInt - amt.toInt ∧ 0 ≤ a'.balance.toInt := by
  obtain ⟨hamt, hdiff, rfl⟩ := debit_eq_ok.mp h
  exact ⟨toInt_sub_of_nonneg hbal hamt, hdiff⟩

end Account

end GoServices.Ledger
