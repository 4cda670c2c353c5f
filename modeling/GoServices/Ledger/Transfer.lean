/-
Moving money between the accounts of a book.

A `Book` maps the ID of each opened account to its balance.
-/
import GoServices.Base.Run
import GoServices.Base.Table
import GoServices.Ledger.Account

namespace GoServices.Ledger

open List Table Paise

/-- The balances of the opened accounts by `Account.ID`. -/
abbrev Book := Table String Paise

inductive TransferError
  | ledger (e : LedgerError)
  | sameAccount

namespace Book

def account (b : Book) (id : String) : Account :=
  { id := id, balance := (b.get? id).getD 0 }

def update (b : Book) (id : String) : Except LedgerError Account → Book × Except LedgerError Unit
  | .error e => (b, .error e)
  | .ok a => (b.set id a.balance, .ok ())

def debit (b : Book) (id : String) (amt : Paise) : Book × Except LedgerError Unit :=
  b.update id ((b.account id).debit amt)

def credit (b : Book) (id : String) (amt : Paise) : Book × Except LedgerError Unit :=
  b.update id ((b.account id).credit amt)

def debitLocked (b : Book) (id : String) (amt : Paise) : Book × Except LedgerError Unit :=
  b.update id ((b.account id).debitLocked amt)

def creditLocked (b : Book) (id : String) (amt : Paise) : Book :=
  b.set id ((b.account id).creditLocked amt).balance

/-- `ledger.Transfer`, whose debit and credit run with both locks held. -/
def transfer (b : Book) (src dst : String) (amt : Paise) : Book × Except TransferError Unit :=
  if isNegative amt then (b, .error (.ledger .negativeAmount))
  else if src = dst then (b, .error .sameAccount)
  else
    match b.debitLocked src amt with
    | (b', .error e) => (b', .error (.ledger e))
    | (b', .ok ()) => (b'.creditLocked dst amt, .ok ())

def Solvent (b : Book) : Prop := ∀ id p, b.get? id = some p → 0 ≤ p.toInt
  deriving Decidable

def sum (b : Book) : Int := b.total fun _ p => p.toInt

variable {b : Book} {id : String} {p : Paise}

theorem sum_set (h : b.get? id = some p) (q : Paise) :
    Book.sum (b.set id q) = b.sum + q.toInt - p.toInt := by
  have htotal : Book.sum (b.set id q) + p.toInt = q.toInt + b.sum :=
    total_set_of_some (fun _ p => Int64.toInt p) h q
  omega

theorem le_sum (hb : b.Solvent) (h : b.get? id = some p) :
    p.toInt ≤ b.sum :=
  single_le_total (f := fun _ p => Int64.toInt p) hb h

theorem solvent_set (hb : b.Solvent) (id : String) {q : Paise} (hq : 0 ≤ q.toInt) :
    Book.Solvent (b.set id q) := by
  intro j p hp
  rcases set_cases hp with ⟨-, rfl⟩ | ⟨-, hp⟩
  · exact hq
  · exact hb j p hp

theorem account_of_some (h : b.get? id = some p) :
    b.account id = { id := id, balance := p } := by
  rw [account, h, Option.getD_some]

variable {b' : Book} {amt : Paise}

section
variable (hb : b.Solvent) (hp : b.get? id = some p) (hamt : 0 ≤ amt.toInt)
include hb hp hamt

theorem debitLocked_spec (h : b.debitLocked id amt = (b', .ok ())) :
    b' = b.set id (p - amt) ∧ b'.Solvent ∧ b'.sum = b.sum - amt.toInt := by
  rw [debitLocked, account_of_some hp, Account.debitLocked] at h
  cases hneg : isNegative (p - amt) with
  | true =>
    rw [if_pos hneg] at h
    cases h
  | false =>
    have hdiff : 0 ≤ (p - amt).toInt := Account.isNegative_eq_false.mp hneg
    have hexact := toInt_sub_of_nonneg (hb id p hp) hamt
    have hsum := sum_set hp (p - amt)
    rw [if_neg (by simp [hneg])] at h
    cases h
    exact ⟨rfl, solvent_set hb id hdiff, hsum.trans (by omega)⟩

theorem creditLocked_spec (hfit : b.sum + amt.toInt < 2 ^ 63) :
    (b.creditLocked id amt).Solvent ∧ (b.creditLocked id amt).sum = b.sum + amt.toInt := by
  have hle := le_sum hb hp
  have hnonneg := hb id p hp
  have hexact : (p + amt).toInt = p.toInt + amt.toInt := toInt_add_of_lt hnonneg hamt (by omega)
  have hsum := sum_set hp (p + amt)
  rw [creditLocked, account_of_some hp]
  exact ⟨solvent_set hb id (hexact ▸ Int.add_nonneg hnonneg hamt), hsum.trans (by omega)⟩

end

theorem debit_eq (b : Book) (id : String) (amt : Paise) :
    b.debit id amt =
      if isNegative amt then (b, .error .negativeAmount) else b.debitLocked id amt := by
  rw [debit, Account.debit, debitLocked]
  cases isNegative amt
  · rfl
  · rfl

theorem credit_eq (b : Book) (id : String) (amt : Paise) :
    b.credit id amt = if isNegative amt then (b, .error .negativeAmount)
      else (b.creditLocked id amt, .ok ()) := by
  rw [credit, Account.credit, creditLocked]
  cases isNegative amt
  · rfl
  · rfl

theorem debitLocked_error {e : LedgerError} (h : b.debitLocked id amt = (b', .error e)) :
    b' = b := by
  rw [debitLocked] at h
  cases hd : (b.account id).debitLocked amt with
  | error e' =>
    rw [hd] at h
    exact (Prod.mk.inj h).1.symm
  | ok a =>
    rw [hd] at h
    cases h

/-! ## Calls and runs -/

inductive Call
  | transfer (src dst : String) (amt : Paise)
  | debit (id : String) (amt : Paise)
  | credit (id : String) (amt : Paise)

def Call.accounts : Call → List String
  | .transfer src dst _ => [src, dst]
  | .debit id _ | .credit id _ => [id]

def lift : Book × Except LedgerError Unit → Book × Except TransferError Unit
  | (b, r) => (b, r.mapError .ledger)

def call (b : Book) : Call → Book × Except TransferError Unit
  | .transfer src dst amt => b.transfer src dst amt
  | .debit id amt => lift (b.debit id amt)
  | .credit id amt => lift (b.credit id amt)

def Call.opened (b : Book) (c : Call) : Prop := ∀ id ∈ c.accounts, ∃ p, b.get? id = some p

instance (b : Book) (c : Call) : Decidable (c.opened b) :=
  decidable_of_iff (∀ id ∈ c.accounts, (b.get? id).isSome)
    (by simp only [Call.opened, Option.isSome_iff_exists])

def step (b : Book) (c : Call) : Option Book := if c.opened b then some (b.call c).1 else none

/-- A call with what it returned. -/
abbrev Entry := Call × Except TransferError Unit

def entry (b : Book) (c : Call) : Entry := (c, (b.call c).2)

def Entry.credited : Entry → Int
  | (.credit _ amt, .ok ()) => amt.toInt
  | _ => 0

def Entry.debited : Entry → Int
  | (.debit _ amt, .ok ()) => amt.toInt
  | _ => 0

def credited (log : List Entry) : Int := (log.map Entry.credited).sum

def debited (log : List Entry) : Int := (log.map Entry.debited).sum

theorem credited_append (log : List Entry) (e : Entry) :
    credited (log ++ [e]) = credited log + e.credited := by
  rw [credited, credited, map_append, sum_append, map_singleton, sum_singleton]

theorem debited_append (log : List Entry) (e : Entry) :
    debited (log ++ [e]) = debited log + e.debited := by
  rw [debited, debited, map_append, sum_append, map_singleton, sum_singleton]

/-! ## What a call returns -/

theorem lift_eq_ok {r : Book × Except LedgerError Unit} :
    lift r = (b', .ok ()) ↔ r = (b', .ok ()) := by
  obtain ⟨b, e | u⟩ := r
  all_goals simp [lift, Except.mapError]

theorem call_debit_eq_ok :
    b.call (.debit id amt) = (b', .ok ()) ↔
      0 ≤ amt.toInt ∧ b.debitLocked id amt = (b', .ok ()) := by
  rw [call, lift_eq_ok, debit_eq, ← Account.isNegative_eq_false]
  cases isNegative amt
  · simp
  · simp

theorem call_credit_eq_ok :
    b.call (.credit id amt) = (b', .ok ()) ↔ 0 ≤ amt.toInt ∧ b.creditLocked id amt = b' := by
  rw [call, lift_eq_ok, credit_eq, ← Account.isNegative_eq_false]
  cases isNegative amt
  · simp
  · simp

theorem call_transfer_eq_ok {src dst : String} :
    b.call (.transfer src dst amt) = (b', .ok ()) ↔ 0 ≤ amt.toInt ∧ src ≠ dst ∧
        ∃ b₁, b.debitLocked src amt = (b₁, .ok ()) ∧ b₁.creditLocked dst amt = b' := by
  rw [call, transfer, ← Account.isNegative_eq_false]
  cases isNegative amt with
  | true => simp
  | false =>
    by_cases hne : src = dst
    · simp [hne]
    rcases hd : b.debitLocked src amt with ⟨b₁, e | u⟩
    · simp [hne]
    · simp [hne]

variable {c : Call}

theorem call_error {e : TransferError} (h : b.call c = (b', .error e)) :
    b' = b := by
  cases c with
  | transfer src dst amt =>
    rw [call, transfer] at h
    split at h
    · exact (Prod.mk.inj h).1.symm
    split at h
    · exact (Prod.mk.inj h).1.symm
    split at h
    · rename_i b₁ e' hd
      rw [← (Prod.mk.inj h).1, debitLocked_error hd]
    · cases h
  | debit id amt =>
    rw [call, debit_eq] at h
    split at h
    · exact (Prod.mk.inj h).1.symm
    rcases hd : b.debitLocked id amt with ⟨b₁, e' | u⟩
    · rw [hd] at h
      rw [← (Prod.mk.inj h).1, debitLocked_error hd]
    · rw [hd] at h
      cases h
  | credit id amt =>
    rw [call, credit_eq] at h
    split at h
    · exact (Prod.mk.inj h).1.symm
    · cases h

/-! ## Conservation -/

theorem entry_nonneg (b : Book) (c : Call) :
    0 ≤ (b.entry c).credited ∧ 0 ≤ (b.entry c).debited := by
  rw [entry]
  rcases hcall : b.call c with ⟨b', e | u⟩
  · cases c <;> exact ⟨le_rfl, le_rfl⟩
  cases c with
  | transfer src dst amt => exact ⟨le_rfl, le_rfl⟩
  | debit id amt => exact ⟨le_rfl, (call_debit_eq_ok.mp hcall).1⟩
  | credit id amt => exact ⟨(call_credit_eq_ok.mp hcall).1, le_rfl⟩

theorem call_effect (hopened : c.opened b) (hb : b.Solvent)
    (hfit : b.sum + (b.entry c).credited < 2 ^ 63) :
    (b.call c).1.Solvent ∧
      (b.call c).1.sum = b.sum + (b.entry c).credited - (b.entry c).debited := by
  rw [entry] at hfit ⊢
  rcases hcall : b.call c with ⟨b', e | u⟩
  · rw [call_error hcall]
    cases c <;> simp [Entry.credited, Entry.debited, hb]
  rw [hcall] at hfit
  cases c with
  | transfer src dst amt =>
    obtain ⟨hamt, hne, b₁, hd, rfl⟩ := call_transfer_eq_ok.mp hcall
    obtain ⟨p, hp⟩ := hopened src (by simp [Call.accounts])
    obtain ⟨q, hq⟩ := hopened dst (by simp [Call.accounts])
    obtain ⟨hset, hsolvent, hsum⟩ := debitLocked_spec hb hp hamt hd
    have hq₁ : b₁.get? dst = some q := by
      rw [hset, get?_set, if_neg hne.symm, hq]
    -- the amount is back in the book before the sum could have grown
    have hfit₁ : b₁.sum + amt.toInt < 2 ^ 63 := by
      have : b.sum + 0 < 2 ^ 63 := hfit
      omega
    obtain ⟨hsolvent', hsum'⟩ := creditLocked_spec hsolvent hq₁ hamt hfit₁
    simp only [Entry.credited, Entry.debited]
    exact ⟨hsolvent', by omega⟩
  | debit id amt =>
    obtain ⟨hamt, hd⟩ := call_debit_eq_ok.mp hcall
    obtain ⟨p, hp⟩ := hopened id mem_cons_self
    obtain ⟨-, hsolvent, hsum⟩ := debitLocked_spec hb hp hamt hd
    simp only [Entry.credited, Entry.debited]
    exact ⟨hsolvent, by omega⟩
  | credit id amt =>
    obtain ⟨hamt, rfl⟩ := call_credit_eq_ok.mp hcall
    obtain ⟨p, hp⟩ := hopened id mem_cons_self
    obtain ⟨hsolvent, hsum⟩ := creditLocked_spec hb hp hamt hfit
    simp only [Entry.credited, Entry.debited]
    exact ⟨hsolvent, by omega⟩

def Conserved (opening b : Book) (log : List Entry) : Prop :=
  b.Solvent ∧ b.sum = opening.sum + credited log - debited log

def Balanced (opening b : Book) (log : List Entry) : Prop :=
  0 ≤ debited log ∧ (opening.sum + credited log < 2 ^ 63 → Conserved opening b log)

theorem balanced_opening {opening : Book} (h : opening.Solvent) : Balanced opening opening [] :=
  ⟨le_rfl, fun _ => ⟨h, (Int.sub_zero _).trans (Int.add_zero _) |>.symm⟩⟩

theorem balanced_call {opening : Book} {log : List Entry} (hopened : c.opened b)
    (h : Balanced opening b log) : Balanced opening (b.call c).1 (log ++ [b.entry c]) := by
  obtain ⟨hout, hcons⟩ := h
  obtain ⟨hin', hout'⟩ := entry_nonneg b c
  rw [Balanced, Conserved, credited_append, debited_append]
  refine ⟨by omega, fun hfit => ?_⟩
  obtain ⟨hsolvent, hsum⟩ := hcons (by omega)
  obtain ⟨hsolvent', hsum'⟩ := call_effect hopened hsolvent (by omega)
  exact ⟨hsolvent', by omega⟩

/-- Every run of transfers, debits and credits from balances that are not
negative, as long as the opening balances and the credits applied fit in `int64`:
no balance is negative, the balances sum to the openings plus the external credits
less the external debits, and the next call, if it returns an error, changes no
balance. -/
theorem money_conserved {opening b : Book} {log : List Entry} {cs : List Call}
    (hopen : opening.Solvent)
    (hrun : run (logged step fun b c => [b.entry c]) (opening, []) cs = some (b, log))
    (hfit : opening.sum + credited log < 2 ^ 63) :
    b.Solvent ∧ b.sum = opening.sum + credited log - debited log ∧
      ∀ c b' e, b.call c = (b', .error e) → b' = b := by
  have hbal : Balanced opening b log := by
    refine run_invariant (I := fun h => Balanced opening h.1 h.2) (fun h c h' hh hs => ?_)
      (balanced_opening hopen) hrun
    obtain ⟨hstep, hlog⟩ := logged_eq_some.mp hs
    rw [step, Option.ite_none_right_eq_some] at hstep
    obtain ⟨hopened, hb'⟩ := hstep
    rw [hlog, ← Option.some.inj hb']
    exact balanced_call hopened hh
  obtain ⟨hsolvent, hsum⟩ := hbal.2 hfit
  exact ⟨hsolvent, hsum, fun c b' e h => call_error h⟩

def demoBook : Book := (Table.empty.set "acct-a" 5000).set "acct-b" 0

/-- The second transfer finds too little on `acct-a`. -/
def demoCalls : List Call :=
  [.transfer "acct-a" "acct-b" 3000, .credit "acct-b" 250, .transfer "acct-a" "acct-b" 9900,
    .debit "acct-b" 1250]

theorem money_conserved_demo :
    ∃ h, run (logged step fun b c => [b.entry c]) (demoBook, []) demoCalls = some h ∧
      h.1.sum = demoBook.sum + 250 - 1250 := by
  refine exists_some_imp (A := fun h => demoBook.sum + credited h.2 < 2 ^ 63 ∧
    credited h.2 = 250 ∧ debited h.2 = 1250) (by decide) fun h hrun ⟨hfit, hin, hout⟩ => ?_
  rw [(money_conserved (by decide) hrun hfit).2.1, hin, hout]

end Book
end GoServices.Ledger
