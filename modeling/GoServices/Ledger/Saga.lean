/-
Withdrawal to a bank account as a saga.

`WithdrawToBank` runs two compensable steps.
-/
import GoServices.Base.Run
import GoServices.Base.Table
import GoServices.Ledger.Account

namespace GoServices.Ledger.Saga

open Table Option Account

/-! ## The bank -/

structure Payout where
  key : String
  bankAccountNo : String
  amt : Paise
  reversed : Bool

/-- The payouts that took effect. -/
abbrev Bank := List Payout

inductive Reply
  | ok
  | errorAfterEffect (text : String)
  | errorWithoutEffect (text : String)
  deriving DecidableEq

inductive StepError
  | ledger (e : LedgerError)
  | bank (text : String)

def Reply.error : Reply → Option StepError
  | .ok => none
  | .errorAfterEffect t | .errorWithoutEffect t => some (.bank t)

def Reply.reached : Reply → Bool
  | .ok | .errorAfterEffect _ => true
  | .errorWithoutEffect _ => false

namespace Bank

def performed (b : Bank) (key : String) : Bool := b.any fun p => p.key = key

def payout (b : Bank) (key bankAccountNo : String) (amt : Paise) (r : Reply) :
    Bank × Option StepError :=
  (if r.reached && !b.performed key then b ++ [⟨key, bankAccountNo, amt, false⟩] else b, r.error)

def reversePayout (b : Bank) (key : String) (r : Reply) : Bank × Option StepError :=
  (if r.reached then b.map fun p => if p.key = key then { p with reversed := true } else p else b,
    r.error)

end Bank

/-! ## The saga -/

structure World where
  wallet : Account
  bank : Bank

structure Request where
  idempotencyKey : String
  bankAccountNo : String
  amt : Paise

inductive Step
  | debitWallet
  | payoutToBank
  deriving DecidableEq

namespace Step

def name : Step → String
  | .debitWallet => "debit_wallet"
  | .payoutToBank => "payout_to_bank"

/-- The `do` of a step. -/
def perform (req : Request) (r : Reply) (w : World) : Step → World × Option StepError
  | .debitWallet =>
    match w.wallet.debit req.amt with
    | .ok a => ({ w with wallet := a }, none)
    | .error e => (w, some (.ledger e))
  | .payoutToBank =>
    let (b, e) := w.bank.payout req.idempotencyKey req.bankAccountNo req.amt r
    ({ w with bank := b }, e)

/-- The `compensate` of a step. -/
def compensate (req : Request) (r : Reply) (w : World) : Step → World × Option StepError
  | .debitWallet =>
    match w.wallet.credit req.amt with
    | .ok a => ({ w with wallet := a }, none)
    | .error e => (w, some (.ledger e))
  | .payoutToBank =>
    let (b, e) := w.bank.reversePayout req.idempotencyKey r
    ({ w with bank := b }, e)

end Step

def steps : List Step := [.debitWallet, .payoutToBank]

inductive SagaError
  | rolledBack (step : Step) (err : StepError)
  | compensationFailed (step : Step) (err : StepError) (compensated : Step) (cErr : StepError)

inductive Pc
  | running (completed todo : List Step)
  | compensating (failed : Step) (err : StepError) (rest : List Step)
  | returned (r : Option SagaError)

def Pc.next (completed : List Step) : List Step → Pc
  | [] => .returned none
  | todo => .running completed todo

def Pc.unwind (failed : Step) (err : StepError) : List Step → Pc
  | [] => .returned (some (.rolledBack failed err))
  | rest => .compensating failed err rest

def advance (req : Request) (r : Reply) (w : World) : Pc → Option (World × Pc)
  | .running completed (s :: todo) =>
    match s.perform req r w with
    | (w, none) => some (w, .next (completed ++ [s]) todo)
    | (w, some e) => some (w, .unwind s e completed.reverse)
  | .compensating failed err (s :: rest) =>
    match s.compensate req r w with
    | (w, none) => some (w, .unwind failed err rest)
    | (w, some ce) => some (w, .returned (some (.compensationFailed failed err s ce)))
  | _ => none

structure Call where
  req : Request
  pc : Pc

structure State where
  world : World
  calls : Table Nat Call

inductive Label
  | call (i : Nat) (req : Request)
  | act (i : Nat) (r : Reply)

def step (s : State) : Label → Option State
  | .call i req =>
    match s.calls.get? i with
    | some _ => none
    | none => some { s with calls := s.calls.set i ⟨req, .next [] steps⟩ }
  | .act i r =>
    match s.calls.get? i with
    | none => none
    | some c => (advance c.req r s.world c.pc).map fun (w, pc) =>
        { world := w, calls := s.calls.set i ⟨c.req, pc⟩ }

def initial (wallet : Account) : State := { world := ⟨wallet, []⟩, calls := .empty }

def Pc.isReturned : Pc → Bool
  | .returned _ => true
  | .running _ _ | .compensating _ _ _ => false

def Quiescent (s : State) : Prop :=
  ∀ i c, s.calls.get? i = some c → c.pc.isReturned = true
  deriving Decidable

def Bank.standing (b : Bank) : Bank := b.filter fun p => !p.reversed

/-- When the step is a `Payout`, it answers `nil` exactly if it takes effect now:
no error follows an effect, and no key that was already paid answers `nil`. -/
def payoutHonest (s : State) : Label → Bool
  | .call _ _ => true
  | .act i r =>
    match s.calls.get? i with
    | some ⟨req, .running _ (.payoutToBank :: _)⟩ =>
      decide (r = .ok) == (r.reached && !s.world.bank.performed req.idempotencyKey)
    | _ => true

def PayoutHonest (s : State) (a : Label) : Prop := payoutHonest s a = true
  deriving Decidable

variable {s : State}

theorem payoutHonest_iff {i : Nat} {r : Reply} {req : Request} {completed todo : List Step}
    (hi : s.calls.get? i = some ⟨req, .running completed (.payoutToBank :: todo)⟩) :
    PayoutHonest s (.act i r) ↔
      (r = .ok ↔ r.reached = true ∧ s.world.bank.performed req.idempotencyKey = false) := by
  simp only [PayoutHonest, payoutHonest, hi]
  rw [beq_iff_eq, Bool.eq_iff_iff]
  simp

/-! ## What one step can do -/

inductive Shape : Pc → Prop
  | start : Shape (.running [] [.debitWallet, .payoutToBank])
  | debited : Shape (.running [.debitWallet] [.payoutToBank])
  | undoing (e : StepError) : Shape (.compensating .payoutToBank e [.debitWallet])
  | returned (r : Option SagaError) : Shape (.returned r)

def setCall (s : State) (w : World) (i : Nat) (req : Request) (pc : Pc) : State :=
  { world := w, calls := s.calls.set i ⟨req, pc⟩ }

inductive Move (s : State) : Label → State → Prop
  | call {i req} (hi : s.calls.get? i = none) :
      Move s (.call i req) (setCall s s.world i req (.running [] [.debitWallet, .payoutToBank]))
  | debit {i r req a}
      (hi : s.calls.get? i = some ⟨req, .running [] [.debitWallet, .payoutToBank]⟩)
      (ha : s.world.wallet.debit req.amt = .ok a) :
      Move s (.act i r)
        (setCall s { s.world with wallet := a } i req (.running [.debitWallet] [.payoutToBank]))
  | refuse {i r req e}
      (hi : s.calls.get? i = some ⟨req, .running [] [.debitWallet, .payoutToBank]⟩) :
      Move s (.act i r)
        (setCall s s.world i req (.returned (some (.rolledBack .debitWallet (.ledger e)))))
  | payout {i req} (hi : s.calls.get? i = some ⟨req, .running [.debitWallet] [.payoutToBank]⟩) :
      Move s (.act i .ok) (setCall s { s.world with
        bank := (s.world.bank.payout req.idempotencyKey req.bankAccountNo req.amt .ok).1 }
        i req (.returned none))
  | payoutError {i r req e}
      (hi : s.calls.get? i = some ⟨req, .running [.debitWallet] [.payoutToBank]⟩)
      (hr : r.error = some e) :
      Move s (.act i r) (setCall s { s.world with
        bank := (s.world.bank.payout req.idempotencyKey req.bankAccountNo req.amt r).1 }
        i req (.compensating .payoutToBank e [.debitWallet]))
  | credit {i r req e a}
      (hi : s.calls.get? i = some ⟨req, .compensating .payoutToBank e [.debitWallet]⟩)
      (ha : s.world.wallet.credit req.amt = .ok a) :
      Move s (.act i r) (setCall s { s.world with wallet := a } i req
        (.returned (some (.rolledBack .payoutToBank e))))
  | creditError {i r req e ce}
      (hi : s.calls.get? i = some ⟨req, .compensating .payoutToBank e [.debitWallet]⟩)
      (ha : s.world.wallet.credit req.amt = .error ce) :
      Move s (.act i r) (setCall s s.world i req
        (.returned (some (.compensationFailed .payoutToBank e .debitWallet (.ledger ce)))))

theorem move_of_step {s' : State} {a : Label} (hshape : ∀ i c, s.calls.get? i = some c → Shape c.pc)
    (h : step s a = some s') :
    Move s a s' := by
  cases a with
  | call i req =>
    cases hi : s.calls.get? i with
    | some c => simp [step, hi] at h
    | none =>
      simp only [step, hi, some.injEq] at h
      exact h ▸ .call hi
  | act i r =>
    cases hi : s.calls.get? i with
    | none => simp [step, hi] at h
    | some c =>
      obtain ⟨req, pc⟩ := c
      have hpc := hshape i _ hi
      cases hpc with
      | start =>
        cases ha : s.world.wallet.debit req.amt with
        | ok acc =>
          simp only [step, hi, advance, Step.perform, ha, map_some, some.injEq] at h
          exact h ▸ .debit hi ha
        | error e =>
          simp only [step, hi, advance, Step.perform, ha, map_some, some.injEq] at h
          exact h ▸ .refuse hi
      | debited =>
        cases hr : r.error with
        | none =>
          have hrok : r = .ok := by cases r <;> simp_all [Reply.error]
          subst hrok
          simp only [step, hi, advance, Step.perform, Bank.payout, Reply.error, map_some,
            some.injEq] at h
          exact h ▸ .payout hi
        | some e =>
          simp only [step, hi, advance, Step.perform, Bank.payout, hr, map_some, some.injEq] at h
          exact h ▸ .payoutError hi hr
      | undoing e =>
        cases ha : s.world.wallet.credit req.amt with
        | ok acc =>
          simp only [step, hi, advance, Step.compensate, ha, map_some, some.injEq] at h
          exact h ▸ .credit hi ha
        | error ce =>
          simp only [step, hi, advance, Step.compensate, ha, map_some, some.injEq] at h
          exact h ▸ .creditError hi ha
      | returned r' => simp [step, hi, advance] at h

/-! ## Conservation -/

def Pc.holds : Pc → Bool
  | .running completed _ => completed.contains .debitWallet
  | .compensating _ _ rest => rest.contains .debitWallet
  | .returned _ => false

structure CallInv (s : State) : Prop where
  shape : ∀ i c, s.calls.get? i = some c → Shape c.pc
  amount : ∀ i c, s.calls.get? i = some c → c.pc.holds = true → 0 ≤ c.req.amt.toInt
  paid : ∀ p ∈ s.world.bank, 0 ≤ p.amt.toInt

theorem callInv_initial (wallet : Account) : CallInv (initial wallet) where
  shape i c h := by cases h
  amount i c h := by cases h
  paid p hp := by cases hp

theorem CallInv.setCall (hs : CallInv s) {w : World} {i : Nat} {req : Request} {pc : Pc}
    (hshape : Shape pc) (hamt : pc.holds = true → 0 ≤ req.amt.toInt)
    (hpaid : ∀ p ∈ w.bank, 0 ≤ p.amt.toInt) : CallInv (setCall s w i req pc) := by
  refine ⟨fun j c h => ?_, fun j c h hc => ?_, hpaid⟩
  · rcases set_cases h with ⟨-, rfl⟩ | ⟨-, h⟩
    · exact hshape
    · exact hs.shape j c h
  rcases set_cases h with ⟨-, rfl⟩ | ⟨-, h⟩
  · exact hamt hc
  · exact hs.amount j c h hc

theorem mem_payout {b : Bank} {key no : String} {amt : Paise} {r : Reply} {p : Payout}
    (h : p ∈ (b.payout key no amt r).1) : p ∈ b ∨ p = ⟨key, no, amt, false⟩ := by
  unfold Bank.payout at h
  split at h
  · simpa using h
  · exact .inl h

theorem callInv_move {s' : State} {a : Label} (hs : CallInv s) (h : Move s a s') :
    CallInv s' := by
  have hamt : ∀ {i req}, s.calls.get? i = some ⟨req, .running [.debitWallet] [.payoutToBank]⟩ →
      0 ≤ req.amt.toInt := fun {i req} hi => hs.amount i ⟨req, _⟩ hi rfl
  have hpay : ∀ {i req r}, s.calls.get? i = some ⟨req, .running [.debitWallet] [.payoutToBank]⟩ →
      ∀ p ∈ (s.world.bank.payout req.idempotencyKey req.bankAccountNo req.amt r).1,
        0 ≤ p.amt.toInt := by
    intro i req r hi p hp
    rcases mem_payout hp with hp | rfl
    · exact hs.paid p hp
    · exact hamt hi
  cases h with
  | call hi => exact hs.setCall .start nofun hs.paid
  | debit hi ha =>
    exact hs.setCall .debited (fun _ => (debit_eq_ok.mp ha).1) hs.paid
  | refuse hi => exact hs.setCall (.returned _) nofun hs.paid
  | payout hi => exact hs.setCall (.returned _) nofun (hpay hi)
  | payoutError hi hr => exact hs.setCall (.undoing _) (fun _ => hamt hi) (hpay hi)
  | credit hi ha | creditError hi ha => exact hs.setCall (.returned _) nofun hs.paid

section Conserved

/-! The balance, the standing payouts and the held debits are summed in the
arithmetic `φ` maps an amount into.  `φ` is the identity for `int64` arithmetic
and `Int64.toInt` for the integers. -/

variable {M : Type} [AddCommGroup M] (φ : Paise → M)

def held (calls : Table Nat Call) : M :=
  calls.total fun _ c => if c.pc.holds then φ c.req.amt else 0

def paidOut (b : Bank) : M := (b.standing.map fun p => φ p.amt).sum

def Conserved (wallet : Account) (s : State) : Prop :=
  φ wallet.balance = φ s.world.wallet.balance + paidOut φ s.world.bank + held φ s.calls

/-- The wallet arithmetic of the next step is exact under `φ`. -/
structure Exact (s : State) : Prop where
  debit : ∀ amt a, s.world.wallet.debit amt = .ok a → φ a.balance = φ s.world.wallet.balance - φ amt
  credit : ∀ i c, s.calls.get? i = some c → c.pc.holds = true →
    φ (s.world.wallet.balance + c.req.amt) = φ s.world.wallet.balance + φ c.req.amt

theorem conserved_initial (wallet : Account) : Conserved φ wallet (initial wallet) := by
  simp [Conserved, initial, paidOut, held, Bank.standing]

variable {calls : Table Nat Call} {i : Nat} {req : Request} {pc : Pc}

theorem held_set (hi : calls.get? i = some ⟨req, pc⟩) (pc' : Pc) :
    held φ (calls.set i ⟨req, pc'⟩) + (if pc.holds then φ req.amt else 0) =
      (if pc'.holds then φ req.amt else 0) + held φ calls :=
  total_set_of_some _ hi _

theorem held_take {pc' : Pc} (hi : calls.get? i = some ⟨req, pc⟩) (hpc : pc.holds = false)
    (hpc' : pc'.holds = true) :
    held φ (calls.set i ⟨req, pc'⟩) = held φ calls + φ req.amt := by
  have h := held_set φ hi pc'
  rw [hpc, hpc', if_neg Bool.false_ne_true, if_pos rfl, add_zero] at h
  rw [h, add_comm]

theorem held_give {pc' : Pc} (hi : calls.get? i = some ⟨req, pc⟩) (hpc : pc.holds = true)
    (hpc' : pc'.holds = false) :
    held φ (calls.set i ⟨req, pc'⟩) = held φ calls - φ req.amt := by
  have h := held_set φ hi pc'
  rw [hpc, hpc', if_neg Bool.false_ne_true, if_pos rfl, zero_add] at h
  exact eq_sub_of_add_eq h

theorem held_keep (pc' : Pc) (hi : calls.get? i = some ⟨req, pc⟩) (hpc : pc.holds = pc'.holds) :
    held φ (calls.set i ⟨req, pc'⟩) = held φ calls := by
  have h := held_set φ hi pc'
  rw [hpc, add_comm] at h
  exact add_left_cancel h

section
variable {b : Bank} {key no : String} {amt : Paise} {r : Reply}

theorem paidOut_payout (hreached : r.reached = true) (hnew : b.performed key = false) :
    paidOut φ (b.payout key no amt r).1 = paidOut φ b + φ amt := by
  simp [Bank.payout, hreached, hnew, paidOut, Bank.standing]

theorem payout_without_effect (h : ¬ (r.reached = true ∧ b.performed key = false)) :
    (b.payout key no amt r).1 = b := by
  rw [Bank.payout, if_neg]
  simpa using h

end

theorem conserved_move {wallet : Account} {s s' : State} {a : Label} (hs : CallInv s)
    (hexact : Exact φ s) (hok : PayoutHonest s a) (h : Conserved φ wallet s) (hm : Move s a s') :
    Conserved φ wallet s' := by
  unfold Conserved at h ⊢
  cases hm with
  | @call i req hi =>
    have hnew : held φ (s.calls.set i ⟨req, .running [] [.debitWallet, .payoutToBank]⟩) = 0 + _ :=
      total_set_of_none _ hi _
    rw [setCall, hnew, zero_add]
    exact h
  | debit hi ha =>
    rw [setCall, held_take φ hi rfl rfl, hexact.debit _ _ ha, h]
    abel
  | @refuse i r req e hi =>
    rw [setCall, held_keep φ (.returned (some (.rolledBack .debitWallet (.ledger e)))) hi rfl]
    exact h
  | @payout i req hi =>
    obtain ⟨hreached, hnew⟩ := ((payoutHonest_iff hi).mp hok).mp rfl
    rw [setCall, held_give φ hi rfl rfl, paidOut_payout φ hreached hnew, h]
    abel
  | @payoutError i r req e hi hr =>
    have hno : ¬ (r.reached = true ∧ s.world.bank.performed req.idempotencyKey = false) := by
      intro heffect
      have hrok := ((payoutHonest_iff hi).mp hok).mpr heffect
      rw [hrok] at hr
      cases hr
    rw [setCall, held_keep φ (.compensating .payoutToBank e [.debitWallet]) hi rfl,
      payout_without_effect hno]
    exact h
  | @credit i r req e acc hi ha =>
    have hacc : acc.balance = s.world.wallet.balance + req.amt := by
      rw [credit_eq_ok (hs.amount i _ hi rfl)] at ha
      cases ha
      rfl
    rw [setCall, held_give φ hi rfl rfl, hacc, hexact.credit i _ hi rfl, h]
    abel
  | @creditError i r req e ce hi ha =>
    -- The amount passed the sign check of the debit, so the credit passes it too.
    rw [credit_eq_ok (hs.amount i _ hi rfl)] at ha
    cases ha

theorem held_quiescent {s : State} (hq : Quiescent s) : held φ s.calls = 0 := by
  refine total_eq_zero fun i c hi => ?_
  have hc := hq i c hi
  cases hpc : c.pc with
  | returned r => rfl
  | running completed todo | compensating failed err rest => simp [hpc, Pc.isReturned] at hc

end Conserved

theorem exact_int64 (s : State) : Exact (fun p : Paise => p) s where
  debit _ _ h := debit_balance h
  credit _ _ _ _ := rfl

variable {s : State}

theorem paidOut_nonneg (hs : CallInv s) : 0 ≤ paidOut Int64.toInt s.world.bank := by
  refine List.sum_nonneg fun x hx => ?_
  obtain ⟨p, hp, rfl⟩ := List.mem_map.mp hx
  exact hs.paid p (List.mem_of_mem_filter hp)

theorem exact_int {wallet : Account} (hs : CallInv s) (hbal : 0 ≤ s.world.wallet.balance.toInt)
    (h : Conserved Int64.toInt wallet s) :
    Exact Int64.toInt s where
  debit _ _ ha := (debit_toInt hbal ha).1
  credit i c hi hc := by
    have hamt := hs.amount i c hi hc
    have hheld : (if c.pc.holds then c.req.amt.toInt else 0) ≤ held Int64.toInt s.calls := by
      refine single_le_total (M := Int)
        (f := fun _ (c : Call) => if c.pc.holds then c.req.amt.toInt else 0) (fun j d hj => ?_) hi
      by_cases hd : d.pc.holds = true
      · rw [if_pos hd]
        exact hs.amount j d hj hd
      · rw [if_neg hd]
    rw [if_pos hc] at hheld
    have hpaid := paidOut_nonneg hs
    have hmax := Int64.toInt_lt wallet.balance
    unfold Conserved at h
    exact toInt_add_of_lt hbal hamt (by omega)

theorem balance_nonneg_move {s' : State} {a : Label} (hs : CallInv s) (hexact : Exact Int64.toInt s)
    (hbal : 0 ≤ s.world.wallet.balance.toInt) (hm : Move s a s') :
    0 ≤ s'.world.wallet.balance.toInt := by
  cases hm with
  | debit hi ha => exact (debit_toInt hbal ha).2
  | @credit i r req e acc hi ha =>
    have hamt := hs.amount i _ hi rfl
    rw [credit_eq_ok hamt] at ha
    cases ha
    have hsum := hexact.credit i _ hi rfl
    show 0 ≤ (s.world.wallet.balance + req.amt).toInt
    rw [hsum]
    exact Int.add_nonneg hbal hamt
  | call | refuse | payout | payoutError | creditError => exact hbal

structure Inv (wallet : Account) (s : State) : Prop where
  calls : CallInv s
  wrapped : Conserved (fun p : Paise => p) wallet s
  exact : 0 ≤ wallet.balance.toInt →
    Conserved Int64.toInt wallet s ∧ 0 ≤ s.world.wallet.balance.toInt

theorem inv_initial (wallet : Account) : Inv wallet (initial wallet) :=
  ⟨callInv_initial wallet, conserved_initial _ wallet, fun h => ⟨conserved_initial _ wallet, h⟩⟩

theorem inv_step {wallet : Account} (s : State) (a : Label) (s' : State) (hs : Inv wallet s)
    (hok : PayoutHonest s a) (h : step s a = some s') : Inv wallet s' := by
  have hm := move_of_step hs.calls.shape h
  refine ⟨callInv_move hs.calls hm, conserved_move _ hs.calls (exact_int64 s) hok hs.wrapped hm,
    fun hopen => ?_⟩
  obtain ⟨hcons, hbal⟩ := hs.exact hopen
  have hexact := exact_int hs.calls hbal hcons
  exact ⟨conserved_move _ hs.calls hexact hok hcons hm, balance_nonneg_move hs.calls hexact hbal hm⟩

/-- In every schedule of withdrawals whose `Payout` requests answer `nil` exactly
when they take effect, once all calls have returned the net amount debited from
the wallet is the sum of the payouts that took effect and were not reversed. -/
theorem withdraw_conserved {wallet : Account} {as : List Label} {s : State}
    (hrun : run step (initial wallet) as = some s)
    (hok : RunMeets step PayoutHonest (initial wallet) as) (hq : Quiescent s) :
    wallet.balance - s.world.wallet.balance = (s.world.bank.standing.map fun p => p.amt).sum ∧
    (0 ≤ wallet.balance.toInt → wallet.balance.toInt - s.world.wallet.balance.toInt =
      (s.world.bank.standing.map fun p => p.amt.toInt).sum) := by
  have hinv := run_invariant_of_meets inv_step (inv_initial wallet) hok hrun
  constructor
  · have h := hinv.wrapped
    rw [Conserved, held_quiescent _ hq, add_zero] at h
    rw [h, add_sub_cancel_left]
    rfl
  intro hopen
  have h := (hinv.exact hopen).1
  rw [Conserved, held_quiescent _ hq, add_zero] at h
  rw [h, add_sub_cancel_left]
  rfl

def demoWallet : Account := { id := "wallet-1", balance := 1000 }

def demoRequest : Request := ⟨"idem-1", "1234567890", 300⟩

def demoLost : List Label :=
  [.call 0 demoRequest, .act 0 .ok, .act 0 (.errorAfterEffect "bank rail timeout"), .act 0 .ok]

def demoRepeat : List Label :=
  [.call 0 demoRequest, .act 0 .ok, .act 0 .ok, .call 1 demoRequest, .act 1 .ok, .act 1 .ok]

/-- The lost answer returns the money to the wallet and leaves the payout
standing. -/
theorem withdraw_not_conserved :
    (∃ s ∈ run step (initial demoWallet) demoLost, Quiescent s ∧
      demoWallet.balance - s.world.wallet.balance = 0 ∧
      (s.world.bank.standing.map fun p => p.amt).sum = 300) ∧
    (∃ s ∈ run step (initial demoWallet) demoRepeat, Quiescent s ∧
      demoWallet.balance - s.world.wallet.balance = 600 ∧
      (s.world.bank.standing.map fun p => p.amt).sum = 300) := by
  decide

def demoHonest : List Label :=
  [.call 0 demoRequest, .call 1 ⟨"idem-2", "1234567890", 200⟩, .act 0 .ok, .act 1 .ok,
    .act 1 (.errorWithoutEffect "rail down"), .act 0 .ok, .act 1 .ok]

theorem withdraw_conserved_refused : ∃ s, run step (initial demoWallet) demoHonest = some s ∧
    s.world.wallet.balance = 700 ∧
    demoWallet.balance - s.world.wallet.balance =
      (s.world.bank.standing.map fun p => p.amt).sum := by
  obtain ⟨s, hrun, hq, hbal⟩ : ∃ s ∈ run step (initial demoWallet) demoHonest,
      Quiescent s ∧ s.world.wallet.balance = 700 := by decide
  exact ⟨s, hrun, hbal, (withdraw_conserved hrun (by decide) hq).1⟩

end GoServices.Ledger.Saga
