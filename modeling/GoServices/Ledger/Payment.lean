/-
The customer-facing debit API over an idempotency store.

`MemStore` is `idempotency.MemStore`.  Each of its methods is one critical section.
-/
import GoServices.Base.Run
import GoServices.Base.Table
import GoServices.Ledger.Account

namespace GoServices.Ledger

/-! ## The idempotency store -/

/-- `idempotency.Record`.  The body is kept as the string its bytes spell. -/
structure Record where
  key : String
  body : String

/-- `ErrInProgress`, the only error the store returns. -/
inductive StoreError
  | inProgress

structure MemStore where
  done : Table String Record
  pending : Table String Unit

namespace MemStore

def new : MemStore := { done := .empty, pending := .empty }

/-- `Reserve`.  The result `some rec` is `found = true`, and `none` says that
the caller now owns the key. -/
def reserve (s : MemStore) (key : String) : MemStore × Except StoreError (Option Record) :=
  match s.done.get? key with
  | some rec => (s, .ok (some rec))
  | none =>
    match s.pending.get? key with
    | some () => (s, .error .inProgress)
    | none => ({ s with pending := s.pending.set key () }, .ok none)

def complete (s : MemStore) (key : String) (rec : Record) : MemStore :=
  { done := s.done.set key rec, pending := s.pending.erase key }

def release (s : MemStore) (key : String) : MemStore :=
  { s with pending := s.pending.erase key }

/-- `Reserve` would hand the key to its caller. -/
def Reservable (s : MemStore) (key : String) : Prop :=
  s.done.get? key = none ∧ s.pending.get? key = none
  deriving Decidable

variable {s : MemStore} {key : String}

theorem reserve_of_reservable (h : s.Reservable key) :
    s.reserve key = ({ s with pending := s.pending.set key () }, .ok none) := by
  rw [reserve, h.1, h.2]

theorem reserve_of_done {rec : Record} (h : s.done.get? key = some rec) :
    s.reserve key = (s, .ok (some rec)) := by
  rw [reserve, h]

theorem reserve_of_pending (hd : s.done.get? key = none) (hp : s.pending.get? key = some ()) :
    s.reserve key = (s, .error .inProgress) := by
  rw [reserve, hd, hp]

theorem status_cases (s : MemStore) (key : String) :
    (∃ rec, s.done.get? key = some rec) ∨
      (s.done.get? key = none ∧ s.pending.get? key = some ()) ∨ s.Reservable key := by
  cases hd : s.done.get? key with
  | some rec => exact .inl ⟨rec, rfl⟩
  | none =>
    cases hp : s.pending.get? key with
    | some u => exact .inr (.inl ⟨rfl, rfl⟩)
    | none => exact .inr (.inr ⟨hd, hp⟩)

end MemStore

/-! ## The request and its steps -/

structure DebitRequest where
  idempotencyKey : String
  accountID : String
  amount : Paise

structure DebitResponse where
  status : String

inductive DebitError
  | missingIdempotencyKey
  | store (e : StoreError)
  | unknownAccount
  | account (e : LedgerError)

/-- The errors `Debit` returns after it owns the key. -/
def DebitError.fromAccountStep : DebitError → Bool
  | .unknownAccount | .account _ => true
  | .missingIdempotencyKey | .store _ => false

/-- Accounts live behind pointers, and two map keys may hold the same one. -/
abbrev Addr := Nat

/-- `map[string]*ledger.Account`, which `Debit` only reads. -/
abbrev Accounts := Table String Addr

abbrev Heap := Addr → Account

def Heap.write (h : Heap) (p : Addr) (a : Account) : Heap :=
  fun q => if q = p then a else h q

/-- The account lookup and `acc.Debit(req.Amount)`. -/
def accountStep (accounts : Accounts) (heap : Heap) (req : DebitRequest) :
    Except DebitError (Addr × Account) :=
  match accounts.get? req.accountID with
  | none => .error .unknownAccount
  | some p =>
    match (heap p).debit req.amount with
    | .error e => .error (.account e)
    | .ok a => .ok (p, a)

def debited : DebitResponse := { status := "debited" }

/-- The record `Debit` stores for a replay. -/
def completion (req : DebitRequest) : Record :=
  { key := req.idempotencyKey, body := debited.status }

inductive Pc
  | start
  | reserved
  | releasing (e : DebitError)
  | completing
  | returned (r : Except DebitError DebitResponse)

def Pc.owns : Pc → Bool
  | .reserved | .releasing _ | .completing => true
  | .start | .returned _ => false

structure Call where
  req : DebitRequest
  pc : Pc

structure State where
  store : MemStore
  heap : Heap
  calls : Table Nat Call

namespace State

def setPc (s : State) (i : Nat) (req : DebitRequest) (pc : Pc) : State :=
  { s with calls := s.calls.set i { req := req, pc := pc } }

/-- The step at `Reserve`. -/
def reserve (s : State) (i : Nat) (req : DebitRequest) : State :=
  match s.store.reserve req.idempotencyKey with
  | (store, .error e) => { s with store := store }.setPc i req (.returned (.error (.store e)))
  | (store, .ok (some rec)) =>
    { s with store := store }.setPc i req (.returned (.ok { status := rec.body }))
  | (store, .ok none) => { s with store := store }.setPc i req .reserved

def account (accounts : Accounts) (s : State) (i : Nat) (req : DebitRequest) : State :=
  match accountStep accounts s.heap req with
  | .error e => s.setPc i req (.releasing e)
  | .ok (p, a) => { s with heap := s.heap.write p a }.setPc i req .completing

end State

inductive Label
  | call (i : Nat) (req : DebitRequest)
  | reserve (i : Nat)
  | account (i : Nat)
  | finish (i : Nat)

def step (accounts : Accounts) (s : State) : Label → Option State
  | .call i req =>
    match s.calls.get? i with
    | some _ => none
    | none =>
      if req.idempotencyKey = "" then
        some (s.setPc i req (.returned (.error .missingIdempotencyKey)))
      else some (s.setPc i req .start)
  | .reserve i =>
    match s.calls.get? i with
    | some ⟨req, .start⟩ => some (s.reserve i req)
    | _ => none
  | .account i =>
    match s.calls.get? i with
    | some ⟨req, .reserved⟩ => some (s.account accounts i req)
    | _ => none
  | .finish i =>
    match s.calls.get? i with
    | some ⟨req, .releasing e⟩ =>
      some ({ s with store := s.store.release req.idempotencyKey }.setPc i req
        (.returned (.error e)))
    | some ⟨req, .completing⟩ =>
      some ({ s with store := s.store.complete req.idempotencyKey (completion req) }.setPc i req
        (.returned (.ok debited)))
    | _ => none

structure Executed where
  call : Nat
  req : DebitRequest
  addr : Addr

def emit (accounts : Accounts) (s : State) : Label → List Executed
  | .account i =>
    match s.calls.get? i with
    | some ⟨req, .reserved⟩ =>
      match accountStep accounts s.heap req with
      | .ok (p, _) => [{ call := i, req := req, addr := p }]
      | .error _ => []
    | _ => []
  | _ => []

def initial (heap : Heap) : State := { store := .new, heap := heap, calls := .empty }

def runFrom (accounts : Accounts) (heap : Heap) (as : List Label) :
    Option (State × List Executed) :=
  run (logged (step accounts) (emit accounts)) (initial heap, []) as

/-! ## What one step can do -/

inductive Move (accounts : Accounts) (s : State) : Label → State → List Executed → Prop
  | reject {i req} (hi : s.calls.get? i = none) (hkey : req.idempotencyKey = "") :
      Move accounts s (.call i req) (s.setPc i req (.returned (.error .missingIdempotencyKey))) []
  | enter {i req} (hi : s.calls.get? i = none) (hkey : req.idempotencyKey ≠ "") :
      Move accounts s (.call i req) (s.setPc i req .start) []
  | replay {i req rec} (hi : s.calls.get? i = some ⟨req, .start⟩)
      (hdone : s.store.done.get? req.idempotencyKey = some rec) :
      Move accounts s (.reserve i) (s.setPc i req (.returned (.ok { status := rec.body }))) []
  | busy {i req} (hi : s.calls.get? i = some ⟨req, .start⟩)
      (hpending : s.store.pending.get? req.idempotencyKey = some ()) :
      Move accounts s (.reserve i) (s.setPc i req (.returned (.error (.store .inProgress)))) []
  | reserve {i req} (hi : s.calls.get? i = some ⟨req, .start⟩)
      (hfree : s.store.Reservable req.idempotencyKey) :
      Move accounts s (.reserve i)
        ({ s with store := { s.store with
            pending := s.store.pending.set req.idempotencyKey () } }.setPc i req .reserved) []
  | fail {i req e} (hi : s.calls.get? i = some ⟨req, .reserved⟩)
      (he : accountStep accounts s.heap req = .error e) :
      Move accounts s (.account i) (s.setPc i req (.releasing e)) []
  | debit {i req p a} (hi : s.calls.get? i = some ⟨req, .reserved⟩)
      (hp : accounts.get? req.accountID = some p) (ha : (s.heap p).debit req.amount = .ok a) :
      Move accounts s (.account i) ({ s with heap := s.heap.write p a }.setPc i req .completing)
        [{ call := i, req := req, addr := p }]
  | release {i req e} (hi : s.calls.get? i = some ⟨req, .releasing e⟩) :
      Move accounts s (.finish i)
        ({ s with store := s.store.release req.idempotencyKey }.setPc i req
          (.returned (.error e))) []
  | complete {i req} (hi : s.calls.get? i = some ⟨req, .completing⟩) :
      Move accounts s (.finish i)
        ({ s with store := s.store.complete req.idempotencyKey (completion req) }.setPc i req
          (.returned (.ok debited))) []

variable {accounts : Accounts} {req : DebitRequest}

theorem accountStep_eq_ok {heap : Heap} {p : Addr}
    {a : Account} (h : accountStep accounts heap req = .ok (p, a)) :
    accounts.get? req.accountID = some p ∧ (heap p).debit req.amount = .ok a := by
  unfold accountStep at h
  cases hp : accounts.get? req.accountID with
  | none => simp [hp] at h
  | some q =>
    cases hd : (heap q).debit req.amount with
    | error e => simp [hp, hd] at h
    | ok b =>
      simp only [hp, hd, Except.ok.injEq, Prod.mk.injEq] at h
      obtain ⟨rfl, rfl⟩ := h
      exact ⟨rfl, hd⟩

variable {s : State}

theorem move_of_step {s' : State} {a : Label}
    (h : step accounts s a = some s') : Move accounts s a s' (emit accounts s a) := by
  revert h
  fun_cases step accounts s a <;> rintro ⟨⟩
  · exact .reject ‹_› ‹_›
  · exact .enter ‹_› ‹_›
  · rename_i req hi
    rcases s.store.status_cases req.idempotencyKey with ⟨rec, hd⟩ | ⟨hd, hp⟩ | hfree
    · rw [State.reserve, MemStore.reserve_of_done hd]
      exact .replay hi hd
    · rw [State.reserve, MemStore.reserve_of_pending hd hp]
      exact .busy hi hp
    · rw [State.reserve, MemStore.reserve_of_reservable hfree]
      exact .reserve hi hfree
  · rename_i req hi
    cases hstep : accountStep accounts s.heap req with
    | error e =>
      simp only [emit, hi, State.account, hstep]
      exact .fail hi hstep
    | ok r =>
      obtain ⟨hp, ha⟩ := accountStep_eq_ok hstep
      simp only [emit, hi, State.account, hstep]
      exact .debit hi hp ha
  · exact .release ‹_›
  · exact .complete ‹_›

theorem State.get?_setPc_cases {i j : Nat} {pc : Pc} {c : Call}
    (h : (s.setPc i req pc).calls.get? j = some c) :
    (j = i ∧ c = ⟨req, pc⟩) ∨ (j ≠ i ∧ s.calls.get? j = some c) :=
  Table.set_cases h

end GoServices.Ledger
