/-
The debit API over every schedule of concurrent calls.

Three invariants are kept by every step: a pending key has one owner among the calls in flight
(`KeyInv`), the debits executed so far have different keys and every stored response stands for
one of them (`LogInv`), and a balance is the opening balance less what the executed debits took
(`BalanceInv`).
-/
import GoServices.Ledger.Payment

namespace GoServices.Ledger

open List Table

/-! ## Key ownership -/

/-- Call `i` is between its `Reserve` and its `Complete` or `Release` of `k`. -/
def Owner (s : State) (k : String) (i : Nat) : Prop :=
  ∃ c, s.calls.get? i = some c ∧ c.pc.owns = true ∧ c.req.idempotencyKey = k

variable {s : State} {i : Nat} {req : DebitRequest} {pc : Pc}

theorem owner_iff (hi : s.calls.get? i = some ⟨req, pc⟩) (k : String) :
    Owner s k i ↔ pc.owns = true ∧ req.idempotencyKey = k := by
  constructor
  · rintro ⟨c, hc, ho, hk⟩
    rw [hi] at hc
    cases hc
    exact ⟨ho, hk⟩
  · exact fun h => ⟨_, hi, h.1, h.2⟩

theorem not_owner_of_none (hi : s.calls.get? i = none) (k : String) :
    ¬ Owner s k i := by
  rintro ⟨c, hc, -⟩
  rw [hi] at hc
  cases hc

theorem owner_setPc (k : String) (j : Nat) :
    Owner (s.setPc i req pc) k j ↔
      if j = i then pc.owns = true ∧ req.idempotencyKey = k else Owner s k j := by
  by_cases hj : j = i
  · subst hj
    rw [if_pos rfl]
    exact owner_iff (get?_set_self _ _ _) k
  · simp only [Owner, State.setPc, get?_set, if_neg hj]

structure KeyInv (s : State) : Prop where
  pending_iff : ∀ k, s.store.pending.get? k = some () ↔ ∃ i, Owner s k i
  unique : ∀ k i j, Owner s k i → Owner s k j → i = j
  pending_open : ∀ k, s.store.pending.get? k = some () → s.store.done.get? k = none

theorem keyInv_initial (heap : Heap) : KeyInv (initial heap) where
  pending_iff k := by
    constructor
    · exact nofun
    · rintro ⟨i, c, hc, -⟩
      cases hc
  unique k i j := by
    rintro ⟨c, hc, -⟩
    cases hc
  pending_open k h := by cases h

theorem KeyInv.setPc (hs : KeyInv s) (heap : Heap)
    (hown : ∀ k, Owner s k i ↔ pc.owns = true ∧ req.idempotencyKey = k) :
    KeyInv ({ s with heap := heap }.setPc i req pc) := by
  have hsame : ∀ k j, Owner ({ s with heap := heap }.setPc i req pc) k j ↔ Owner s k j := by
    intro k j
    rw [owner_setPc]
    by_cases hj : j = i
    · rw [if_pos hj, hj]
      exact (hown k).symm
    · rw [if_neg hj]
      exact Iff.rfl
  refine ⟨fun k => ?_, fun k j j' h h' => ?_, hs.pending_open⟩
  · simp only [hsame]
    exact hs.pending_iff k
  · exact hs.unique k j j' ((hsame k j).mp h) ((hsame k j').mp h')

theorem KeyInv.reserve (hs : KeyInv s) (hi : s.calls.get? i = some ⟨req, .start⟩)
    (hfree : s.store.Reservable req.idempotencyKey) :
    KeyInv ({ s with store := { s.store with
      pending := s.store.pending.set req.idempotencyKey () } }.setPc i req .reserved) := by
  have hnot : ∀ j, ¬ Owner s req.idempotencyKey j := by
    intro j hj
    have := (hs.pending_iff _).mpr ⟨j, hj⟩
    rw [hfree.2] at this
    cases this
  have hni : ∀ k, ¬ Owner s k i := by
    intro k h
    exact absurd ((owner_iff hi k).mp h).1 (by decide)
  refine ⟨fun k => ?_, fun k j j' h h' => ?_, fun k h => ?_⟩
  · simp only [owner_setPc]
    show (s.store.pending.set req.idempotencyKey ()).get? k = some () ↔ _
    rw [get?_set]
    by_cases hk : k = req.idempotencyKey
    · rw [if_pos hk]
      exact ⟨fun _ => ⟨i, by simp [Pc.owns, hk]⟩, fun _ => rfl⟩
    rw [if_neg hk, hs.pending_iff]
    refine exists_congr fun j => ?_
    by_cases hj : j = i
    · subst hj
      simp [Pc.owns, hni, Ne.symm hk]
    · simp [if_neg hj, Owner]
  · rw [owner_setPc] at h h'
    by_cases hj : j = i <;> by_cases hj' : j' = i
    · rw [hj, hj']
    · rw [if_pos hj] at h
      rw [if_neg hj', ← h.2] at h'
      exact absurd h' (hnot j')
    · rw [if_pos hj'] at h'
      rw [if_neg hj, ← h'.2] at h
      exact absurd h (hnot j)
    rw [if_neg hj] at h
    rw [if_neg hj'] at h'
    exact hs.unique k j j' h h'
  · change (s.store.pending.set req.idempotencyKey ()).get? k = some () at h
    rw [get?_set] at h
    by_cases hk : k = req.idempotencyKey
    · rw [hk]
      exact hfree.1
    · rw [if_neg hk] at h
      exact hs.pending_open k h

theorem KeyInv.yield (hs : KeyInv s) {pc' : Pc} (hi : s.calls.get? i = some ⟨req, pc⟩)
    (hown : pc.owns = true) (hpc' : pc'.owns = false) {done : Table String Record}
    (hdone : ∀ k, k ≠ req.idempotencyKey → done.get? k = s.store.done.get? k) :
    KeyInv ({ s with store := ⟨done, s.store.pending.erase req.idempotencyKey⟩ }.setPc
      i req pc') := by
  have hsole : ∀ j, Owner s req.idempotencyKey j → j = i := fun j hj =>
    hs.unique _ j i hj ((owner_iff hi _).mpr ⟨hown, rfl⟩)
  have hsame : ∀ k j,
      Owner ({ s with store := ⟨done, s.store.pending.erase req.idempotencyKey⟩ }.setPc
        i req pc') k j ↔ k ≠ req.idempotencyKey ∧ Owner s k j := by
    intro k j
    rw [owner_setPc]
    by_cases hj : j = i
    · subst hj
      rw [if_pos rfl, owner_iff hi]
      constructor
      · rintro ⟨h, -⟩
        rw [hpc'] at h
        cases h
      · rintro ⟨hk, -, rfl⟩
        exact absurd rfl hk
    · rw [if_neg hj]
      constructor
      · refine fun h => ⟨fun hk => hj (hsole j ?_), h⟩
        rw [← hk]
        exact h
      · exact fun h => h.2
  refine ⟨fun k => ?_, fun k j j' h h' => ?_, fun k h => ?_⟩
  · simp only [hsame]
    show (s.store.pending.erase req.idempotencyKey).get? k = some () ↔ _
    rw [get?_erase]
    by_cases hk : k = req.idempotencyKey
    · simp [hk]
    · simp [hk, hs.pending_iff k]
  · exact hs.unique k j j' ((hsame k j).mp h).2 ((hsame k j').mp h').2
  change (s.store.pending.erase req.idempotencyKey).get? k = some () at h
  show done.get? k = none
  rw [get?_erase] at h
  by_cases hk : k = req.idempotencyKey
  · rw [if_pos hk] at h
    cases h
  rw [if_neg hk] at h
  rw [hdone k hk]
  exact hs.pending_open k h

variable {accounts : Accounts} {s' : State} {a : Label} {es : List Executed}

theorem keyInv_move (hs : KeyInv s) (h : Move accounts s a s' es) : KeyInv s' := by
  cases h with
  | reject hi hkey | enter hi hkey =>
    exact hs.setPc s.heap fun k => by simp [not_owner_of_none hi, Pc.owns]
  | replay hi hdone | busy hi hpending =>
    exact hs.setPc s.heap fun k => by simp [owner_iff hi, Pc.owns]
  | reserve hi hfree => exact hs.reserve hi hfree
  | fail hi he => exact hs.setPc s.heap fun k => by simp [owner_iff hi, Pc.owns]
  | debit hi hp ha => exact hs.setPc _ fun k => by simp [owner_iff hi, Pc.owns]
  | release hi =>
    refine hs.yield hi ?_ ?_ fun k _ => rfl
    · rfl
    · rfl
  | complete hi =>
    refine hs.yield hi ?_ ?_ fun k hk => ?_
    · rfl
    · rfl
    · rw [get?_set, if_neg hk]

/-! ## The executed debits -/

/-- The executed debits of a run, tied to the calls and to the done keys.  An
executed debit belongs to a call that is about to complete its key or has
completed it, and every success answered so far has a debit under its key. -/
structure LogInv (s : State) (log : List Executed) : Prop where
  settled : ∀ d ∈ log, ∃ pc, s.calls.get? d.call = some ⟨d.req, pc⟩ ∧ (pc = .completing ∨
      pc = .returned (.ok debited) ∧ ∃ rec, s.store.done.get? d.req.idempotencyKey = some rec)
  nodup : (log.map fun d => d.req.idempotencyKey).Nodup
  completing : ∀ i req, s.calls.get? i = some ⟨req, .completing⟩ → ∃ d ∈ log, d.call = i
  done_backed : ∀ k rec, s.store.done.get? k = some rec →
    rec.body = debited.status ∧ ∃ d ∈ log, d.req.idempotencyKey = k
  answered : ∀ i req r, s.calls.get? i = some ⟨req, .returned (.ok r)⟩ →
    ∃ d ∈ log, d.req.idempotencyKey = req.idempotencyKey

theorem logInv_initial (heap : Heap) : LogInv (initial heap) [] where
  settled d hd := by cases hd
  nodup := nodup_nil
  completing i req h := by cases h
  done_backed k rec h := by cases h
  answered i req r h := by cases h

variable {log : List Executed}

theorem LogInv.call_ne (hl : LogInv s log) (hi : ∀ req pc, s.calls.get? i = some ⟨req, pc⟩ →
      pc ≠ .completing ∧ pc ≠ .returned (.ok debited)) : ∀ d ∈ log, d.call ≠ i := by
  rintro d hd rfl
  obtain ⟨pc, hpc, h | ⟨h, -⟩⟩ := hl.settled d hd
  · exact (hi _ _ hpc).1 h
  · exact (hi _ _ hpc).2 h

theorem call_ne_of_eq (hi : s.calls.get? i = some ⟨req, pc⟩)
    (hpc : pc ≠ .completing ∧ pc ≠ .returned (.ok debited)) :
    ∀ req' pc', s.calls.get? i = some ⟨req', pc'⟩ →
      pc' ≠ .completing ∧ pc' ≠ .returned (.ok debited) := by
  intro req' pc' h
  rw [hi] at h
  cases h
  exact hpc

theorem LogInv.setPc (hl : LogInv s log) (pending : Table String Unit)
    (hi : ∀ req pc, s.calls.get? i = some ⟨req, pc⟩ →
      pc ≠ .completing ∧ pc ≠ .returned (.ok debited))
    (hcomp : pc ≠ .completing)
    (hok : ∀ r, pc = .returned (.ok r) → ∃ d ∈ log, d.req.idempotencyKey = req.idempotencyKey) :
    LogInv ({ s with store := { s.store with pending := pending } }.setPc i req pc) log := by
  have hne := hl.call_ne hi
  refine ⟨fun d hd => ?_, hl.nodup, fun j req' h => ?_, hl.done_backed, fun j req' r h => ?_⟩
  · obtain ⟨pc', hpc', h⟩ := hl.settled d hd
    refine ⟨pc', ?_, h⟩
    rw [← hpc', State.setPc, get?_set, if_neg (hne d hd)]
  · rcases State.get?_setPc_cases h with ⟨-, hc⟩ | ⟨-, h⟩
    · cases hc
      exact absurd rfl hcomp
    · exact hl.completing j req' h
  rcases State.get?_setPc_cases h with ⟨-, hc⟩ | ⟨-, h⟩
  · cases hc
    exact hok r rfl
  · exact hl.answered j req' r h

section
variable (hk : KeyInv s) (hl : LogInv s log) (hi : s.calls.get? i = some ⟨req, .reserved⟩)
include hk hl hi

theorem key_fresh : ∀ d ∈ log, d.req.idempotencyKey ≠ req.idempotencyKey := by
  intro d hd hkey
  have hown : Owner s req.idempotencyKey i := (owner_iff hi _).mpr ⟨rfl, rfl⟩
  obtain ⟨pc, hpc, rfl | ⟨-, rec, hrec⟩⟩ := hl.settled d hd
  · have hd' : Owner s req.idempotencyKey d.call := (owner_iff hpc _).mpr ⟨rfl, hkey⟩
    have heq : d.call = i := hk.unique _ _ _ hd' hown
    rw [heq, hi] at hpc
    cases hpc
  · have hopen := hk.pending_open _ ((hk.pending_iff _).mpr ⟨i, hown⟩)
    rw [hkey, hopen] at hrec
    cases hrec

theorem LogInv.debit (heap : Heap) (p : Addr) :
    LogInv ({ s with heap := heap }.setPc i req .completing)
      (log ++ [{ call := i, req := req, addr := p }]) := by
  have hne := hl.call_ne (call_ne_of_eq hi ⟨by simp, by simp⟩)
  refine ⟨fun d hd => ?_, ?_, fun j req' h => ?_, fun k rec h => ?_, fun j req' r h => ?_⟩
  · rcases mem_append.mp hd with hd | hd
    · obtain ⟨pc, hpc, h⟩ := hl.settled d hd
      refine ⟨pc, ?_, h⟩
      rw [← hpc, State.setPc, get?_set, if_neg (hne d hd)]
    · rw [mem_singleton] at hd
      subst hd
      exact ⟨.completing, get?_set_self _ _ _, .inl rfl⟩
  · rw [map_append, nodup_append]
    refine ⟨hl.nodup, nodup_singleton _, fun k hk' l hl' => ?_⟩
    obtain ⟨d, hd, rfl⟩ := mem_map.mp hk'
    rw [map_singleton, mem_singleton] at hl'
    rw [hl']
    exact key_fresh hk hl hi d hd
  · rcases State.get?_setPc_cases h with ⟨hj, -⟩ | ⟨-, h⟩
    · exact ⟨_, mem_concat_self, hj.symm⟩
    · obtain ⟨d, hd, h⟩ := hl.completing j req' h
      exact ⟨d, mem_append_left _ hd, h⟩
  · obtain ⟨hbody, d, hd, h⟩ := hl.done_backed k rec h
    exact ⟨hbody, d, mem_append_left _ hd, h⟩
  rcases State.get?_setPc_cases h with ⟨-, hc⟩ | ⟨-, h⟩
  · cases hc
  · obtain ⟨d, hd, h⟩ := hl.answered j req' r h
    exact ⟨d, mem_append_left _ hd, h⟩

end

theorem LogInv.complete (hl : LogInv s log) (hi : s.calls.get? i = some ⟨req, .completing⟩) :
    LogInv ({ s with store := s.store.complete req.idempotencyKey (completion req) }.setPc i req
      (.returned (.ok debited))) log := by
  obtain ⟨e, he, hei⟩ := hl.completing i req hi
  have hereq : e.req = req := by
    obtain ⟨pc, hpc, -⟩ := hl.settled e he
    rw [hei, hi] at hpc
    cases hpc
    rfl
  refine ⟨fun d hd => ?_, hl.nodup, fun j req' h => ?_, fun k rec h => ?_, fun j req' r h => ?_⟩
  · obtain ⟨pc, hpc, h⟩ := hl.settled d hd
    show ∃ pc, (s.calls.set i ⟨req, .returned (.ok debited)⟩).get? d.call = some ⟨d.req, pc⟩ ∧
      (pc = .completing ∨ pc = .returned (.ok debited) ∧
        ∃ rec, (s.store.done.set req.idempotencyKey (completion req)).get?
          d.req.idempotencyKey = some rec)
    rw [get?_set, get?_set]
    by_cases hdi : d.call = i
    · have hdreq : d.req = req := by
        rw [hdi, hi] at hpc
        cases hpc
        rfl
      exact ⟨.returned (.ok debited), by rw [if_pos hdi, hdreq],
        .inr ⟨rfl, completion req, by rw [hdreq, if_pos rfl]⟩⟩
    · refine ⟨pc, by rw [if_neg hdi, hpc], h.imp_right fun ⟨hpc', rec, hrec⟩ => ⟨hpc', ?_⟩⟩
      by_cases hkey : d.req.idempotencyKey = req.idempotencyKey
      · exact ⟨completion req, by rw [if_pos hkey]⟩
      · exact ⟨rec, by rw [if_neg hkey, hrec]⟩
  · rcases State.get?_setPc_cases h with ⟨-, hc⟩ | ⟨-, h⟩
    · cases hc
    · exact hl.completing j req' h
  · rcases set_cases h with ⟨hk, rfl⟩ | ⟨-, h⟩
    · exact ⟨rfl, e, he, by rw [hereq, hk]⟩
    · exact hl.done_backed k rec h
  rcases State.get?_setPc_cases h with ⟨-, hc⟩ | ⟨-, h⟩
  · cases hc
    exact ⟨e, he, by rw [hereq]⟩
  · exact hl.answered j req' r h

theorem logInv_move (hk : KeyInv s) (hl : LogInv s log) (h : Move accounts s a s' es) :
    LogInv s' (log ++ es) := by
  cases h with
  | reject hi hkey | enter hi hkey =>
    rw [append_nil]
    exact hl.setPc s.store.pending (fun _ _ h => by simp [hi] at h) (by simp) (by simp)
  | replay hi hdone =>
    rw [append_nil]
    exact hl.setPc s.store.pending (call_ne_of_eq hi ⟨by simp, by simp⟩) (by simp)
      fun _ _ => (hl.done_backed _ _ hdone).2
  | busy hi hpending =>
    rw [append_nil]
    exact hl.setPc s.store.pending (call_ne_of_eq hi ⟨by simp, by simp⟩) (by simp) (by simp)
  | reserve hi hfree =>
    rw [append_nil]
    exact hl.setPc _ (call_ne_of_eq hi ⟨by simp, by simp⟩) (by simp) (by simp)
  | fail hi he =>
    rw [append_nil]
    exact hl.setPc s.store.pending (call_ne_of_eq hi ⟨by simp, by simp⟩) (by simp) (by simp)
  | debit hi hp ha => exact hl.debit hk hi _ _
  | release hi =>
    rw [append_nil]
    exact hl.setPc _ (call_ne_of_eq hi ⟨by simp, by simp⟩) (by simp) (by simp)
  | complete hi =>
    rw [append_nil]
    exact hl.complete hi

/-! ## Balances -/

/-- The executed debits of the account at `p`, in the arithmetic of `money.Paise`. -/
def spent (log : List Executed) (p : Addr) : Paise :=
  ((log.filter fun d => d.addr = p).map fun d => d.req.amount).sum

def spentInt (log : List Executed) (p : Addr) : Int :=
  ((log.filter fun d => d.addr = p).map fun d => d.req.amount.toInt).sum

theorem spent_concat (log : List Executed) (d : Executed) (p : Addr) :
    spent (log ++ [d]) p = if d.addr = p then spent log p + d.req.amount else spent log p := by
  by_cases h : d.addr = p <;> simp [spent, h]

theorem spentInt_concat (log : List Executed) (d : Executed) (p : Addr) :
    spentInt (log ++ [d]) p =
      if d.addr = p then spentInt log p + d.req.amount.toInt else spentInt log p := by
  by_cases h : d.addr = p <;> simp [spentInt, h]

structure BalanceInv (accounts : Accounts) (heap : Heap) (s : State) (log : List Executed) :
    Prop where
  addr : ∀ d ∈ log, accounts.get? d.req.accountID = some d.addr
  wrapped : ∀ p, (s.heap p).balance = (heap p).balance - spent log p
  exact : ∀ p, 0 ≤ (heap p).balance.toInt →
    (s.heap p).balance.toInt = (heap p).balance.toInt - spentInt log p ∧
      0 ≤ (s.heap p).balance.toInt

theorem balanceInv_initial (accounts : Accounts) (heap : Heap) :
    BalanceInv accounts heap (initial heap) [] where
  addr d hd := by cases hd
  wrapped p := by simp [initial, spent]
  exact p hp := by simpa [initial, spentInt] using hp

variable {heap : Heap}

theorem balanceInv_move (hb : BalanceInv accounts heap s log) (h : Move accounts s a s' es) :
    BalanceInv accounts heap s' (log ++ es) := by
  cases h with
  | @debit i req q acc hi hq hacc =>
    refine ⟨fun d hd => ?_, fun p => ?_, fun p hp => ?_⟩
    · rcases mem_append.mp hd with hd | hd
      · exact hb.addr d hd
      · rw [mem_singleton] at hd
        rw [hd]
        exact hq
    · rw [spent_concat]
      show (s.heap.write q acc p).balance = _
      by_cases hpq : p = q
      · rw [Heap.write, if_pos hpq, if_pos hpq.symm, Account.debit_balance hacc, ← hpq, hb.wrapped]
        grind
      · rw [Heap.write, if_neg hpq, if_neg (Ne.symm hpq), hb.wrapped]
    rw [spentInt_concat]
    show (s.heap.write q acc p).balance.toInt = _ ∧ 0 ≤ (s.heap.write q acc p).balance.toInt
    obtain ⟨heq, hnonneg⟩ := hb.exact p hp
    by_cases hpq : p = q
    · subst hpq
      obtain ⟨hacc', hnonneg'⟩ := Account.debit_toInt hnonneg hacc
      rw [Heap.write, if_pos rfl, if_pos rfl]
      dsimp only
      exact ⟨by omega, hnonneg'⟩
    · rw [Heap.write, if_neg hpq, if_neg (Ne.symm hpq)]
      exact ⟨heq, hnonneg⟩
  | reject | enter | replay | busy | reserve | fail | release | complete =>
    rw [append_nil]
    exact ⟨hb.addr, hb.wrapped, hb.exact⟩

/-! ## Every schedule -/

structure Inv (accounts : Accounts) (heap : Heap) (p : State × List Executed) : Prop where
  keys : KeyInv p.1
  log : LogInv p.1 p.2
  balances : BalanceInv accounts heap p.1 p.2

theorem inv_initial (accounts : Accounts) (heap : Heap) : Inv accounts heap (initial heap, []) :=
  ⟨keyInv_initial heap, logInv_initial heap, balanceInv_initial accounts heap⟩

theorem inv_step (p : State × List Executed) (a : Label) (q : State × List Executed)
    (hp : Inv accounts heap p) (h : logged (step accounts) (emit accounts) p a = some q) :
    Inv accounts heap q := by
  obtain ⟨hstep, hlog⟩ := logged_eq_some.mp h
  have hmove := move_of_step hstep
  obtain ⟨s', log'⟩ := q
  cases hlog
  exact ⟨keyInv_move hp.keys hmove, logInv_move hp.keys hp.log hmove,
    balanceInv_move hp.balances hmove⟩

theorem inv_run {as : List Label} (h : runFrom accounts heap as = some (s, log)) :
    Inv accounts heap (s, log) :=
  run_invariant inv_step (inv_initial accounts heap) h

variable {k : String} {d : Executed}

theorem reservable_of_idle (hk : KeyInv s) (hl : LogInv s log)
    (hown : ∀ j, ¬ Owner s k j) (hlog : ∀ d ∈ log, d.req.idempotencyKey ≠ k) :
    s.store.Reservable k := by
  constructor
  · cases hd : s.store.done.get? k with
    | none => rfl
    | some rec =>
      obtain ⟨-, d, hd', hkey⟩ := hl.done_backed k rec hd
      exact absurd hkey (hlog d hd')
  cases hp : s.store.pending.get? k with
  | none => rfl
  | some u =>
    obtain ⟨j, hj⟩ := (hk.pending_iff k).mp hp
    exact absurd hj (hown j)

theorem reservable_after_release {e : DebitError} (hk : KeyInv s)
    (hi : s.calls.get? i = some ⟨req, .releasing e⟩)
    (hstep : step accounts s (.finish i) = some s') :
    s'.calls.get? i = some ⟨req, .returned (.error e)⟩ ∧
      s'.store.Reservable req.idempotencyKey := by
  simp only [step, hi, Option.some.injEq] at hstep
  subst hstep
  refine ⟨get?_set_self _ _ _, ?_, ?_⟩
  · exact hk.pending_open _ ((hk.pending_iff _).mpr ⟨i, (owner_iff hi _).mpr ⟨rfl, rfl⟩⟩)
  · show (s.store.pending.erase req.idempotencyKey).get? req.idempotencyKey = none
    rw [get?_erase, if_pos rfl]

/-- Over every schedule of any number of `Debit` calls each key debits at most
once and each balance is the opening balance less the executed debits of that
account, in `int64` arithmetic and, for an opening balance that is not negative,
over the integers. -/
theorem debit_at_most_once {accounts : Accounts} {heap : Heap} {as : List Label} {s : State}
    {log : List Executed} (h : runFrom accounts heap as = some (s, log)) :
    (log.map fun d => d.req.idempotencyKey).Nodup ∧
    (∀ p, (s.heap p).balance = (heap p).balance - spent log p) ∧
    (∀ p, 0 ≤ (heap p).balance.toInt →
      (s.heap p).balance.toInt = (heap p).balance.toInt - spentInt log p) ∧
    (∀ i req e, s.calls.get? i = some ⟨req, .returned (.error e)⟩ → e.fromAccountStep = true →
      (∀ d ∈ log, d.call ≠ i) ∧
      ((s.store.reserve req.idempotencyKey).2 = .ok none ∨
        ∃ j, j ≠ i ∧ (Owner s req.idempotencyKey j ∨
          ∃ d ∈ log, d.call = j ∧ d.req.idempotencyKey = req.idempotencyKey))) ∧
    (∀ i req e s', s.calls.get? i = some ⟨req, .releasing e⟩ →
      step accounts s (.finish i) = some s' →
      s'.calls.get? i = some ⟨req, .returned (.error e)⟩ ∧
      (s'.store.reserve req.idempotencyKey).2 = .ok none) := by
  obtain ⟨hk, hl, hb⟩ := inv_run h
  refine ⟨hl.nodup, hb.wrapped, fun p hp => (hb.exact p hp).1, fun i req e hi _ => ?_,
    fun i req e s' hi hstep => ?_⟩
  · have hne := hl.call_ne (call_ne_of_eq hi ⟨by simp, by simp⟩)
    refine ⟨hne, ?_⟩
    by_cases hown : ∃ j, Owner s req.idempotencyKey j
    · obtain ⟨j, hj⟩ := hown
      refine .inr ⟨j, ?_, .inl hj⟩
      rintro rfl
      exact absurd ((owner_iff hi _).mp hj).1 (by simp [Pc.owns])
    by_cases hlog : ∃ d ∈ log, d.req.idempotencyKey = req.idempotencyKey
    · obtain ⟨d, hd, hkey⟩ := hlog
      exact .inr ⟨d.call, hne d hd, .inr ⟨d, hd, rfl, hkey⟩⟩
    · have hfree : s.store.Reservable req.idempotencyKey :=
        reservable_of_idle hk hl (fun j hj => hown ⟨j, hj⟩) (fun d hd hkey => hlog ⟨d, hd, hkey⟩)
      exact .inl (by rw [MemStore.reserve_of_reservable hfree])
  · obtain ⟨hcall, hfree⟩ := reservable_after_release hk hi hstep
    exact ⟨hcall, by rw [MemStore.reserve_of_reservable hfree]⟩

def demoAccounts : Accounts := (Table.empty.set "acct-1" 0).set "acct-2" 1

def demoHeap : Heap := fun p =>
  if p = 0 then { id := "acct-1", balance := 1000 } else { id := "acct-2", balance := 500 }

def demoRetry : List Label :=
  [.call 0 ⟨"req-1", "acct-2", 700⟩, .reserve 0, .call 1 ⟨"req-1", "acct-2", 200⟩, .account 0,
    .finish 0, .reserve 1, .account 1, .finish 1]

theorem debit_at_most_once_retry : ∃ s log,
    runFrom demoAccounts demoHeap demoRetry = some (s, log) ∧
    (log.map fun d => d.req.idempotencyKey) = ["req-1"] ∧ (s.heap 1).balance = 300 ∧
    (s.heap 1).balance = (demoHeap 1).balance - spent log 1 ∧ (∀ d ∈ log, d.call ≠ 0) := by
  have hend : (runFrom demoAccounts demoHeap demoRetry).isSome = true := by decide
  have h := (Option.some_get hend).symm
  have hfailed : ((Option.get _ hend).1.calls.get? 0) = some ⟨⟨"req-1", "acct-2", 700⟩,
      .returned (.error (.account .insufficientFunds))⟩ := rfl
  exact ⟨_, _, h, by decide, by decide, (debit_at_most_once h).2.1 1,
    ((debit_at_most_once h).2.2.2.1 0 _ _ hfailed rfl).1⟩

/-- In every run a key is pending exactly while one call owns it, and then it is not done. -/
theorem pending_iff_owned {as : List Label} (h : runFrom accounts heap as = some (s, log))
    (k : String) :
    (s.store.pending.get? k = some () ↔ ∃! i, Owner s k i) ∧
      (s.store.pending.get? k = some () → s.store.done.get? k = none) := by
  have hk := (inv_run h).keys
  refine ⟨?_, hk.pending_open k⟩
  rw [hk.pending_iff]
  exact ⟨fun ⟨i, hi⟩ => ⟨i, hi, fun j hj => hk.unique k j i hj hi⟩, ExistsUnique.exists⟩

theorem pending_iff_owned_held : ∃ s log,
    runFrom demoAccounts demoHeap (demoRetry.take 2) = some (s, log) ∧
    ∃! i, Owner s "req-1" i := by
  have hend : (runFrom demoAccounts demoHeap (demoRetry.take 2)).isSome = true := by decide
  have h := (Option.some_get hend).symm
  exact ⟨_, _, h, (pending_iff_owned h "req-1").1.mp rfl⟩

/-! ## What a success stands for -/

def Backed (accounts : Accounts) (log : List Executed) (req : DebitRequest) : Prop :=
  ∃ d, (log.filter fun e => e.req.idempotencyKey = req.idempotencyKey) = [d] ∧
    accounts.get? req.accountID = some d.addr ∧ d.req.amount = req.amount

def SuccessBacked (accounts : Accounts) (p : State × List Executed) : Prop :=
  ∀ i req r, p.1.calls.get? i = some ⟨req, .returned (.ok r)⟩ → Backed accounts p.2 req

/-- When the step is a `Reserve` that finds its key completed, the debit executed
under the key was of the request's amount from the account the request names. -/
def ReplayMatches (accounts : Accounts) (p : State × List Executed) (a : Label) : Prop :=
  ∀ i req rec, a = .reserve i → p.1.calls.get? i = some ⟨req, .start⟩ →
    p.1.store.done.get? req.idempotencyKey = some rec →
    ∀ d ∈ p.2, d.req.idempotencyKey = req.idempotencyKey →
      accounts.get? req.accountID = some d.addr ∧ d.req.amount = req.amount

theorem filter_key_eq_singleton (hnodup : (log.map fun d => d.req.idempotencyKey).Nodup)
    (hd : d ∈ log) (hk : d.req.idempotencyKey = k) :
    (log.filter fun e => e.req.idempotencyKey = k) = [d] := by
  induction log with
  | nil => cases hd
  | cons e log ih =>
    rw [map_cons, nodup_cons] at hnodup
    rcases mem_cons.mp hd with rfl | hd
    · rw [filter_cons_of_pos (by simpa using hk), filter_eq_nil_iff.mpr]
      intro e he hek
      refine hnodup.1 (mem_map.mpr ⟨e, he, ?_⟩)
      rw [hk]
      exact of_decide_eq_true hek
    have hne : e.req.idempotencyKey ≠ k := by
      rintro rfl
      exact hnodup.1 (mem_map.mpr ⟨d, hd, hk⟩)
    rw [filter_cons_of_neg (by simpa using hne)]
    exact ih hnodup.2 hd

theorem backed_iff (hnodup : (log.map fun d => d.req.idempotencyKey).Nodup)
    (hd : d ∈ log) (hk : d.req.idempotencyKey = req.idempotencyKey) :
    Backed accounts log req ↔
      accounts.get? req.accountID = some d.addr ∧ d.req.amount = req.amount := by
  rw [Backed, filter_key_eq_singleton hnodup hd hk]
  constructor
  · rintro ⟨e, he, h⟩
    cases he
    exact h
  · exact fun h => ⟨d, rfl, h⟩

theorem backed_append (hnodup : ((log ++ es).map fun d => d.req.idempotencyKey).Nodup)
    (hd : ∃ d ∈ log, d.req.idempotencyKey = req.idempotencyKey) :
    Backed accounts (log ++ es) req ↔ Backed accounts log req := by
  obtain ⟨d, hd, hk⟩ := hd
  rw [backed_iff hnodup (mem_append_left _ hd) hk, backed_iff _ hd hk]
  rw [map_append] at hnodup
  exact hnodup.of_append_left

variable {store : MemStore}

theorem successBacked_setPc (hi : ∀ req r, s.calls.get? i ≠ some ⟨req, .returned (.ok r)⟩) :
    SuccessBacked accounts ({ s with store := store, heap := heap }.setPc i req pc, log) ↔
      SuccessBacked accounts (s, log) ∧ ∀ r, pc = .returned (.ok r) → Backed accounts log req := by
  constructor
  · intro h
    refine ⟨fun j req' r hj => ?_, fun r hr => ?_⟩
    · have hji : j ≠ i := by
        rintro rfl
        exact hi req' r hj
      refine h j req' r ?_
      rw [← hj]
      exact (get?_set _ _ _ _).trans (if_neg hji)
    · refine h i req r ?_
      rw [hr]
      exact get?_set_self _ _ _
  · rintro ⟨h, hpc⟩ j req' r hj
    change (s.calls.set i ⟨req, pc⟩).get? j = _ at hj
    rw [get?_set] at hj
    by_cases hji : j = i
    · rw [if_pos hji] at hj
      cases hj
      exact hpc r rfl
    · rw [if_neg hji] at hj
      exact h j req' r hj

theorem not_success_of_eq (hi : s.calls.get? i = some ⟨req, pc⟩)
    (hpc : ∀ r, pc ≠ .returned (.ok r)) :
    ∀ req r, s.calls.get? i ≠ some ⟨req, .returned (.ok r)⟩ := by
  intro req' r h
  rw [hi] at h
  cases h
  exact hpc r rfl

theorem replayMatches_of_open (h : ∀ i req, a = .reserve i → s.calls.get? i = some ⟨req, .start⟩ →
      s.store.done.get? req.idempotencyKey = none) : ReplayMatches accounts (s, log) a := by
  intro i req rec ha hi hdone
  rw [show s.store.done.get? req.idempotencyKey = none from h i req ha hi] at hdone
  cases hdone

theorem replayMatches_reserve (hi : s.calls.get? i = some ⟨req, .start⟩)
    (hopen : s.store.done.get? req.idempotencyKey = none) :
    ReplayMatches accounts (s, log) (.reserve i) := by
  refine replayMatches_of_open fun j req' hj hj' => ?_
  cases hj
  rw [hi] at hj'
  cases hj'
  exact hopen

theorem successBacked_quiet (hi : ∀ req r, s.calls.get? i ≠ some ⟨req, .returned (.ok r)⟩)
    (hpc : ∀ r, pc ≠ .returned (.ok r)) (hreplay : ReplayMatches accounts (s, log) a) :
    SuccessBacked accounts ({ s with store := store, heap := heap }.setPc i req pc, log) ↔
      SuccessBacked accounts (s, log) ∧ ReplayMatches accounts (s, log) a := by
  rw [successBacked_setPc hi]
  exact and_congr_right' ⟨fun _ => hreplay, fun _ r hr => absurd hr (hpc r)⟩

theorem replayMatches_replay (hl : LogInv s log) {rec : Record}
    (hi : s.calls.get? i = some ⟨req, .start⟩)
    (hdone : s.store.done.get? req.idempotencyKey = some rec) :
    ReplayMatches accounts (s, log) (.reserve i) ↔ Backed accounts log req := by
  obtain ⟨-, d, hd, hk⟩ := hl.done_backed _ _ hdone
  constructor
  · intro h
    exact (backed_iff hl.nodup hd hk).mpr (h i req rec rfl hi hdone d hd hk)
  intro h j req' rec' hj hj' _ e he hek
  cases hj
  rw [hi] at hj'
  cases hj'
  exact (backed_iff hl.nodup he hek).mp h

theorem successBacked_step (p : State × List Executed) (a : Label) (q : State × List Executed)
    (hp : Inv accounts heap p) (h : logged (step accounts) (emit accounts) p a = some q) :
    SuccessBacked accounts q ↔ SuccessBacked accounts p ∧ ReplayMatches accounts p a := by
  have hq := inv_step p a q hp h
  obtain ⟨hstep, hlog⟩ := logged_eq_some.mp h
  have hmove := move_of_step hstep
  obtain ⟨s, log⟩ := p
  obtain ⟨s', log'⟩ := q
  simp only at hlog hmove hstep
  generalize hes : emit accounts s a = es at hlog hmove
  have hne : ∀ {i}, s.calls.get? i = none →
      ∀ req r, s.calls.get? i ≠ some ⟨req, .returned (.ok r)⟩ :=
    fun hi req r => by simp [hi]
  cases hmove with
  | reject hi hkey | enter hi hkey =>
    rw [hlog, append_nil]
    exact successBacked_quiet (hne hi) nofun (replayMatches_of_open nofun)
  | replay hi hdone =>
    rw [hlog, append_nil, successBacked_setPc (not_success_of_eq hi (by simp)),
      replayMatches_replay hp.log hi hdone]
    simp
  | busy hi hpending =>
    rw [hlog, append_nil]
    exact successBacked_quiet (not_success_of_eq hi nofun) nofun
      (replayMatches_reserve hi (hp.keys.pending_open _ hpending))
  | reserve hi hfree =>
    rw [hlog, append_nil]
    exact successBacked_quiet (not_success_of_eq hi nofun) nofun
      (replayMatches_reserve hi hfree.1)
  | fail hi he =>
    rw [hlog, append_nil]
    exact successBacked_quiet (not_success_of_eq hi nofun) nofun (replayMatches_of_open nofun)
  | debit hi hp' ha =>
    -- The new debit is under a fresh key, so it backs or unbacks no earlier answer.
    rw [successBacked_setPc (not_success_of_eq hi (by simp))]
    refine and_congr ?_ ⟨fun _ => replayMatches_of_open (by simp), by simp⟩
    have hnodup := hq.log.nodup
    simp only [hlog] at hnodup ⊢
    exact forall_congr' fun j => forall_congr' fun req' => forall_congr' fun r =>
      imp_congr_right fun hj => backed_append hnodup (hp.log.answered j req' r hj)
  | release hi =>
    rw [hlog, append_nil]
    exact successBacked_quiet (not_success_of_eq hi nofun) nofun (replayMatches_of_open nofun)
  | @complete i req hi =>
    rw [append_nil] at hlog
    rw [hlog, successBacked_setPc (not_success_of_eq hi (by simp))]
    refine and_congr_right' ⟨fun _ => replayMatches_of_open (by simp), fun _ r _ => ?_⟩
    obtain ⟨d, hd, hdi⟩ := hp.log.completing i req hi
    obtain ⟨pc, hpc, -⟩ := hp.log.settled d hd
    rw [hdi, hi] at hpc
    cases hpc
    exact (backed_iff hp.log.nodup hd rfl).mpr ⟨hp.balances.addr d hd, rfl⟩

/-- Every success answered in a schedule is backed by the one debit under its
key, of its amount and from its account, exactly when no `Reserve` of the
schedule replays a completed key for a request with another account or amount. -/
theorem success_backed_iff {accounts : Accounts} {heap : Heap} {as : List Label} {s : State}
    {log : List Executed} (h : runFrom accounts heap as = some (s, log)) :
    SuccessBacked accounts (s, log) ↔
      RunMeets (logged (step accounts) (emit accounts)) (ReplayMatches accounts)
        (initial heap, []) as := by
  have hinit : SuccessBacked accounts (initial heap, []) := by
    intro i req r hi
    cases hi
  rw [run_iff_meets inv_step successBacked_step (inv_initial accounts heap) h]
  exact and_iff_right hinit

def demoReuse : List Label :=
  [.call 0 ⟨"req-1", "acct-1", 100⟩, .reserve 0, .account 0, .finish 0,
    .call 1 ⟨"req-1", "acct-2", 400⟩, .reserve 1]

theorem reused_key_success_unbacked : ∃ s log,
    runFrom demoAccounts demoHeap demoReuse = some (s, log) ∧
    s.calls.get? 1 = some ⟨⟨"req-1", "acct-2", 400⟩, .returned (.ok debited)⟩ ∧
    (s.heap 1).balance = 500 ∧ ¬ SuccessBacked demoAccounts (s, log) := by
  have hend : (runFrom demoAccounts demoHeap demoReuse).isSome = true := by decide
  refine ⟨_, _, (Option.some_get hend).symm, rfl, by decide, fun hback => ?_⟩
  obtain ⟨d, hd, haddr, hamount⟩ := hback 1 ⟨"req-1", "acct-2", 400⟩ debited rfl
  have hd' : [Executed.mk 0 ⟨"req-1", "acct-1", 100⟩ 0] = [d] := hd
  cases hd'
  revert hamount
  decide

theorem success_backed_iff_retry : ∃ s log,
    runFrom demoAccounts demoHeap demoRetry = some (s, log) ∧
    (SuccessBacked demoAccounts (s, log) ↔
      RunMeets (logged (step demoAccounts) (emit demoAccounts)) (ReplayMatches demoAccounts)
        (initial demoHeap, []) demoRetry) := by
  have hend : (runFrom demoAccounts demoHeap demoRetry).isSome = true := by decide
  exact ⟨_, _, (Option.some_get hend).symm, success_backed_iff (Option.some_get hend).symm⟩

end GoServices.Ledger
