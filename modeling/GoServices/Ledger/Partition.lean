/-
A shard of accounts with one owner: `Shard.Do` and the goroutine `run`.

A caller puts a command into the channel and waits for the answer on a channel of its own, or
leaves when its context is done.
-/
import GoServices.Base.Run
import GoServices.Base.Table
import GoServices.Ledger.Account

namespace GoServices.Ledger.Partition

open List Table

inductive ShardError
  | unknownAccount
  deriving DecidableEq

/-- A command, with the number of the call whose `done` channel it carries. -/
structure Command where
  call : Nat
  accountID : String
  fn : Account → Account

/-- A `done` channel: it has room for one value. -/
structure Done where
  value : Option ShardError
  closed : Bool

/-- What `Do` returns. -/
inductive Result
  | done
  | failed (err : ShardError)
  | contextDone
  deriving DecidableEq

inductive Phase
  /-- In the first `select`. -/
  | sending
  /-- In the second `select`. -/
  | waiting
  | returned (result : Result)
  deriving DecidableEq

/-- One call of `Do`. -/
structure Call where
  accountID : String
  fn : Account → Account
  cancelled : Bool
  phase : Phase
  done : Done

inductive Owner
  | idle
  | checking (cmd : Command)
  | running (cmd : Command)
  | replying (cmd : Command)
  | closing (cmd : Command)

structure State where
  accounts : Table String Account
  queue : List Command
  owner : Owner
  calls : Table Nat Call
  entered : List Command
  begun : List Command
  ended : List Command
  handled : List Command

/-- The room of the channel `commands`. -/
def capacity : Nat := 64

def newShard (accounts : List Account) : State where
  accounts := accounts.foldl (fun m a => m.set a.id a) .empty
  queue := []
  owner := .idle
  calls := .empty
  entered := []
  begun := []
  ended := []
  handled := []

/-! ## Steps -/

def runOn (accounts : Table String Account) (cmd : Command) : Table String Account :=
  match accounts.get? cmd.accountID with
  | some acc => accounts.set cmd.accountID (cmd.fn acc)
  | none => accounts

def State.setCall (s : State) (n : Nat) (k : Call) : State := { s with calls := s.calls.set n k }

def State.ownerStep (s : State) : Option State :=
  match s.owner with
  | .idle =>
    match s.queue with
    | [] => none
    | cmd :: queue => some { s with queue := queue, owner := .checking cmd }
  | .checking cmd =>
    match s.accounts.get? cmd.accountID with
    | none => some { s with owner := .replying cmd }
    | some _ => some { s with owner := .running cmd, begun := s.begun ++ [cmd] }
  | .running cmd => some { s with
      accounts := runOn s.accounts cmd
      owner := .closing cmd
      ended := s.ended ++ [cmd]
      handled := s.handled ++ [cmd] }
  | .replying cmd =>
    match s.calls.get? cmd.call with
    | some ⟨accountID, fn, cancelled, phase, ⟨none, false⟩⟩ =>
      some { s with
        owner := .closing cmd
        handled := s.handled ++ [cmd]
        calls := s.calls.set cmd.call
          ⟨accountID, fn, cancelled, phase, ⟨some .unknownAccount, false⟩⟩ }
    | _ => none
  | .closing cmd =>
    match s.calls.get? cmd.call with
    | some ⟨accountID, fn, cancelled, phase, ⟨value, false⟩⟩ =>
      some { s with
        owner := .idle
        calls := s.calls.set cmd.call ⟨accountID, fn, cancelled, phase, ⟨value, true⟩⟩ }
    | _ => none

inductive Label
  | call (n : Nat) (accountID : String) (fn : Account → Account)
  | send (n : Nat)
  | receive (n : Nat)
  /-- The call takes the branch of `ctx.Done()`. -/
  | leave (n : Nat)
  | cancel (n : Nat)
  | owner

def step (s : State) : Label → Option State
  | .call n accountID fn =>
    match s.calls.get? n with
    | none => some (s.setCall n ⟨accountID, fn, false, .sending, ⟨none, false⟩⟩)
    | some _ => none
  | .send n =>
    match s.calls.get? n with
    | some ⟨accountID, fn, cancelled, .sending, done⟩ =>
      if s.queue.length < capacity then
        some { s with
          queue := s.queue ++ [⟨n, accountID, fn⟩]
          entered := s.entered ++ [⟨n, accountID, fn⟩]
          calls := s.calls.set n ⟨accountID, fn, cancelled, .waiting, done⟩ }
      else none
    | _ => none
  | .receive n =>
    match s.calls.get? n with
    | some ⟨accountID, fn, cancelled, .waiting, ⟨some err, closed⟩⟩ =>
      some (s.setCall n ⟨accountID, fn, cancelled, .returned (.failed err), ⟨none, closed⟩⟩)
    | some ⟨accountID, fn, cancelled, .waiting, ⟨none, true⟩⟩ =>
      some (s.setCall n ⟨accountID, fn, cancelled, .returned .done, ⟨none, true⟩⟩)
    | _ => none
  | .leave n =>
    match s.calls.get? n with
    | some ⟨accountID, fn, true, .sending, done⟩ | some ⟨accountID, fn, true, .waiting, done⟩ =>
      some (s.setCall n ⟨accountID, fn, true, .returned .contextDone, done⟩)
    | _ => none
  | .cancel n =>
    match s.calls.get? n with
    | some k => some (s.setCall n { k with cancelled := true })
    | none => none
  | .owner => s.ownerStep

inductive Trans (s : State) : Label → State → Prop
  | call {n accountID fn : _} (hnew : s.calls.get? n = none) :
    Trans s (.call n accountID fn)
      (s.setCall n ⟨accountID, fn, false, .sending, ⟨none, false⟩⟩)
  | send {n k : _} (hk : s.calls.get? n = some k) (hphase : k.phase = .sending) :
    Trans s (.send n) { s with
      queue := s.queue ++ [⟨n, k.accountID, k.fn⟩]
      entered := s.entered ++ [⟨n, k.accountID, k.fn⟩]
      calls := s.calls.set n { k with phase := .waiting } }
  | receiveError {n k err : _} (hk : s.calls.get? n = some k)
    (hphase : k.phase = .waiting) (hvalue : k.done.value = some err) :
    Trans s (.receive n)
      (s.setCall n { k with phase := .returned (.failed err), done := ⟨none, k.done.closed⟩ })
  | receiveDone {n k : _} (hk : s.calls.get? n = some k) (hphase : k.phase = .waiting)
    (hvalue : k.done.value = none) (hclosed : k.done.closed = true) :
    Trans s (.receive n) (s.setCall n { k with phase := .returned .done })
  | leave {n k : _} (hk : s.calls.get? n = some k) (hphase : ∀ r, k.phase ≠ .returned r) :
    Trans s (.leave n) (s.setCall n { k with phase := .returned .contextDone })
  | cancel {n k : _} (hk : s.calls.get? n = some k) :
    Trans s (.cancel n) (s.setCall n { k with cancelled := true })
  | take {cmd queue : _} (howner : s.owner = .idle) (hqueue : s.queue = cmd :: queue) :
    Trans s .owner { s with queue := queue, owner := .checking cmd }
  | reject {cmd : _} (howner : s.owner = .checking cmd)
    (hnone : s.accounts.get? cmd.accountID = none) :
    Trans s .owner { s with owner := .replying cmd }
  | begin {cmd acc : _} (howner : s.owner = .checking cmd)
    (hsome : s.accounts.get? cmd.accountID = some acc) :
    Trans s .owner { s with owner := .running cmd, begun := s.begun ++ [cmd] }
  | finish {cmd : _} (howner : s.owner = .running cmd) :
    Trans s .owner { s with
      accounts := runOn s.accounts cmd
      owner := .closing cmd
      ended := s.ended ++ [cmd]
      handled := s.handled ++ [cmd] }
  | reply {cmd k : _} (howner : s.owner = .replying cmd) (hk : s.calls.get? cmd.call = some k) :
    Trans s .owner { s with
      owner := .closing cmd
      handled := s.handled ++ [cmd]
      calls := s.calls.set cmd.call { k with done := ⟨some .unknownAccount, false⟩ } }
  | close {cmd k : _} (howner : s.owner = .closing cmd) (hk : s.calls.get? cmd.call = some k) :
    Trans s .owner { s with
      owner := .idle
      calls := s.calls.set cmd.call { k with done := ⟨k.done.value, true⟩ } }

variable {s s' : State} {a : Label}

theorem ownerStep_trans (h : s.ownerStep = some s') : Trans s .owner s' := by
  revert h
  fun_cases State.ownerStep s <;> rintro ⟨⟩
  · exact .take ‹_› ‹_›
  · exact .reject ‹_› ‹_›
  · exact .begin ‹_› ‹_›
  · exact .finish ‹_›
  · exact .reply ‹_› ‹_›
  · exact .close ‹_› ‹_›

theorem step_trans (h : step s a = some s') : Trans s a s' := by
  revert h
  fun_cases step s a <;> intro h <;> try cases h
  · exact .call ‹_›
  · exact .send ‹_› rfl
  · exact .receiveError ‹_› rfl rfl
  · exact .receiveDone ‹_› rfl rfl rfl
  · rename_i hk
    exact .leave hk nofun
  · rename_i hk
    exact .leave hk nofun
  · exact .cancel ‹_›
  · exact ownerStep_trans h

/-! ## The accounts and the order of the commands -/

section Inv

variable (accounts : Table String Account)

def owned (cmd : Command) : Bool := (accounts.get? cmd.accountID).isSome

def Owner.pending : Owner → List Command
  | .checking cmd | .running cmd | .replying cmd => [cmd]
  | .idle | .closing _ => []

def Owner.current : Owner → List Command
  | .running cmd => [cmd]
  | _ => []

structure Ordered (s : State) : Prop where
  entered : s.entered = s.handled ++ s.owner.pending ++ s.queue
  nodup : (s.entered.map Command.call).Nodup
  ended : s.ended = s.handled.filter (owned accounts)
  begun : s.begun = s.ended ++ s.owner.current
  balances : s.accounts = s.ended.foldl runOn accounts
  running : ∀ cmd, s.owner = .running cmd → owned accounts cmd = true
  replying : ∀ cmd, s.owner = .replying cmd → owned accounts cmd = false
  closing : ∀ cmd, s.owner = .closing cmd → cmd ∈ s.handled

structure Answered (s : State) (n : Nat) (k : Call) : Prop where
  value : k.done.value ≠ none → ∃ cmd ∈ s.handled, cmd.call = n ∧ owned accounts cmd = false
  closed : k.done.closed = true → ∃ cmd ∈ s.handled, cmd.call = n ∧
    ∀ c, s.owner = .closing c → c.call ≠ n
  done : k.phase = .returned .done → ∃ cmd ∈ s.handled, cmd.call = n ∧ owned accounts cmd = true
  failed : ∀ err, k.phase = .returned (.failed err) →
    ∃ cmd ∈ s.handled, cmd.call = n ∧ owned accounts cmd = false

structure Inv (s : State) : Prop where
  ordered : Ordered accounts s
  calls : ∀ cmd ∈ s.entered, ∃ k, s.calls.get? cmd.call = some k ∧
    cmd = ⟨cmd.call, k.accountID, k.fn⟩ ∧ k.phase ≠ .sending
  answered : ∀ n k, s.calls.get? n = some k → Answered accounts s n k
  refused : ∀ cmd ∈ s.handled, owned accounts cmd = false → ∀ k, s.calls.get? cmd.call = some k →
    k.done.value ≠ none ∨ ∃ r, k.phase = .returned r

theorem new_inv (as : List Account) : Inv (newShard as).accounts (newShard as) where
  ordered := {
    entered := rfl
    nodup := nodup_nil
    ended := rfl
    begun := rfl
    balances := rfl
    running := nofun
    replying := nofun
    closing := nofun }
  calls := fun _ h => absurd h not_mem_nil
  answered := nofun
  refused := fun _ h => absurd h not_mem_nil

variable {accounts} {s s' : State}

theorem get?_runOn (m : Table String Account) (cmd : Command) (id : String) :
    ((runOn m cmd).get? id).isSome = (m.get? id).isSome := by
  unfold runOn
  split
  · rename_i acc hacc
    rw [get?_set]
    split
    · rename_i hid
      rw [hid, hacc]
      rfl
    · rfl
  · rfl

theorem get?_foldl_runOn (m : Table String Account) (cmds : List Command) (id : String) :
    ((cmds.foldl runOn m).get? id).isSome = (m.get? id).isSome := by
  induction cmds generalizing m with
  | nil => rfl
  | cons cmd cmds ih => rw [foldl_cons, ih, get?_runOn]

theorem Ordered.owned_eq (h : Ordered accounts s) (cmd : Command) :
    (s.accounts.get? cmd.accountID).isSome = owned accounts cmd := by
  rw [h.balances, get?_foldl_runOn, owned]

variable {cmd : Command}

theorem Ordered.pending_call (h : Ordered accounts s) (hcmd : cmd ∈ s.owner.pending) :
    ∀ c ∈ s.handled, c.call ≠ cmd.call := by
  intro c hc
  have hnodup := h.nodup
  rw [h.entered, map_append, map_append] at hnodup
  have hdisjoint := (nodup_append.mp (nodup_append.mp hnodup).1).2.2
  exact hdisjoint _ (mem_map_of_mem hc) _ (mem_map_of_mem hcmd)

variable {n : Nat}

theorem Inv.not_entered (h : Inv accounts s)
    (hsending : ∀ k, s.calls.get? n = some k → k.phase = .sending) :
    ∀ cmd ∈ s.entered, cmd.call ≠ n := by
  rintro cmd hcmd rfl
  obtain ⟨k, hk, -, hne⟩ := h.calls cmd hcmd
  exact hne (hsending k hk)

variable {k : Call}

theorem Inv.not_entered_of_sending (h : Inv accounts s) (hk : s.calls.get? n = some k)
    (hphase : k.phase = .sending) :
    ∀ cmd ∈ s.entered, cmd.call ≠ n := by
  refine h.not_entered fun l hl => ?_
  rw [hk] at hl
  cases hl
  exact hphase

theorem Ordered.enter (h : Ordered accounts s) (hnew : ∀ c ∈ s.entered, c.call ≠ cmd.call)
    (calls : Table Nat Call) :
    Ordered accounts { s with
      queue := s.queue ++ [cmd], entered := s.entered ++ [cmd], calls := calls } := by
  refine ⟨?_, ?_, h.ended, h.begun, h.balances, h.running, h.replying, h.closing⟩
  · rw [h.entered, append_assoc _ s.queue]
  rw [map_append]
  refine nodup_append.mpr ⟨h.nodup, nodup_singleton _, ?_⟩
  intro i hi j hj
  obtain ⟨c, hc, rfl⟩ := mem_map.mp hi
  rw [mem_singleton.mp hj]
  exact hnew c hc

theorem Ordered.answer (h : Ordered accounts s) (hpending : s.owner.pending = [cmd])
    {ended : List Command} (hended : ended = s.ended ++ [cmd].filter (owned accounts))
    (hbegun : s.begun = ended) (calls : Table Nat Call) :
    Ordered accounts { s with
      accounts := ended.foldl runOn accounts, owner := .closing cmd, ended := ended,
      handled := s.handled ++ [cmd], calls := calls } := by
  refine ⟨?_, h.nodup, ?_, ?_, rfl, nofun, nofun, ?_⟩
  · show s.entered = s.handled ++ [cmd] ++ [] ++ s.queue
    rw [h.entered, hpending, append_nil]
  · rw [hended, h.ended, filter_append]
  · show s.begun = ended ++ []
    rw [hbegun, append_nil]
  · rintro _ ⟨⟩
    exact mem_concat_self

theorem Inv.ordered_step (h : Inv accounts s) {a : Label} (htrans : Trans s a s') :
    Ordered accounts s' := by
  have ho := h.ordered
  -- a step of the owner away from a command that has not begun, or has ended
  have hbegun (hnone : s.owner.current = []) : s.begun = s.ended ++ [] := by
    rw [ho.begun, hnone]
  cases htrans with
  | call | receiveError | receiveDone | leave | cancel =>
    exact ⟨ho.entered, ho.nodup, ho.ended, ho.begun, ho.balances, ho.running, ho.replying,
      ho.closing⟩
  | send hk hphase => exact ho.enter (h.not_entered_of_sending hk hphase) _
  | @take cmd queue howner hqueue =>
    refine ⟨?_, ho.nodup, ho.ended, hbegun (by rw [howner]; rfl), ho.balances, nofun, nofun, nofun⟩
    rw [ho.entered, howner, hqueue]
    simp [Owner.pending]
  | @reject cmd howner hnone =>
    refine ⟨?_, ho.nodup, ho.ended, hbegun (by rw [howner]; rfl), ho.balances, nofun, ?_, nofun⟩
    · rw [ho.entered, howner]
      rfl
    rintro _ ⟨⟩
    rw [← ho.owned_eq, hnone]
    rfl
  | @begin cmd acc howner hsome =>
    refine ⟨?_, ho.nodup, ho.ended, ?_, ho.balances, ?_, nofun, nofun⟩
    · rw [ho.entered, howner]
      rfl
    · show s.begun ++ [cmd] = s.ended ++ [cmd]
      rw [hbegun (by rw [howner]; rfl), append_nil]
    rintro _ ⟨⟩
    rw [← ho.owned_eq, hsome]
    rfl
  | @finish cmd howner =>
    have haccounts : runOn s.accounts cmd = (s.ended ++ [cmd]).foldl runOn accounts := by
      rw [foldl_append, ← ho.balances]
      rfl
    rw [haccounts]
    refine ho.answer (by rw [howner]; rfl) ?_ ?_ s.calls
    · rw [filter_singleton, ho.running cmd howner]
      rfl
    · rw [ho.begun, howner]
      rfl
  | @reply cmd k howner hk =>
    have hended : s.ended = s.ended ++ [cmd].filter (owned accounts) := by
      rw [filter_singleton, ho.replying cmd howner]
      exact (append_nil _).symm
    have hnone : s.begun = s.ended := by
      rw [hbegun (by rw [howner]; rfl), append_nil]
    have hanswer := ho.answer (by rw [howner]; rfl) hended hnone
      (s.calls.set cmd.call { k with done := ⟨some .unknownAccount, false⟩ })
    rw [← ho.balances] at hanswer
    exact hanswer
  | @close cmd k howner hk =>
    refine ⟨?_, ho.nodup, ho.ended, hbegun (by rw [howner]; rfl), ho.balances, nofun, nofun, nofun⟩
    rw [ho.entered, howner]
    rfl

theorem Answered.mono (h : Answered accounts s n k) (hhandled : ∀ cmd ∈ s.handled, cmd ∈ s'.handled)
    (howner : ∀ c, s'.owner = .closing c →
      s.owner = .closing c ∨ ∀ d ∈ s.handled, d.call ≠ c.call) : Answered accounts s' n k := by
  have hmono : ∀ {P : Command → Prop}, (∃ cmd ∈ s.handled, P cmd) → ∃ cmd ∈ s'.handled, P cmd :=
    fun ⟨cmd, hcmd, hp⟩ => ⟨cmd, hhandled cmd hcmd, hp⟩
  refine ⟨fun hv => hmono (h.value hv), fun hc => ?_, fun hd => hmono (h.done hd),
    fun err hf => hmono (h.failed err hf)⟩
  obtain ⟨cmd, hcmd, hcall, hother⟩ := h.closed hc
  refine ⟨cmd, hhandled cmd hcmd, hcall, fun c hclosing heq => ?_⟩
  obtain hsame | hnone := howner c hclosing
  · exact hother c hsame heq
  · exact hnone cmd hcmd (hcall.trans heq.symm)

theorem Inv.served (h : Inv accounts s) (hk : s.calls.get? n = some k) (hphase : k.phase = .waiting)
    (hvalue : k.done.value = none) (hclosed : k.done.closed = true) :
    ∃ cmd ∈ s.handled, cmd.call = n ∧ owned accounts cmd = true := by
  obtain ⟨cmd, hcmd, rfl, -⟩ := (h.answered n k hk).closed hclosed
  refine ⟨cmd, hcmd, rfl, ?_⟩
  by_contra hunowned
  rcases h.refused cmd hcmd (Bool.eq_false_of_not_eq_true hunowned) k hk with hne | ⟨r, hr⟩
  · exact hne hvalue
  · rw [hphase] at hr
    cases hr

theorem Inv.owner (h : Inv accounts s) (hcalls : s'.calls = s.calls)
    (hentered : s'.entered = s.entered) (hordered : Ordered accounts s')
    (hhandled : ∀ cmd, cmd ∈ s'.handled → cmd ∈ s.handled ∨ owned accounts cmd = true)
    (hkept : ∀ cmd ∈ s.handled, cmd ∈ s'.handled) (howner : ∀ c, s'.owner = .closing c →
      s.owner = .closing c ∨ ∀ d ∈ s.handled, d.call ≠ c.call) : Inv accounts s' := by
  refine ⟨hordered, ?_, fun n k hk => ?_, fun cmd hcmd hunowned k hk => ?_⟩
  · rw [hentered, hcalls]
    exact h.calls
  · rw [hcalls] at hk
    exact (h.answered n k hk).mono hkept howner
  rw [hcalls] at hk
  rcases hhandled cmd hcmd with hcmd | howned
  · exact h.refused cmd hcmd hunowned k hk
  · rw [hunowned] at howned
    cases howned

variable {k' : Call}

theorem Inv.ownerOn (h : Inv accounts s) (hk : s.calls.get? n = some k)
    (hcalls : s'.calls = s.calls.set n k') (hsame : k'.accountID = k.accountID ∧ k'.fn = k.fn)
    (hphase : k.phase ≠ .sending → k'.phase ≠ .sending) (hentered : s'.entered = s.entered)
    (hordered : Ordered accounts s') (hkept : ∀ cmd ∈ s.handled, cmd ∈ s'.handled)
    (howner : ∀ c, s'.owner = .closing c → s.owner = .closing c ∨ ∀ d ∈ s.handled, d.call ≠ c.call)
    (hself : Answered accounts s' n k')
    (hrefused : ∀ cmd ∈ s'.handled, owned accounts cmd = false → (cmd.call = n →
      k'.done.value ≠ none ∨ ∃ r, k'.phase = .returned r) ∧ (cmd.call ≠ n → cmd ∈ s.handled))
    : Inv accounts s' := by
  refine ⟨hordered, fun cmd hcmd => ?_, fun m l hl => ?_, fun cmd hcmd hunowned l hl => ?_⟩
  · rw [hentered] at hcmd
    obtain ⟨l, hl, heq, hne⟩ := h.calls cmd hcmd
    rw [hcalls, get?_set]
    split
    · rename_i hn
      rw [hn, hk] at hl
      cases hl
      refine ⟨k', rfl, ?_, hphase hne⟩
      rw [hsame.1, hsame.2]
      exact heq
    · exact ⟨l, hl, heq, hne⟩
  · rw [hcalls] at hl
    obtain ⟨rfl, rfl⟩ | ⟨-, hl⟩ := set_cases hl
    · exact hself
    · exact (h.answered m l hl).mono hkept howner
  rw [hcalls] at hl
  obtain ⟨hn, rfl⟩ | ⟨hn, hl⟩ := set_cases hl
  · exact (hrefused cmd hcmd hunowned).1 hn
  · exact h.refused cmd ((hrefused cmd hcmd hunowned).2 hn) hunowned l hl

theorem Inv.caller (h : Inv accounts s) (hk : s.calls.get? n = some k)
    (hsame : k'.accountID = k.accountID ∧ k'.fn = k.fn)
    (hphase : k.phase ≠ .sending → k'.phase ≠ .sending) (hanswered : Answered accounts s n k')
    (hrefused : (k.done.value ≠ none ∨ ∃ r, k.phase = .returned r) →
      k'.done.value ≠ none ∨ ∃ r, k'.phase = .returned r)
    (hordered : Ordered accounts (s.setCall n k')) : Inv accounts (s.setCall n k') := by
  refine h.ownerOn hk rfl hsame hphase rfl hordered (fun _ hcmd => hcmd) (fun _ hc => .inl hc)
    ⟨hanswered.value, hanswered.closed, hanswered.done,
      hanswered.failed⟩ fun cmd hcmd hunowned => ?_
  exact ⟨fun hcall => hrefused (h.refused cmd hcmd hunowned k (hcall ▸ hk)), fun _ => hcmd⟩

theorem Ordered.mem_entered (h : Ordered accounts s)
    (hcmd : cmd ∈ s.handled ∨ cmd ∈ s.owner.pending) : cmd ∈ s.entered := by
  rw [h.entered, append_assoc, mem_append, mem_append]
  exact hcmd.imp_right Or.inl

section
variable (h : Inv accounts s)
include h

theorem Inv.call_step {accountID : String} {fn : Account → Account} (hnew : s.calls.get? n = none)
    (hordered : Ordered accounts (s.setCall n ⟨accountID, fn, false, .sending, ⟨none, false⟩⟩)) :
    Inv accounts (s.setCall n ⟨accountID, fn, false, .sending, ⟨none, false⟩⟩) := by
  have hother : ∀ cmd ∈ s.entered, cmd.call ≠ n := by
    refine h.not_entered fun k hk => ?_
    rw [hnew] at hk
    cases hk
  refine ⟨hordered, fun cmd hcmd => ?_, fun m l hl => ?_, fun cmd hcmd hunowned l hl => ?_⟩
  · obtain ⟨k, hk, heq, hne⟩ := h.calls cmd hcmd
    exact ⟨k, (get?_set _ _ _ _).trans ((if_neg (hother cmd hcmd)).trans hk), heq, hne⟩
  · obtain ⟨rfl, rfl⟩ | ⟨-, hl⟩ := set_cases hl
    · exact ⟨fun hne => absurd rfl hne, nofun, nofun, nofun⟩
    · have hbefore := h.answered m l hl
      exact ⟨hbefore.value, hbefore.closed, hbefore.done, hbefore.failed⟩
  · obtain ⟨hcall, -⟩ | ⟨-, hl⟩ := set_cases hl
    · exact absurd hcall (hother cmd (h.ordered.mem_entered (.inl hcmd)))
    · exact h.refused cmd hcmd hunowned l hl

theorem Inv.send_step (hk : s.calls.get? n = some k) (hphase : k.phase = .sending)
    (hcalls : s'.calls = s.calls.set n { k with phase := .waiting })
    (hentered : s'.entered = s.entered ++ [⟨n, k.accountID, k.fn⟩])
    (hhandled : s'.handled = s.handled) (howner : s'.owner = s.owner)
    (hordered : Ordered accounts s') : Inv accounts s' := by
  have hother := h.not_entered_of_sending hk hphase
  refine ⟨hordered, fun cmd hcmd => ?_, fun m l hl => ?_, fun cmd hcmd hunowned l hl => ?_⟩
  · rw [hentered] at hcmd
    rw [hcalls]
    rcases mem_concat_cases hcmd with hcmd | heq
    · obtain ⟨l, hl, heq, hne⟩ := h.calls cmd hcmd
      exact ⟨l, (get?_set _ _ _ _).trans ((if_neg (hother cmd hcmd)).trans hl), heq, hne⟩
    · rw [heq]
      exact ⟨_, get?_set_self _ _ _, rfl, nofun⟩
  · rw [hcalls] at hl
    have hbefore : Answered accounts s m l := by
      obtain ⟨rfl, rfl⟩ | ⟨-, hl⟩ := set_cases hl
      · exact ⟨(h.answered m k hk).value, (h.answered m k hk).closed, nofun, nofun⟩
      · exact h.answered m l hl
    refine hbefore.mono (fun cmd hcmd => hhandled ▸ hcmd) fun c hc => .inl (howner ▸ hc)
  · rw [hhandled] at hcmd
    rw [hcalls] at hl
    obtain ⟨hcall, -⟩ | ⟨-, hl⟩ := set_cases hl
    · exact absurd hcall (hother cmd (h.ordered.mem_entered (.inl hcmd)))
    · exact h.refused cmd hcmd hunowned l hl

theorem step_inv {a : Label} (hstep : step s a = some s') : Inv accounts s' := by
  have htrans := step_trans hstep
  have hordered := h.ordered_step htrans
  cases htrans with
  | call hnew => exact h.call_step hnew hordered
  | send hk hphase => exact h.send_step hk hphase rfl rfl rfl rfl hordered
  | receiveError hk hphase hvalue =>
    have hanswered := h.answered _ _ hk
    have hrefused := hanswered.value (by rw [hvalue]; exact Option.some_ne_none _)
    exact h.caller hk ⟨rfl, rfl⟩ (fun _ => nofun)
      ⟨fun hne => absurd rfl hne, hanswered.closed, nofun, fun _ _ => hrefused⟩
      (fun _ => .inr ⟨_, rfl⟩) hordered
  | receiveDone hk hphase hvalue hclosed =>
    have hanswered := h.answered _ _ hk
    have hserved := h.served hk hphase hvalue hclosed
    exact h.caller hk ⟨rfl, rfl⟩ (fun _ => nofun)
      ⟨hanswered.value, hanswered.closed, fun _ => hserved, nofun⟩ (fun _ => .inr ⟨_, rfl⟩) hordered
  | leave hk hphase =>
    have hanswered := h.answered _ _ hk
    exact h.caller hk ⟨rfl, rfl⟩ (fun _ => nofun)
      ⟨hanswered.value, hanswered.closed, nofun, nofun⟩ (fun _ => .inr ⟨_, rfl⟩) hordered
  | cancel hk =>
    have hanswered := h.answered _ _ hk
    exact h.caller hk ⟨rfl, rfl⟩ id
      ⟨hanswered.value, hanswered.closed, hanswered.done, hanswered.failed⟩ id hordered
  | take | reject | begin =>
    exact h.owner rfl rfl hordered (fun _ hcmd => .inl hcmd) (fun _ hcmd => hcmd) nofun
  | @finish cmd howner =>
    have hpending : cmd ∈ s.owner.pending := by
      rw [howner]
      exact mem_cons_self
    refine h.owner rfl rfl hordered (fun c hc => ?_) (fun c hc => mem_append_left _ hc) ?_
    · rcases mem_concat_cases hc with hc | heq
      · exact .inl hc
      · rw [heq]
        exact .inr (h.ordered.running cmd howner)
    · rintro _ ⟨⟩
      exact .inr (h.ordered.pending_call hpending)
  | @reply cmd k howner hk =>
    have hpending : cmd ∈ s.owner.pending := by
      rw [howner]
      exact mem_cons_self
    have hanswered := h.answered _ _ hk
    have hlast : ∃ c ∈ s.handled ++ [cmd], c.call = cmd.call ∧ owned accounts c = false :=
      ⟨cmd, mem_concat_self, rfl, h.ordered.replying cmd howner⟩
    refine h.ownerOn hk rfl ⟨rfl, rfl⟩ id rfl hordered (fun c hc => mem_append_left _ hc)
      ?_ ?_ ?_
    · rintro _ ⟨⟩
      exact .inr (h.ordered.pending_call hpending)
    · refine ⟨fun _ => hlast, nofun, fun hdone => ?_, fun _ _ => hlast⟩
      obtain ⟨c, hc, hcall, -⟩ := hanswered.done hdone
      exact absurd hcall (h.ordered.pending_call hpending c hc)
    intro c hc _
    refine ⟨fun _ => .inl (Option.some_ne_none _), fun hne => ?_⟩
    rcases mem_concat_cases hc with hc | heq
    · exact hc
    · exact absurd (congrArg Command.call heq) hne
  | @close cmd k howner hk =>
    have hanswered := h.answered _ _ hk
    have hhandled := h.ordered.closing cmd howner
    refine h.ownerOn hk rfl ⟨rfl, rfl⟩ id rfl hordered (fun c hc => hc) nofun ?_ ?_
    · exact ⟨hanswered.value, fun _ => ⟨cmd, hhandled, rfl, nofun⟩, hanswered.done,
        hanswered.failed⟩
    · intro c hc hunowned
      exact ⟨fun hcall => h.refused c hc hunowned k (hcall ▸ hk), fun _ => hc⟩

theorem Inv.owner_enabled (hbusy : s.owner ≠ .idle ∨ s.queue ≠ []) :
    ∃ s', step s .owner = some s' := by
  show ∃ s', s.ownerStep = some s'
  unfold State.ownerStep
  cases howner : s.owner with
  | idle =>
    cases hqueue : s.queue with
    | nil => exact absurd hqueue (hbusy.resolve_left fun hne => hne howner)
    | cons cmd queue => exact ⟨_, rfl⟩
  | checking cmd =>
    cases hacc : s.accounts.get? cmd.accountID with
    | none | some acc =>
      simp only [hacc]
      exact ⟨_, rfl⟩
  | running cmd => exact ⟨_, rfl⟩
  | replying cmd =>
    -- Nothing was sent to this caller yet, so its channel is open and has room.
    have hpending : cmd ∈ s.owner.pending := by
      rw [howner]
      exact mem_cons_self
    obtain ⟨k, hk, -⟩ := h.calls cmd (h.ordered.mem_entered (.inr hpending))
    have hanswered := h.answered _ _ hk
    have hother := h.ordered.pending_call hpending
    have hvalue : k.done.value = none := by
      by_contra hne
      obtain ⟨c, hc, hcall, -⟩ := hanswered.value hne
      exact hother c hc hcall
    have hclosed : k.done.closed = false := by
      by_contra hne
      obtain ⟨c, hc, hcall, -⟩ := hanswered.closed (Bool.eq_true_of_not_eq_false hne)
      exact hother c hc hcall
    obtain ⟨accountID, fn, cancelled, phase, value, closed⟩ := k
    cases hvalue
    cases hclosed
    simp only [hk]
    exact ⟨_, rfl⟩
  | closing cmd =>
    obtain ⟨k, hk, -⟩ := h.calls cmd (h.ordered.mem_entered (.inl (h.ordered.closing cmd howner)))
    have hclosed : k.done.closed = false := by
      by_contra hne
      obtain ⟨c, hc, hcall, hother⟩ := (h.answered _ _ hk).closed (Bool.eq_true_of_not_eq_false hne)
      exact hother cmd howner rfl
    obtain ⟨accountID, fn, cancelled, phase, value, closed⟩ := k
    cases hclosed
    simp only [hk]
    exact ⟨_, rfl⟩

theorem Inv.command_eq (hcmd : cmd ∈ s.handled) (hk : s.calls.get? cmd.call = some k) :
    cmd = ⟨cmd.call, k.accountID, k.fn⟩ := by
  obtain ⟨l, hl, heq, -⟩ := h.calls cmd (h.ordered.mem_entered (.inl hcmd))
  rw [hk] at hl
  cases hl
  exact heq

theorem Inv.call_injective {c d : Command} (hc : c ∈ s.entered) (hd : d ∈ s.entered)
    (hcall : c.call = d.call) : c = d := by
  obtain ⟨k, hk, hck, -⟩ := h.calls c hc
  obtain ⟨l, hl, hdl, -⟩ := h.calls d hd
  rw [hcall, hl] at hk
  cases hk
  rw [hck, hdl, hcall]

end

theorem Ordered.begun_eq (h : Ordered accounts s) :
    ∃ k, s.begun = (s.entered.take k).filter (owned accounts) := by
  cases howner : s.owner with
  | running cmd =>
    refine ⟨s.handled.length + 1, ?_⟩
    have htake : s.entered.take (s.handled.length + 1) = s.handled ++ [cmd] := by
      rw [h.entered, howner]
      simp [Owner.pending, take_append]
    rw [htake, filter_append, filter_singleton, h.running cmd howner, h.begun, h.ended, howner]
    rfl
  | idle | checking cmd | replying cmd | closing cmd =>
    refine ⟨s.handled.length, ?_⟩
    have htake : s.entered.take s.handled.length = s.handled := by
      rw [h.entered, append_assoc, take_left']
      rfl
    rw [htake, h.begun, howner, ← h.ended]
    exact append_nil _

theorem Inv.ran_once (h : Inv accounts s) (hk : s.calls.get? n = some k)
    (hdone : k.phase = .returned .done) :
    s.ended.filter (fun cmd => cmd.call = n) = [⟨n, k.accountID, k.fn⟩] := by
  obtain ⟨cmd, hcmd, rfl, howned⟩ := (h.answered n k hk).done hdone
  have hcommand := h.command_eq hcmd hk
  have hended : cmd ∈ s.ended := by
    rw [h.ordered.ended]
    exact mem_filter.mpr ⟨hcmd, howned⟩
  have hnodup : (s.ended.map Command.call).Nodup := by
    have hsub : s.ended.Sublist s.entered := by
      rw [h.ordered.ended, h.ordered.entered, append_assoc]
      exact filter_sublist.trans (sublist_append_left _ _)
    exact h.ordered.nodup.sublist (hsub.map _)
  rw [← hcommand]
  obtain ⟨l, r, hsplit⟩ := append_of_mem hended
  rw [hsplit, map_append, map_cons] at hnodup
  have hmiddle := nodup_middle.mp hnodup
  have hnot := (nodup_cons.mp hmiddle).1
  rw [← map_append] at hnot
  have hnone : ∀ c ∈ l ++ r, ¬c.call = cmd.call := by
    intro c hc heq
    exact hnot (heq ▸ mem_map_of_mem hc)
  rw [hsplit, filter_append, filter_cons, if_pos (by simp)]
  rw [filter_eq_nil_iff.mpr fun c hc => by
      simpa using hnone c (mem_append_left _ hc),
    filter_eq_nil_iff.mpr fun c hc => by
      simpa using hnone c (mem_append_right _ hc)]
  rfl

theorem Inv.not_begun (h : Inv accounts s) (hk : s.calls.get? n = some k) {err : ShardError}
    (hfailed : k.phase = .returned (.failed err)) :
    ∀ cmd ∈ s.begun, cmd.call ≠ n := by
  obtain ⟨c, hc, rfl, hunowned⟩ := (h.answered n k hk).failed err hfailed
  intro cmd hcmd hcall
  obtain ⟨i, hbegun⟩ := h.ordered.begun_eq
  rw [hbegun, mem_filter] at hcmd
  have heq := h.call_injective (mem_of_mem_take hcmd.1) (h.ordered.mem_entered (.inl hc)) hcall
  rw [heq, hunowned] at hcmd
  cases hcmd.2

end Inv

theorem step_returned {n : Nat} {r : Result} (hstep : step s a = some s')
    (h : ∃ k, s.calls.get? n = some k ∧ k.phase = .returned r) :
    ∃ k, s'.calls.get? n = some k ∧ k.phase = .returned r := by
  obtain ⟨k, hk, hphase⟩ := h
  have hset : ∀ {m : Nat} {l l' : Call}, s.calls.get? m = some l →
      (l.phase = .returned r → l'.phase = .returned r) →
      ∃ k, (s.calls.set m l').get? n = some k ∧ k.phase = .returned r := by
    intro m l l' hl hkeep
    rw [get?_set]
    split
    · rename_i hn
      rw [hn, hl] at hk
      cases hk
      exact ⟨l', rfl, hkeep hphase⟩
    · exact ⟨k, hk, hphase⟩
  cases step_trans hstep with
  | call hnew =>
    refine ⟨k, (get?_set _ _ _ _).trans ((if_neg ?_).trans hk), hphase⟩
    rintro rfl
    rw [hnew] at hk
    cases hk
  | send hl hsending => exact hset hl fun h => by rw [hsending] at h; cases h
  | receiveError hl hwaiting | receiveDone hl hwaiting =>
    exact hset hl fun h => by rw [hwaiting] at h; cases h
  | leave hl hopen => exact hset hl fun h => absurd h (hopen r)
  | cancel hl | reply _ hl | close _ hl => exact hset hl id
  | take | reject | begin | finish => exact ⟨k, hk, hphase⟩

/-- In every state that callers, owner and cancellations can reach: the commands run one at a
time in the order in which they entered the channel and the accounts are what they made of
them, a call that returned nil ran exactly once on its account, a call that returned
`ErrUnknownAccount` never runs, and the owner is never blocked. -/
theorem commands_serialized (accounts : List Account) (as : List Label) (s : State)
    (hrun : run step (newShard accounts) as = some s) :
    ((∃ k, s.begun = (s.entered.take k).filter (owned (newShard accounts).accounts)) ∧
      s.begun = s.ended ++ s.owner.current ∧
      s.accounts = s.ended.foldl runOn (newShard accounts).accounts) ∧
    (∀ n k, s.calls.get? n = some k → k.phase = .returned .done →
      s.ended.filter (fun cmd => cmd.call = n) = [⟨n, k.accountID, k.fn⟩]) ∧
    (∀ n k, s.calls.get? n = some k → k.phase = .returned (.failed .unknownAccount) →
      ∀ bs t, run step s bs = some t → ∀ cmd ∈ t.begun, cmd.call ≠ n) ∧
    (s.owner ≠ .idle ∨ s.queue ≠ [] → ∃ s', step s .owner = some s') := by
  have hinv : Inv (newShard accounts).accounts s :=
    run_invariant (fun _ _ _ h hstep => step_inv h hstep) (new_inv accounts) hrun
  have hordered := hinv.ordered
  refine ⟨⟨hordered.begun_eq, hordered.begun, hordered.balances⟩, fun n k => hinv.ran_once, ?_,
    hinv.owner_enabled⟩
  intro n k hk hfailed bs t ht
  have hlater : Inv (newShard accounts).accounts t :=
    run_invariant (fun _ _ _ h hstep => step_inv h hstep) hinv ht
  obtain ⟨l, hl, hphase⟩ := run_invariant (fun _ _ _ h hstep => step_returned hstep h)
    ⟨k, hk, hfailed⟩ ht
  exact hlater.not_begun hl hphase

theorem commands_serialized_two_calls :
    ∃ s ∈ run step (newShard [⟨"acct-1", 10⟩])
        [.call 1 "acct-1" (fun a => a.creditLocked 5), .call 2 "acct-9" id, .send 1, .send 2,
          .owner, .owner, .owner, .owner, .receive 1, .owner, .owner, .owner, .owner, .receive 2],
      (s.calls.get? 1).map Call.phase = some (.returned .done) ∧
      (s.calls.get? 2).map Call.phase = some (.returned (.failed .unknownAccount)) ∧
      s.ended.length = 1 ∧ (∀ cmd ∈ s.begun, cmd.call ≠ 2) ∧
      (s.accounts.get? "acct-1").map Account.balance = some 15 := by
  refine exists_some_imp (A := fun s => (s.calls.get? 1).map Call.phase = some (.returned .done) ∧
      (s.calls.get? 2).map Call.phase = some (.returned (.failed .unknownAccount)) ∧
        s.ended.length = 1 ∧ (s.accounts.get? "acct-1").map Account.balance = some 15)
    (by decide +kernel) fun s hrun ⟨hdone, hfailed, hended, hbalance⟩ => ?_
  obtain ⟨k, hk, hphase⟩ := Option.map_eq_some_iff.mp hfailed
  obtain ⟨-, -, hnever, -⟩ := commands_serialized _ _ s hrun
  exact ⟨hdone, hfailed, hended, hnever 2 k hk hphase [] s rfl, hbalance⟩

end GoServices.Ledger.Partition
