/-
The account mutexes under concurrent callers.

Each exported call of the ledger is written out as the instructions a goroutine runs: the checks
that need no lock, the acquisitions, the body, and the deferred releases in reverse order.
-/
import GoServices.Base.OrderedLocks
import GoServices.Ledger.Transfer
import Mathlib

namespace GoServices.Ledger.Locks

open OrderedLocks

inductive Op
  | call (c : Book.Call)
  | balance (id : String)

abbrev Script := List (Instr String Book)

def perform (c : Book.Call) (book : Book) : Book := (book.call c).1

def Op.script : Op → Script
  | .call (.transfer src dst amt) =>
    -- both early returns come before the first lock
    if Paise.isNegative amt then [.work (perform (.transfer src dst amt))]
    else if src = dst then [.work (perform (.transfer src dst amt))]
    else if dst < src then critical dst (critical src [.work (perform (.transfer src dst amt))])
    else critical src (critical dst [.work (perform (.transfer src dst amt))])
  | .call (.debit id amt) =>
    if Paise.isNegative amt then [.work (perform (.debit id amt))]
    else critical id [.work (perform (.debit id amt))]
  | .call (.credit id amt) =>
    if Paise.isNegative amt then [.work (perform (.credit id amt))]
    else critical id [.work (perform (.credit id amt))]
  -- `Balance` reads under the lock and writes nothing
  | .balance name => critical name [.work id]

def program (ops : List Op) : Script := ops.flatMap Op.script

def start (book : Book) (callers : List (List Op)) : OrderedLocks.State String Book :=
  OrderedLocks.initial book (callers.map program)

/-! ## The order of the locks -/

theorem ordered_work (held : Set String) (f : Book → Book) : Ordered held held [.work f] := rfl

theorem ordered_critical (id : String) (f : Book → Book) :
    Ordered ∅ ∅ (critical id [.work f]) :=
  .critical (fun _ h => h.elim) (ordered_work _ f)

theorem ordered_nested {a b : String} (h : a < b) (f : Book → Book) :
    Ordered ∅ ∅ (critical a (critical b [.work f])) := by
  refine .critical (fun _ h => h.elim) (.critical (fun c hc => ?_) (ordered_work _ f))
  rcases hc with rfl | hc
  · exact h
  · exact hc.elim

theorem ordered_script (op : Op) : Ordered ∅ ∅ op.script := by
  fun_cases Op.script op
  all_goals try exact ordered_work _ _
  · rename_i hlt
    exact ordered_nested hlt _
  · rename_i hne hlt
    exact ordered_nested (lt_of_le_of_ne (not_lt.mp hlt) hne) _
  all_goals exact ordered_critical _ _

theorem ordered_programs {callers : List (List Op)} {script : Script}
    (h : script ∈ callers.map program) : Ordered ∅ ∅ script := by
  obtain ⟨ops, -, rfl⟩ := List.mem_map.mp h
  exact .flatMap ordered_script ops

/-- In every state that any schedule of any callers reaches, if some caller has
not finished, some caller can take its next step. -/
theorem callers_never_deadlock {book : Book} {callers : List (List Op)} {schedule : List Nat}
    {s : OrderedLocks.State String Book}
    (hrun : run OrderedLocks.step (start book callers) schedule = some s)
    (hleft : ∃ script ∈ s.threads, script ≠ []) : ∃ i, (OrderedLocks.step s i).isSome :=
  deadlock_free (fun _ => ordered_programs) hrun hleft

def demoCallers : List (List Op) :=
  [[.call (.transfer "acct-a" "acct-b" 100), .balance "acct-a"],
    [.call (.transfer "acct-b" "acct-a" 100), .balance "acct-b"]]

theorem callers_never_deadlock_demo :
    ∃ s ∈ run OrderedLocks.step (start Book.demoBook demoCallers) [0],
      (OrderedLocks.step s 1).isNone ∧ ∃ i, (OrderedLocks.step s i).isSome := by
  refine exists_some_imp (A := fun s => (∃ script ∈ s.threads, script ≠ []) ∧
    (OrderedLocks.step s 1).isNone) (by decide) fun s hrun ⟨hleft, hwaits⟩ => ?_
  exact ⟨hwaits, callers_never_deadlock hrun hleft⟩

end GoServices.Ledger.Locks
