/-
Transactions with a deferred rollback.

The statements of a transaction work on a copy of the tables.
-/
import Mathlib.Tactic

namespace GoServices

def Transaction (σ ε α : Type) : Type := σ → σ × Except ε α

namespace Transaction

variable {σ ε α β : Type}

protected def bind (t : Transaction σ ε α) (k : α → Transaction σ ε β) : Transaction σ ε β :=
  fun copy =>
    match t copy with
    | (copy, .ok a) => k a copy
    | (copy, .error e) => (copy, .error e)

instance : Monad (Transaction σ ε) where
  pure a := fun copy => (copy, .ok a)
  bind := Transaction.bind

def exec (f : σ → σ) : Transaction σ ε Unit := fun copy => (f copy, .ok ())

def fail (e : ε) : Transaction σ ε α := fun copy => (copy, .error e)

theorem pure_run (a : α) (copy : σ) : (pure a : Transaction σ ε α) copy = (copy, .ok a) := rfl

theorem bind_run (t : Transaction σ ε α) (k : α → Transaction σ ε β) (copy : σ) :
    (t >>= k) copy = match t copy with
      | (copy, .ok a) => k a copy
      | (copy, .error e) => (copy, .error e) := rfl

/-- Run the statements on a copy and `finish` with the commit.  `undo` is what is left of the
copy after a rollback, beside the tables as they were. -/
def atomically (undo : σ → σ → σ) (body : Transaction σ ε α)
    (finish : σ → σ → α → σ × Except ε α) (tables : σ) : σ × Except ε α :=
  match body tables with
  | (copy, .ok a) => finish tables copy a
  | (copy, .error e) => (undo tables copy, .error e)

theorem atomically_of_error {undo : σ → σ → σ} {body : Transaction σ ε α}
    {finish : σ → σ → α → σ × Except ε α} {tables : σ} {e : ε}
    (h : (atomically undo body finish tables).2 = .error e)
    (hfinish : ∀ copy a, (finish tables copy a).2 ≠ .error e) :
    ∃ copy, (atomically undo body finish tables).1 = undo tables copy := by
  unfold atomically at h ⊢
  split at h
  · rename_i copy a hbody
    exact absurd h (hfinish copy a)
  · rename_i copy e' hbody
    exact ⟨copy, rfl⟩

end Transaction

end GoServices
