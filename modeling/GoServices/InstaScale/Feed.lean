/-
The cached feed of one viewer.

The cache key names the viewer and not the limit, so a hit returns what the call that filled the
entry asked for.
-/
import GoServices.Base.Run

namespace GoServices.InstaScale.Feed

variable {Post : Type}

/-- The entry under `feed:<viewer>` with the limit of the call that filled it, which Redis does
not store, and what the calls returned so far. -/
structure Store (Post : Type) where
  entry : Option (Nat × List Post) := none
  answers : List (Nat × List Post) := []

inductive Label where
  /-- `Feed`, with the replies of `redis.Get`, the query and `redis.Set`. -/
  | feed (limit : Nat) (getOk queryOk setOk : Bool)
  | expire

/-- `rows` are the posts the query finds without `LIMIT`, newest first. -/
def Store.step (rows : List Post) (s : Store Post) : Label → Option (Store Post)
  | .expire => some { s with entry := none }
  | .feed limit getOk queryOk setOk =>
    match (if getOk then s.entry else none) with
    | some (_, posts) => some { s with answers := (limit, posts) :: s.answers }
    | none =>
      if queryOk then
        some { entry := if setOk then some (limit, rows.take limit) else s.entry,
               answers := (limit, rows.take limit) :: s.answers }
      else some s

/-- The call finds no entry, or one that was filled for as many posts. -/
def Alike (rows : List Post) (s : Store Post) : Label → Prop
  | .feed limit true _ _ => ∀ e ∈ s.entry, min e.1 rows.length = min limit rows.length
  | _ => True

def Right (rows : List Post) (s : Store Post) : Prop :=
  ∀ a ∈ s.answers, a.2 = rows.take a.1

def Filled (rows : List Post) (s : Store Post) : Prop :=
  ∀ e ∈ s.entry, e.2 = rows.take e.1

variable {rows : List Post} {s s' : Store Post}

theorem step_right {l : Label} (hfilled : Filled rows s) (hstep : s.step rows l = some s') :
    Filled rows s' ∧ (Right rows s' ↔ Right rows s ∧ Alike rows s l) := by
  cases l with
  | expire =>
    cases hstep
    simp [Filled, Right, Alike]
  | feed limit getOk queryOk setOk =>
    simp only [Store.step] at hstep
    split at hstep
    · -- a hit
      rename_i asked posts hget
      obtain ⟨rfl, hentry⟩ : getOk = true ∧ s.entry = some (asked, posts) := by simpa using hget
      cases hstep
      have hposts : posts = rows.take asked := hfilled _ hentry
      refine ⟨hfilled, ?_⟩
      simp [Right, Alike, hentry, hposts, List.take_eq_take_iff, and_comm]
    · rename_i hmiss
      have halike : Alike rows s (.feed limit getOk queryOk setOk) := by
        cases getOk with
        | true => exact fun e he => by cases hmiss.symm.trans he
        | false => trivial
      split at hstep <;> cases hstep
      · refine ⟨fun e he => ?_, by simp [Right, halike]⟩
        split at he
        · cases he
          rfl
        · exact hfilled e he
      · exact ⟨hfilled, (and_iff_left halike).symm⟩

/-- Every answer is what the query gives for its limit exactly when every hit finds an entry
filled for as many posts. -/
theorem answers_right_iff {labels : List Label} (hrun : run (Store.step rows) {} labels = some s) :
    (∀ a ∈ s.answers, a.2 = rows.take a.1) ↔ RunMeets (Store.step rows) (Alike rows) {} labels := by
  have h := run_iff_meets (I := Filled rows) (P := Right rows)
    (fun _ _ _ hs hstep => (step_right hs hstep).1) (fun _ _ _ hs hstep => (step_right hs hstep).2)
    (show Filled rows {} from nofun) hrun
  simpa [Right] using h

theorem answers_right_iff_equal :
    ∃ s, run (Store.step ["c", "b", "a"]) {} [.feed 2 true true true, .feed 2 true true true] =
      some s ∧ s.answers.length = 2 ∧ ∀ a ∈ s.answers, a.2 = ["c", "b", "a"].take a.1 := by
  refine exists_some_imp (A := fun s => s.answers.length = 2)
    (⟨_, rfl, rfl⟩) fun s hrun hlen => ?_
  exact ⟨hlen, (answers_right_iff hrun).mpr (by simp [RunMeets, Alike, Store.step])⟩

/-- A call with a smaller limit gets all the posts of the earlier one. -/
theorem larger_entry :
    run (Store.step ["c", "b", "a"]) {} [.feed 3 true true true, .feed 1 true true true] =
      some ⟨some (3, ["c", "b", "a"]), [(1, ["c", "b", "a"]), (3, ["c", "b", "a"])]⟩ := rfl

end GoServices.InstaScale.Feed
