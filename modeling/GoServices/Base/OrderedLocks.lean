/-
Threads that take locks in ascending order.

A thread is a script of acquisitions, releases and critical work over shared data.
-/
import GoServices.Base.Run
import GoServices.Base.Table

namespace GoServices.OrderedLocks

open List Table

inductive Instr (κ δ : Type)
  | lock (l : κ)
  | unlock (l : κ)
  | work (f : δ → δ)

structure State (κ δ : Type) where
  data : δ
  owner : Table κ Nat
  threads : List (List (Instr κ δ))

variable {κ δ : Type}

def initial (d : δ) (threads : List (List (Instr κ δ))) : State κ δ :=
  { data := d, owner := .empty, threads := threads }

/-- One instruction of thread `i`. -/
def step [DecidableEq κ] (s : State κ δ) (i : Nat) : Option (State κ δ) :=
  match s.threads[i]? with
  | none | some [] => none
  | some (.lock l :: rest) =>
    match s.owner.get? l with
    | none => some { s with owner := s.owner.set l i, threads := s.threads.set i rest }
    | some _ => none
  | some (.unlock l :: rest) =>
    match s.owner.get? l with
    | none => none
    | some _ => some { s with owner := s.owner.erase l, threads := s.threads.set i rest }
  | some (.work f :: rest) => some { s with data := f s.data, threads := s.threads.set i rest }

/-- A script that starts with the locks `held` and ends with the locks `final`. -/
def Ordered [LT κ] (final : Set κ) : Set κ → List (Instr κ δ) → Prop
  | held, [] => held = final
  | held, .lock l :: rest => (∀ h ∈ held, h < l) ∧ Ordered final (insert l held) rest
  | held, .unlock l :: rest => l ∈ held ∧ Ordered final (held \ {l}) rest
  | held, .work _ :: rest => Ordered final held rest

def critical (l : κ) (body : List (Instr κ δ)) : List (Instr κ δ) :=
  .lock l :: (body ++ [.unlock l])

theorem Ordered.append [LT κ] {held mid final : Set κ} {a b : List (Instr κ δ)}
    (ha : Ordered mid held a) (hb : Ordered final mid b) : Ordered final held (a ++ b) := by
  induction a generalizing held with
  | nil =>
    have hmid : held = mid := ha
    rw [hmid]
    exact hb
  | cons instr rest ih =>
    cases instr with
    | lock l | unlock l => exact ⟨ha.1, ih ha.2⟩
    | work f => exact ih (show Ordered mid held rest from ha)

theorem Ordered.critical [Preorder κ] {held : Set κ} {l : κ} {body : List (Instr κ δ)}
    (habove : ∀ h ∈ held, h < l) (hbody : Ordered (insert l held) (insert l held) body) :
    Ordered held held (critical l body) := by
  have hfresh : l ∉ held := fun hl => lt_irrefl l (habove l hl)
  have hrelease : Ordered held (insert l held) [(.unlock l : Instr κ δ)] :=
    ⟨Set.mem_insert l held, Set.insert_sdiff_self_of_notMem hfresh⟩
  exact ⟨habove, hbody.append hrelease⟩

theorem Ordered.flatMap [LT κ] {α : Type} {script : α → List (Instr κ δ)}
    (h : ∀ a, Ordered ∅ ∅ (script a)) (as : List α) : Ordered ∅ ∅ (as.flatMap script) := by
  induction as with
  | nil => rfl
  | cons a as ih =>
    exact (h a).append ih

/-! ## Progress -/

section Progress

variable [LinearOrder κ]

/-- The locks thread `i` owns. -/
def State.held (s : State κ δ) (i : Nat) : Set κ := { l | s.owner.get? l = some i }

structure Disciplined (s : State κ δ) : Prop where
  ordered : ∀ i script, s.threads[i]? = some script → Ordered ∅ (s.held i) script
  owned : ∀ l i, s.owner.get? l = some i → i < s.threads.length

variable {d : δ}

theorem disciplined_initial {threads : List (List (Instr κ δ))}
    (h : ∀ script ∈ threads, Ordered ∅ ∅ script) : Disciplined (initial d threads) where
  ordered i script hi := by
    have hheld : (initial d threads).held i = ∅ :=
      Set.eq_empty_of_forall_notMem fun l hl => nomatch hl
    rw [hheld]
    exact h script (mem_of_getElem? hi)
  owned _ _ h := nomatch h

variable {s : State κ δ} {i : Nat} {rest : List (Instr κ δ)}

theorem Disciplined.advance (hs : Disciplined s) {script : List (Instr κ δ)}
    (hi : s.threads[i]? = some script) {owner : Table κ Nat}
    (hrest : Ordered ∅ { l | owner.get? l = some i } rest)
    (hothers : ∀ j, j ≠ i → ∀ l, owner.get? l = some j ↔ s.owner.get? l = some j) :
    Disciplined { data := d, owner := owner, threads := s.threads.set i rest } where
  ordered j script' hj := by
    by_cases hji : j = i
    · subst hji
      have hlt : j < s.threads.length := (List.getElem?_eq_some_iff.mp hi).1
      rw [getElem?_set_self hlt] at hj
      cases hj
      exact hrest
    rw [getElem?_set_ne (Ne.symm hji)] at hj
    have hheld : { l | owner.get? l = some j } = s.held j := Set.ext (hothers j hji)
    show Ordered ∅ { l | owner.get? l = some j } script'
    rw [hheld]
    exact hs.ordered j script' hj
  owned l j hl := by
    rw [length_set]
    by_cases hji : j = i
    · rw [hji]
      exact (List.getElem?_eq_some_iff.mp hi).1
    · exact hs.owned l j ((hothers j hji l).mp hl)

theorem disciplined_step {s' : State κ δ} (hs : Disciplined s) (h : step s i = some s') :
    Disciplined s' := by
  rw [step] at h
  split at h
  · cases h
  · cases h
  · rename_i l rest hi
    obtain ⟨-, hrest⟩ := hs.ordered i _ hi
    split at h <;> cases h
    rename_i hfree
    refine hs.advance hi ?_ fun j hj l' => ?_
    · have hheld : { l' | (s.owner.set l i).get? l' = some i } = insert l (s.held i) := by
        ext l'
        by_cases hl : l' = l <;> simp [State.held, get?_set, hl]
      rw [hheld]
      exact hrest
    rw [get?_set]
    split
    · rename_i hl
      rw [hl, hfree]
      simp [Ne.symm hj]
    · rfl
  · rename_i l rest hi
    obtain ⟨hl, hrest⟩ := hs.ordered i _ hi
    have howner : s.owner.get? l = some i := hl
    split at h <;> cases h
    refine hs.advance hi ?_ fun j hj l' => ?_
    · have hheld : { l' | (s.owner.erase l).get? l' = some i } = s.held i \ {l} := by
        ext l'
        by_cases hl : l' = l <;> simp [State.held, get?_erase, hl]
      rw [hheld]
      exact hrest
    rw [get?_erase]
    split
    · rename_i hl'
      rw [hl', howner]
      simp [Ne.symm hj]
    · rfl
  · rename_i f rest hi
    have hord : Ordered ∅ (s.held i) rest := hs.ordered i (.work f :: rest) hi
    cases h
    exact hs.advance hi hord fun j _ l => Iff.rfl

theorem exists_greatest_owned {m : Table κ Nat} {l : κ} (h : m.get? l = some i) :
    ∃ top j, m.get? top = some j ∧ ∀ l' j', m.get? l' = some j' → l' ≤ top := by
  have hne : m.keys.toFinset.Nonempty := ⟨l, mem_toFinset.mpr (Table.mem_keys.mpr ⟨i, h⟩)⟩
  obtain ⟨top, htop, hmax⟩ := m.keys.toFinset.exists_max_image (fun l => l) hne
  obtain ⟨j, hj⟩ := Table.mem_keys.mp (mem_toFinset.mp htop)
  exact ⟨top, j, hj, fun l' j' h' =>
    hmax l' (mem_toFinset.mpr (Table.mem_keys.mpr ⟨j', h'⟩))⟩

variable {instr : Instr κ δ}

section
variable (hs : Disciplined s) (hi : s.threads[i]? = some (instr :: rest))
include hs hi

theorem step_or_waits :
    (step s i).isSome ∨ ∃ l j, s.owner.get? l = some j ∧ ∀ h, s.owner.get? h = some i → h < l := by
  have hord := hs.ordered i _ hi
  cases instr with
  | lock l =>
    cases howner : s.owner.get? l with
    | none => exact .inl (by simp only [step, hi, howner, Option.isSome_some])
    | some j => exact .inr ⟨l, j, howner, hord.1⟩
  | unlock l =>
    have howner : s.owner.get? l = some i := hord.1
    exact .inl (by simp only [step, hi, howner, Option.isSome_some])
  | work f => exact .inl (by simp only [step, hi, Option.isSome_some])

theorem progress : ∃ j, (step s j).isSome := by
  rcases step_or_waits hs hi with h | ⟨l, j, hl, -⟩
  · exact ⟨i, h⟩
  obtain ⟨top, k, hk, hmax⟩ := exists_greatest_owned hl
  have hlt := hs.owned top k hk
  have hscript : s.threads[k]? = some (s.threads[k]) := getElem?_eq_getElem hlt
  cases hrest : s.threads[k] with
  | nil =>
    -- a finished script holds nothing
    have hempty : s.held k = ∅ := by
      have hord := hs.ordered k _ hscript
      rw [hrest] at hord
      exact hord
    have htop : top ∈ s.held k := hk
    rw [hempty] at htop
    exact htop.elim
  | cons instr' rest' =>
    rw [hrest] at hscript
    rcases step_or_waits hs hscript with h | ⟨l', j', hl', habove⟩
    · exact ⟨k, h⟩
    · exact absurd (habove top hk) (not_lt.mpr (hmax l' j' hl'))

end

theorem deadlock_free {threads : List (List (Instr κ δ))}
    (hord : ∀ script ∈ threads, Ordered ∅ ∅ script) {schedule : List Nat}
    (hrun : run step (initial d threads) schedule = some s)
    (hleft : ∃ script ∈ s.threads, script ≠ []) : ∃ i, (step s i).isSome := by
  have hs : Disciplined s :=
    run_invariant (fun _ _ _ hs h => disciplined_step hs h) (disciplined_initial hord) hrun
  obtain ⟨script, hmem, hne⟩ := hleft
  obtain ⟨i, hi⟩ := mem_iff_getElem?.mp hmem
  obtain ⟨instr, rest, rfl⟩ := exists_cons_of_ne_nil hne
  exact progress hs hi

end Progress

end GoServices.OrderedLocks
