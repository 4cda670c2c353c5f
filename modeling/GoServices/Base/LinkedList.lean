/-
Lists whose elements are addressed by handles.

`PushFront` hands out a handle of the new element, and `Remove` and `MoveToFront` take one.
-/
import Mathlib.Tactic

namespace GoServices

open List

structure LinkedList (β : Type) where
  elements : List (Nat × β)
  next : Nat
  handles_nodup : (elements.map Prod.fst).Nodup
  handles_lt : ∀ x ∈ elements, x.1 < next

namespace LinkedList

variable {β : Type}

def empty : LinkedList β := ⟨[], 0, nodup_nil, fun _ h => absurd h not_mem_nil⟩

def values (l : LinkedList β) : List β := l.elements.map Prod.snd

def pushFront (l : LinkedList β) (v : β) : LinkedList β × Nat where
  fst :=
    { elements := (l.next, v) :: l.elements
      next := l.next + 1
      handles_nodup := by
        refine nodup_cons.mpr ⟨fun h => ?_, l.handles_nodup⟩
        obtain ⟨x, hx, heq⟩ := mem_map.mp h
        exact absurd heq (Nat.ne_of_lt (l.handles_lt x hx))
      handles_lt := by
        intro x hx
        rcases mem_cons.mp hx with rfl | hx
        · exact Nat.lt_succ_self _
        · exact Nat.lt_succ_of_lt (l.handles_lt x hx) }
  snd := l.next

def remove (l : LinkedList β) (handle : Nat) : LinkedList β where
  elements := l.elements.filter fun x => x.1 ≠ handle
  next := l.next
  handles_nodup := l.handles_nodup.sublist (filter_sublist.map Prod.fst)
  handles_lt := fun x hx => l.handles_lt x (mem_of_mem_filter hx)

def moveToFront (l : LinkedList β) (handle : Nat) : LinkedList β :=
  match h : l.elements.find? fun x => x.1 = handle with
  | none => l
  | some x =>
    { elements := x :: (l.remove handle).elements
      next := l.next
      handles_nodup := by
        refine nodup_cons.mpr ⟨fun hmem => ?_, (l.remove handle).handles_nodup⟩
        obtain ⟨y, hy, heq⟩ := mem_map.mp hmem
        have hne := of_decide_eq_true (mem_filter.mp hy).2
        have hfound := find?_some h
        exact hne (heq.trans (of_decide_eq_true hfound))
      handles_lt := by
        intro y hy
        rcases mem_cons.mp hy with rfl | hy
        · exact l.handles_lt y (mem_of_find?_eq_some h)
        · exact (l.remove handle).handles_lt y hy }

def back (l : LinkedList β) : Option (Nat × β) := l.elements.getLast?

variable {l : LinkedList β} {handle : Nat} {v : β}

theorem eq_of_handle {w : β} (hv : (handle, v) ∈ l.elements) (hw : (handle, w) ∈ l.elements) :
    v = w :=
  (Prod.mk.inj (inj_on_of_nodup_map l.handles_nodup hv hw rfl)).2

theorem mem_remove {x : Nat × β} :
    x ∈ (l.remove handle).elements ↔ x ∈ l.elements ∧ x.1 ≠ handle := by
  rw [remove, mem_filter, decide_eq_true_iff]

theorem elements_moveToFront (h : (handle, v) ∈ l.elements) :
    (l.moveToFront handle).elements = (handle, v) :: (l.remove handle).elements := by
  unfold moveToFront
  split
  · rename_i hnone
    exact absurd rfl (of_decide_eq_false (Bool.eq_false_iff.mpr
      (find?_eq_none.mp hnone (handle, v) h)))
  rename_i x hfound
  obtain ⟨handle', w⟩ := x
  have hhandle := find?_some hfound
  replace hhandle : handle' = handle := of_decide_eq_true hhandle
  have hmem := mem_of_find?_eq_some hfound
  show (handle', w) :: (l.remove handle).elements = _
  rw [hhandle] at hmem ⊢
  rw [eq_of_handle hmem h]

theorem mem_moveToFront (h : (handle, v) ∈ l.elements) {x : Nat × β} :
    x ∈ (l.moveToFront handle).elements ↔ x ∈ l.elements := by
  rw [elements_moveToFront h, mem_cons, mem_remove]
  constructor
  · rintro (rfl | hx)
    · exact h
    · exact hx.1
  intro hx
  by_cases hhandle : x.1 = handle
  · left
    obtain ⟨handle', w⟩ := x
    cases hhandle
    rw [eq_of_handle hx h]
  · exact .inr ⟨hx, hhandle⟩

@[simp] theorem values_pushFront (l : LinkedList β) (v : β) :
    (l.pushFront v).1.values = v :: l.values := rfl

variable [DecidableEq β]

section
variable (h : (handle, v) ∈ l.elements) (hnodup : l.values.Nodup)
include h hnodup

theorem values_remove : (l.remove handle).values = l.values.filter fun w => w ≠ v := by
  rw [values, values, remove, filter_map]
  refine congrArg _ (filter_congr fun x hx => ?_)
  refine decide_eq_decide.mpr (not_congr ⟨fun hhandle => ?_, fun hvalue => ?_⟩)
  · obtain ⟨handle', w⟩ := x
    cases hhandle
    exact eq_of_handle hx h
  · exact congrArg Prod.fst (inj_on_of_nodup_map hnodup hx h hvalue)

theorem values_moveToFront :
    (l.moveToFront handle).values = v :: l.values.filter fun w => w ≠ v := by
  rw [← values_remove h hnodup, values, elements_moveToFront h]
  rfl

end

end LinkedList

end GoServices
