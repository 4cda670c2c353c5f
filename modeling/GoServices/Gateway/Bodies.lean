/-
What the attempts of a `fetch` are sent.

`fetch` hands the same request to every attempt.
-/
import GoServices.Gateway.Fetch

namespace GoServices.Gateway.Fetch

open List

structure Sending where
  sent : List UInt8
  taken : Nat
  deriving DecidableEq

/-- `r.Body` with the attempts that it was given to, the latest one first. -/
structure Body where
  left : List UInt8
  sendings : List Sending

variable {σ β : Type}

/-- The services, where `ServeHTTP` is given the body and uses up `taken` of what it finds. -/
def Services.withBody (svc : Services σ β) (taken : σ → β → List UInt8 → Nat) :
    Services (σ × Body) β where
  id := svc.id
  pick s := (((svc.pick s.1).1, s.2), (svc.pick s.1).2)
  release s b := (svc.release s.1 b, s.2)
  allow s b := (((svc.allow s.1 b).1, s.2), (svc.allow s.1 b).2)
  success s b := (svc.success s.1 b, s.2)
  failure s b := (svc.failure s.1 b, s.2)
  serve s b :=
    let n := taken s.1 b s.2.left
    (((svc.serve s.1 b).1, ⟨s.2.left.drop n, ⟨s.2.left, n⟩ :: s.2.sendings⟩), (svc.serve s.1 b).2)

/-- A property that each call of a service keeps is kept by the loop. -/
theorem fetchLoop_keeps {svc : Services σ β} {I : σ → Prop}
    (hpick : ∀ s, I s → I (svc.pick s).1) (hrelease : ∀ s b, I s → I (svc.release s b))
    (hallow : ∀ s b, I s → I (svc.allow s b).1) (hsuccess : ∀ s b, I s → I (svc.success s b))
    (hfailure : ∀ s b, I s → I (svc.failure s b)) (hserve : ∀ s b, I s → I (svc.serve s b).1)
    {n : Nat} {lastErr : FetchError} {s : σ} (hs : I s) : I (fetchLoop svc n lastErr s).1 := by
  induction n generalizing lastErr s with
  | zero => exact hs
  | succ n ih =>
    rw [fetchLoop]
    dsimp only
    split
    · exact hpick s hs
    · exact hpick s hs
    rename_i b _
    have hasked := hallow _ b (hpick s hs)
    split
    · exact ih (hrelease _ b hasked)
    have hserved := hserve _ b hasked
    split
    · exact hserved
    have hreleased := hrelease _ b hserved
    split
    · exact hsuccess _ b hreleased
    split
    · exact hfailure _ b hreleased
    · exact ih (hfailure _ b hreleased)

/-- The body after its sendings, when the client sent `whole`. -/
inductive SentFrom (whole : List UInt8) : List UInt8 → List Sending → Prop
  | unsent : SentFrom whole whole []
  | sent {left : List UInt8} {sendings : List Sending} (taken : Nat)
      (h : SentFrom whole left sendings) :
      SentFrom whole (left.drop taken) (⟨left, taken⟩ :: sendings)

theorem fetch_sentFrom (svc : Services σ β) (taken : σ → β → List UInt8 → Nat)
    (whole : List UInt8) (s : σ) :
    let body := (fetch (svc.withBody taken) (s, ⟨whole, []⟩)).1.2
    SentFrom whole body.left body.sendings :=
  fetchLoop_keeps (I := fun s : σ × Body => SentFrom whole s.2.left s.2.sendings)
    (fun _ h => h) (fun _ _ h => h) (fun _ _ h => h) (fun _ _ h => h) (fun _ _ h => h)
    (fun _ _ h => h.sent _) .unsent

theorem drop_eq_self_iff {whole : List UInt8} {n : Nat} :
    whole.drop n = whole ↔ whole = [] ∨ n = 0 := by
  constructor
  · intro h
    have hlength := congrArg length h
    rw [length_drop] at hlength
    rw [← length_eq_zero_iff]
    omega
  · rintro (rfl | rfl)
    · exact drop_nil
    · exact drop_zero

section
variable {whole left : List UInt8} {sendings : List Sending}

theorem SentFrom.untouched (h : SentFrom whole left sendings)
    (hnone : ∀ a ∈ sendings, whole = [] ∨ a.taken = 0) :
    left = whole ∧ ∀ a ∈ sendings, a.sent = whole := by
  induction h with
  | unsent => exact ⟨rfl, nofun⟩
  | sent taken h ih =>
    obtain ⟨hlast, hbefore⟩ := forall_mem_cons.mp hnone
    obtain ⟨hleft, hsent⟩ := ih hbefore
    rw [hleft]
    exact ⟨drop_eq_self_iff.mpr hlast, forall_mem_cons.mpr ⟨rfl, hsent⟩⟩

theorem SentFrom.touched (h : SentFrom whole left sendings) (hleft : left = whole)
    (hsent : ∀ a ∈ sendings, a.sent = whole) : ∀ a ∈ sendings, whole = [] ∨ a.taken = 0 := by
  induction h with
  | unsent => exact nofun
  | sent taken h ih =>
    obtain ⟨hlast, hbefore⟩ := forall_mem_cons.mp hsent
    dsimp only at hlast
    rw [hlast] at hleft
    exact forall_mem_cons.mpr ⟨drop_eq_self_iff.mp hleft, ih hlast hbefore⟩

end

/-- Every attempt of a fetch is sent the whole body exactly when the attempts before the last one
took nothing of it. -/
theorem fetch_sends_whole (svc : Services σ β) (taken : σ → β → List UInt8 → Nat)
    (whole : List UInt8) (s : σ) :
    let body := (fetch (svc.withBody taken) (s, ⟨whole, []⟩)).1.2
    (∀ a ∈ body.sendings, a.sent = whole) ↔ ∀ a ∈ body.sendings.tail, whole = [] ∨ a.taken = 0 := by
  intro body
  have hbody : SentFrom whole body.left body.sendings := fetch_sentFrom svc taken whole s
  generalize body.left = left, body.sendings = sendings at hbody
  cases hbody with
  | unsent => exact ⟨fun _ => nofun, fun _ => nofun⟩
  | sent last h =>
    rw [forall_mem_cons, tail_cons]
    constructor
    · rintro ⟨hleft, hsent⟩
      exact h.touched hleft hsent
    · exact h.untouched

def failsOnce : Services Nat Nat where
  id := toString
  pick s := (s, .backend s)
  release s _ := s
  allow s _ := (s, true)
  success s _ := s
  failure s _ := s + 1
  serve s _ := (s, .answered (if s = 0 then 502 else 201) [] "")

/-- The backend that answers 201 was sent nothing of the body. -/
theorem retry_sends_nothing :
    let body := (fetch (failsOnce.withBody fun _ _ left => left.length) (0, ⟨[1, 2, 3], []⟩)).1.2
    body.sendings = [⟨[], 0⟩, ⟨[1, 2, 3], 3⟩] := by
  decide

end GoServices.Gateway.Fetch
