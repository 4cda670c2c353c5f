/-
`fetch` with the calls it makes.

The pool, the breakers, the reverse proxy and the pool of buffers are services with a state of
their own.
-/
import GoServices.Gateway.Server

namespace GoServices.Gateway.Fetch

open List

/-- What `Pick` returns, for backends of type `β`. -/
inductive Picked (β : Type) where
  | failed (error : String)
  | backend (b : β)
  | panicked
  deriving DecidableEq

inductive Served where
  | answered (status : Nat) (header : Values) (body : String)
  | panicked
  deriving DecidableEq

structure Services (σ β : Type) where
  id : β → String
  pick : σ → σ × Picked β
  release : σ → β → σ
  allow : σ → β → σ × Bool
  success : σ → β → σ
  failure : σ → β → σ
  serve : σ → β → σ × Served

inductive Event (β : Type) where
  | unpicked (error : String)
  | picked (b : β)
  | released (b : β)
  | allowed (b : β)
  | refused (b : β)
  | succeeded (b : β)
  | failed (b : β)
  | got (buffer : Nat)
  | served (b : β) (buffer : Nat) (ended : Served)
  | read (buffer : Nat)
  | put (buffer : Nat)
  deriving DecidableEq

/-- `responseRecorder`.  The buffer is gone after `release`. -/
structure Recorder where
  status : Nat
  header : Values
  content : String
  buffer : Option Nat

inductive Outcome (ε ρ : Type) where
  | returned (result : Except ε ρ)
  | panicked

variable {σ β : Type}

def Recorder.release (r : Recorder) : Recorder × List (Event β) :=
  match r.buffer with
  | none => (r, [])
  | some n => ({ r with buffer := none }, [.put n])

/-- `rec.body.Bytes()`. -/
def Recorder.bytes (r : Recorder) : List (Event β) := r.buffer.toList.map .read

/-- The loop of `fetch` with a number of attempts left. -/
def fetchLoop (svc : Services σ β) :
    Nat → FetchError → σ → σ × List (Event β) × Outcome FetchError Recorder
  | 0, lastErr, s => (s, [], .returned (.error lastErr))
  | n + 1, _, s =>
    let (s, picked) := svc.pick s
    match picked with
    | .panicked => (s, [], .panicked)
    | .failed error => (s, [.unpicked error], .returned (.error (.pick error)))
    | .backend b =>
      let (s, admitted) := svc.allow s b
      if ¬ admitted then
        let (s, calls, result) := fetchLoop svc n .breakerOpen (svc.release s b)
        (s, [.picked b, .refused b, .released b] ++ calls, result)
      else
        let (s, ended) := svc.serve s b
        match ended with
        | .panicked => (s, [.picked b, .allowed b, .got n, .served b n .panicked], .panicked)
        | .answered status header body =>
          let attemptRec : Recorder := ⟨status, header, body, some n⟩
          let answered := [.picked b, .allowed b, .got n,
            .served b n (.answered status header body), .released b]
          let s := svc.release s b
          if status < 500 then
            (svc.success s b, answered ++ [.succeeded b], .returned (.ok attemptRec))
          else
            let s := svc.failure s b
            -- the last attempt is kept whatever its status
            if n = 0 then (s, answered ++ [.failed b], .returned (.ok attemptRec))
            else
              let (s, calls, result) := fetchLoop svc n (.status (svc.id b) status) s
              (s, answered ++ [.failed b] ++ attemptRec.release.2 ++ calls, result)

variable (svc : Services σ β)

def fetch (s : σ) : σ × List (Event β) × Outcome FetchError Recorder :=
  fetchLoop svc maxProxyAttempts .none s

inductive Looped (svc : Services σ β) :
    Nat → FetchError → σ → List (Event β) → Outcome FetchError Recorder → Prop
  | exhausted (lastErr s : _) :
      Looped svc 0 lastErr s [] (.returned (.error lastErr))
  | pickPanicked (n lastErr s : _) (hpick : (svc.pick s).2 = .panicked) :
      Looped svc (n + 1) lastErr s [] .panicked
  | pickFailed (n lastErr s error : _) (hpick : (svc.pick s).2 = .failed error) :
      Looped svc (n + 1) lastErr s [.unpicked error] (.returned (.error (.pick error)))
  | refused (n lastErr s b calls result : _) (hpick : (svc.pick s).2 = .backend b)
      (hallow : (svc.allow (svc.pick s).1 b).2 = false)
      (hnext : Looped svc n .breakerOpen (svc.release (svc.allow (svc.pick s).1 b).1 b)
        calls result) :
      Looped svc (n + 1) lastErr s ([.picked b, .refused b, .released b] ++ calls) result
  | servePanicked (n lastErr s b : _)
      (hpick : (svc.pick s).2 = .backend b) (hallow : (svc.allow (svc.pick s).1 b).2 = true)
      (hserve : (svc.serve (svc.allow (svc.pick s).1 b).1 b).2 = .panicked) :
      Looped svc (n + 1) lastErr s
        [.picked b, .allowed b, .got n, .served b n .panicked] .panicked
  | succeeded (n lastErr s b status header body : _) (hpick : (svc.pick s).2 = .backend b)
      (hallow : (svc.allow (svc.pick s).1 b).2 = true)
      (hserve : (svc.serve (svc.allow (svc.pick s).1 b).1 b).2 = .answered status header body)
      (hstatus : status < 500) :
      Looped svc (n + 1) lastErr s
        [.picked b, .allowed b, .got n, .served b n (.answered status header body),
          .released b, .succeeded b]
        (.returned (.ok ⟨status, header, body, some n⟩))
  | kept (lastErr s b status header body : _) (hpick : (svc.pick s).2 = .backend b)
      (hallow : (svc.allow (svc.pick s).1 b).2 = true)
      (hserve : (svc.serve (svc.allow (svc.pick s).1 b).1 b).2 = .answered status header body)
      (hstatus : 500 ≤ status) :
      Looped svc 1 lastErr s
        [.picked b, .allowed b, .got 0, .served b 0 (.answered status header body),
          .released b, .failed b]
        (.returned (.ok ⟨status, header, body, some 0⟩))
  | retried (n lastErr s b status header body calls result : _)
      (hpick : (svc.pick s).2 = .backend b) (hallow : (svc.allow (svc.pick s).1 b).2 = true)
      (hserve : (svc.serve (svc.allow (svc.pick s).1 b).1 b).2 = .answered status header body)
      (hstatus : 500 ≤ status) (hleft : n ≠ 0) (hnext : Looped svc n (.status (svc.id b) status)
        (svc.failure (svc.release (svc.serve (svc.allow (svc.pick s).1 b).1 b).1 b) b)
        calls result) :
      Looped svc (n + 1) lastErr s
        ([.picked b, .allowed b, .got n, .served b n (.answered status header body),
          .released b, .failed b, .put n] ++ calls) result

theorem fetchLoop_looped (n : Nat) (lastErr : FetchError) (s : σ) :
    Looped svc n lastErr s (fetchLoop svc n lastErr s).2.1 (fetchLoop svc n lastErr s).2.2 := by
  induction n generalizing lastErr s with
  | zero => exact .exhausted lastErr s
  | succ n ih =>
    cases hpick : (svc.pick s).2 with
    | panicked =>
      simp only [fetchLoop, hpick]
      exact .pickPanicked n lastErr s hpick
    | failed error =>
      simp only [fetchLoop, hpick]
      exact .pickFailed n lastErr s error hpick
    | backend b =>
      cases hallow : (svc.allow (svc.pick s).1 b).2 with
      | false =>
        simp only [fetchLoop, hpick, hallow, Bool.false_eq_true, not_false_eq_true, if_true]
        exact .refused n lastErr s b _ _ hpick hallow (ih _ _)
      | true =>
        cases hserve : (svc.serve (svc.allow (svc.pick s).1 b).1 b).2 with
        | panicked =>
          simp only [fetchLoop, hpick, hallow, hserve, not_true_eq_false, if_false]
          exact .servePanicked n lastErr s b hpick hallow hserve
        | answered status header body =>
          by_cases hstatus : status < 500
          · simp only [fetchLoop, hpick, hallow, hserve, not_true_eq_false, if_false,
              if_pos hstatus]
            exact .succeeded n lastErr s b status header body hpick hallow hserve hstatus
          by_cases hleft : n = 0
          · subst hleft
            simp only [fetchLoop, hpick, hallow, hserve, not_true_eq_false, if_false,
            if_neg hstatus, if_true]
            exact .kept lastErr s b status header body hpick hallow hserve
              (Nat.not_lt.mp hstatus)
          · simp only [fetchLoop, hpick, hallow, hserve, not_true_eq_false, if_false,
            if_neg hstatus, if_neg hleft]
            exact .retried n lastErr s b status header body _ _ hpick hallow hserve
              (Nat.not_lt.mp hstatus) hleft (ih _ _)

/-- What the loop of `Server` is given for a call. -/
def Event.attempt (id : β → String) : Event β → Option Attempt
  | .unpicked error => some (.noBackend error)
  | .refused b => some (.breakerOpen (id b))
  | .served b _ (.answered status header body) => some (.answered (id b) status header body)
  | _ => none

/-- Given the attempts of this loop, that of `Server` returns what it returns. -/
theorem Looped.fetchLoop_eq {n : Nat} {lastErr : FetchError} {s : σ} {calls : List (Event β)}
    {outcome : Outcome FetchError Recorder} (h : Looped svc n lastErr s calls outcome)
    (r : Request) {result : Except FetchError Recorder} (hresult : outcome = .returned result) :
    Gateway.fetchLoop r n lastErr (calls.filterMap (Event.attempt svc.id)) =
      some (result.map fun rec => ⟨rec.status, rec.header, rec.content, r⟩) := by
  induction h with
  | pickPanicked | servePanicked => cases hresult
  | exhausted | pickFailed =>
    cases hresult
    rfl
  | refused n lastErr s b calls result hpick hallow hnext ih => exact ih hresult
  | succeeded n lastErr s b status header body _ _ _ hstatus =>
    cases hresult
    exact if_pos (.inl hstatus)
  | kept =>
    cases hresult
    exact if_pos (.inr rfl)
  | retried n lastErr s b status header body calls result _ _ _ hstatus hleft _ ih =>
    exact (if_neg (not_or.mpr ⟨Nat.not_lt.mpr hstatus, hleft⟩)).trans (ih hresult)

inductive LoadError where
  | fetch (e : FetchError)
  | upstream (status : Nat)

/-- The load of `serveCacheable`, which releases the recorder when it is left. -/
def serveCacheable (s : σ) :
    List (Event β) × Outcome LoadError (Nat × Values × String) :=
  match fetch svc s with
  | (_, calls, .panicked) => (calls, .panicked)
  | (_, calls, .returned (.error e)) => (calls, .returned (.error (.fetch e)))
  | (_, calls, .returned (.ok rec)) =>
    if rec.status ≥ 500 then
      (calls ++ rec.release.2, .returned (.error (.upstream rec.status)))
    else
      (calls ++ rec.bytes ++ rec.release.2, .returned (.ok (rec.status, rec.header, rec.content)))

/-- `proxyDirect`: the response is written before the recorder is released. -/
def proxyDirect (s : σ) :
    List (Event β) × Outcome FetchError (Nat × Values × String) :=
  match fetch svc s with
  | (_, calls, .panicked) => (calls, .panicked)
  | (_, calls, .returned (.error e)) => (calls, .returned (.error e))
  | (_, calls, .returned (.ok rec)) =>
    (calls ++ rec.bytes ++ rec.release.2, .returned (.ok (rec.status, rec.header, rec.content)))

/-! ## Accounting -/

def Event.buffer : Event β → Option Nat
  | .got n | .served _ n _ | .read n | .put n => some n
  | _ => none

def BuffersOnce (calls : List (Event β)) : Prop :=
  calls.Pairwise fun e f => ∀ n, e = .put n → f.buffer ≠ some n

def NoPanic (calls : List (Event β)) : Prop := ∀ b n, Event.served b n .panicked ∉ calls

def Balanced [DecidableEq β] (calls : List (Event β)) : Prop :=
  ∀ b, calls.count (.picked b) = calls.count (.released b) ∧
    calls.count (.allowed b) = calls.count (.succeeded b) + calls.count (.failed b)

section
variable {calls calls' : List (Event β)}

theorem noPanic_append : NoPanic (calls ++ calls') ↔ NoPanic calls ∧ NoPanic calls' := by
  simp only [NoPanic, mem_append, not_or, forall_and]

theorem Balanced.append_iff [DecidableEq β] (h : Balanced calls) :
    Balanced (calls ++ calls') ↔ Balanced calls' := by
  simp only [Balanced, count_append]
  refine forall_congr' fun b => ?_
  have hb := h b
  omega

theorem Balanced.append_iff_left [DecidableEq β] (h : Balanced calls') :
    Balanced (calls ++ calls') ↔ Balanced calls := by
  simp only [Balanced, count_append]
  refine forall_congr' fun b => ?_
  have hb := h b
  omega

theorem BuffersOnce.append (h : BuffersOnce calls) (h' : BuffersOnce calls')
    (hput : ∀ n, .put n ∈ calls → ∀ f ∈ calls', f.buffer ≠ some n) :
    BuffersOnce (calls ++ calls') := by
  refine pairwise_append.mpr ⟨h, h', ?_⟩
  rintro e he f hf n rfl
  exact hput n he f hf

theorem buffersOnce_of_forall (h : ∀ n, .put n ∉ calls) : BuffersOnce calls := by
  refine pairwise_of_forall_mem_list fun e he f _ n heq => ?_
  exact absurd (heq ▸ he) (h n)

theorem buffersOnce_concat (calls : List (Event β)) (e : Event β) (h : ∀ n, .put n ∉ calls) :
    BuffersOnce (calls ++ [e]) :=
  (buffersOnce_of_forall h).append (pairwise_singleton _ _) fun n hn => absurd hn (h n)

end

/-- What one can say of the calls of a loop that had `n` attempts left. -/
structure Accounted [DecidableEq β] (n : Nat) (calls : List (Event β))
    (result : Outcome FetchError Recorder) : Prop where
  balanced_iff : Balanced calls ↔ NoPanic calls
  once : BuffersOnce calls
  below : ∀ e ∈ calls, ∀ k, e.buffer = some k → k < n
  kept : ∀ rec, result = .returned (.ok rec) → ∃ k < n, rec.buffer = some k ∧ .put k ∉ calls

variable {n : Nat} {calls : List (Event β)} {result : Outcome FetchError Recorder}

section
variable [DecidableEq β]

theorem Accounted.append {calls' : List (Event β)} (h : Accounted n calls' result)
    (hbalanced : Balanced calls) (hpanic : NoPanic calls) (honce : BuffersOnce calls)
    (hown : ∀ e ∈ calls, ∀ k, e.buffer = some k → k = n) :
    Accounted (n + 1) (calls ++ calls') result where
  balanced_iff := by
    rw [hbalanced.append_iff, noPanic_append, and_iff_right hpanic]
    exact h.balanced_iff
  once := by
    refine honce.append h.once fun k hk f hf hbuffer => ?_
    have hn := hown _ hk k rfl
    have hlt := h.below f hf k hbuffer
    omega
  below e he k hk := by
    rcases mem_append.mp he with he | he
    · rw [hown e he k hk]
      exact Nat.lt_succ_self n
    · exact Nat.lt_succ_of_lt (h.below e he k hk)
  kept rec hrec := by
    obtain ⟨k, hlt, hk, hput⟩ := h.kept rec hrec
    refine ⟨k, Nat.lt_succ_of_lt hlt, hk, fun hmem => ?_⟩
    rcases mem_append.mp hmem with hmem | hmem
    · exact absurd (hown _ hmem k rfl) hlt.ne
    · exact hput hmem

theorem balanced_refused (b : β) : Balanced [.picked b, .refused b, .released b] := by
  intro c
  simp [count_cons]

theorem balanced_succeeded (b : β) (n : Nat) (ended : Served) :
    Balanced [.picked b, .allowed b, .got n, .served b n ended, .released b, .succeeded b] := by
  intro c
  simp [count_cons]

theorem balanced_failed (b : β) (n : Nat) (ended : Served) :
    Balanced [.picked b, .allowed b, .got n, .served b n ended, .released b, .failed b] := by
  intro c
  simp [count_cons]

theorem looped_accounted {svc : Services σ β} {lastErr : FetchError} {s : σ}
    (h : Looped svc n lastErr s calls result) : Accounted n calls result := by
  induction h with
  | exhausted lastErr s | pickPanicked n lastErr s hpick =>
    exact ⟨iff_of_true (fun b => by simp) nofun, Pairwise.nil, nofun, nofun⟩
  | pickFailed n lastErr s error hpick =>
    refine ⟨iff_of_true (fun b => by simp) fun b k => by simp, pairwise_singleton _ _, ?_, nofun⟩
    simp [Event.buffer]
  | refused n lastErr s b calls result hpick hallow hnext ih =>
    refine ih.append (balanced_refused b) (fun c k => by simp)
      (buffersOnce_of_forall fun k => by simp) ?_
    simp [Event.buffer]
  | servePanicked n lastErr s b hpick hallow hserve =>
    refine ⟨iff_of_false (fun h => ?_) (fun h => h b n (by simp)),
      buffersOnce_of_forall fun k => by simp, ?_, nofun⟩
    · have hpick := (h b).1
      simp at hpick
    · simp [Event.buffer]
  | succeeded n lastErr s b status header body hpick hallow hserve hstatus =>
    refine ⟨iff_of_true (balanced_succeeded b n _) fun c k => by simp,
      buffersOnce_of_forall fun k => by simp, by simp [Event.buffer], ?_⟩
    rintro rec ⟨⟩
    exact ⟨n, Nat.lt_succ_self n, rfl, by simp⟩
  | kept lastErr s b status header body hpick hallow hserve hstatus =>
    refine ⟨iff_of_true (balanced_failed b 0 _) fun c k => by simp,
      buffersOnce_of_forall fun k => by simp, by simp [Event.buffer], ?_⟩
    rintro rec ⟨⟩
    exact ⟨0, Nat.lt_succ_self 0, rfl, by simp⟩
  | retried n lastErr s b status header body calls result hpick hallow hserve hstatus hleft
      hnext ih =>
    refine ih.append ?_ (fun c k => by simp) ?_ (by simp [Event.buffer])
    · exact (balanced_failed b n _).append_iff.mpr fun c => by simp
    -- the buffer is given back in the last call of the attempt
    exact buffersOnce_concat [.picked b, .allowed b, .got n,
      .served b n (.answered status header body), .released b, .failed b] _
      fun k => by simp

theorem Accounted.finish {finish : List (Event β)} {rec : Recorder}
    (h : Accounted n calls (.returned (.ok rec)))
    (hfinish : finish = rec.release.2 ∨ finish = rec.bytes ++ rec.release.2) :
    (Balanced (calls ++ finish) ↔ NoPanic (calls ++ finish)) ∧ BuffersOnce (calls ++ finish) := by
  obtain ⟨k, hlt, hbuffer, hput⟩ := h.kept rec rfl
  have hcases : finish = [.put k] ∨ finish = [.read k, .put k] := by
    simpa [Recorder.release, Recorder.bytes, hbuffer] using hfinish
  have hbalanced : Balanced finish := by
    intro c
    rcases hcases with rfl | rfl <;> simp
  have hpanic : NoPanic finish := by
    intro c m
    rcases hcases with rfl | rfl <;> simp
  have honce : BuffersOnce finish := by
    rcases hcases with rfl | rfl
    · exact pairwise_singleton _ _
    · simp [BuffersOnce]
  have hown : ∀ f ∈ finish, f.buffer = some k := by
    rcases hcases with rfl | rfl <;> simp [Event.buffer]
  refine ⟨?_, h.once.append honce fun m hm f hf hbuf => ?_⟩
  · rw [hbalanced.append_iff_left, noPanic_append, and_iff_left hpanic]
    exact h.balanced_iff
  rw [hown f hf] at hbuf
  cases hbuf
  exact hput hm

end

/-- For `fetch` and for both of its callers: the picks are released, what the breakers let
through is reported, and the buffers are given back at most once and not used after that,
exactly when no call of the reverse proxy was left by a panic. -/
theorem accounts_iff_no_panic {σ β : Type} [DecidableEq β] (svc : Services σ β) (s : σ) :
    (Balanced (fetch svc s).2.1 ∧ BuffersOnce (fetch svc s).2.1 ↔ NoPanic (fetch svc s).2.1) ∧
    (Balanced (serveCacheable svc s).1 ∧ BuffersOnce (serveCacheable svc s).1 ↔
      NoPanic (serveCacheable svc s).1) ∧
    (Balanced (proxyDirect svc s).1 ∧ BuffersOnce (proxyDirect svc s).1 ↔
      NoPanic (proxyDirect svc s).1) := by
  have h : Accounted maxProxyAttempts (fetch svc s).2.1 (fetch svc s).2.2 :=
    looped_accounted (fetchLoop_looped svc maxProxyAttempts .none s)
  unfold serveCacheable proxyDirect
  generalize fetch svc s = r at h ⊢
  obtain ⟨s', calls, result⟩ := r
  have hfetch : Balanced calls ∧ BuffersOnce calls ↔ NoPanic calls :=
    (and_iff_left h.once).trans h.balanced_iff
  refine ⟨hfetch, ?_⟩
  cases result with
  | panicked => exact ⟨hfetch, hfetch⟩
  | returned result =>
    cases result with
    | error e => exact ⟨hfetch, hfetch⟩
    | ok rec =>
      have hdirect := h.finish (.inr rfl)
      rw [← append_assoc] at hdirect
      refine ⟨?_, (and_iff_left hdirect.2).trans hdirect.1⟩
      by_cases hstatus : rec.status ≥ 500
      · simp only [if_pos hstatus]
        have herror := h.finish (.inl rfl)
        exact (and_iff_left herror.2).trans herror.1
      · simp only [if_neg hstatus]
        exact (and_iff_left hdirect.2).trans hdirect.1

def abortedServices : Services Unit Unit where
  id _ := "backend"
  pick _ := ((), .backend ())
  release _ _ := ()
  allow _ _ := ((), true)
  success _ _ := ()
  failure _ _ := ()
  serve _ _ := ((), .panicked)

/-- The pick is never released, and the breaker never hears of the request. -/
theorem aborted_response_leaks :
    (proxyDirect abortedServices ()).1.count (.picked ()) = 1 ∧
      (proxyDirect abortedServices ()).1.count (.released ()) = 0 ∧
      (proxyDirect abortedServices ()).1.count (.allowed ()) = 1 ∧
      (proxyDirect abortedServices ()).1.count (.succeeded ()) = 0 ∧
      (proxyDirect abortedServices ()).1.count (.failed ()) = 0 := by
  decide

end GoServices.Gateway.Fetch
