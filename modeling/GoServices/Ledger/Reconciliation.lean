/-
The worker pool of the reconciliation batch.

`Reconcile` starts workers, a feeder, a closer and collects the results itself.
-/
import GoServices.Base.Run

namespace GoServices.Ledger.Reconciliation

open List

structure Transaction where
  id : String
  amount : Int

/-- `Result`; the error is `none` for nil. -/
structure Result (ε : Type) where
  txnID : String
  err : Option ε
  deriving DecidableEq

inductive Worker (ε : Type)
  /-- Receiving from `jobs`. -/
  | idle
  | checking (txn : Transaction)
  | processing (txn : Transaction)
  | sending (r : Result ε)
  | exited

structure State (ε : Type) where
  todo : List Transaction
  jobsClosed : Bool
  workers : List (Worker ε)
  resultsClosed : Bool
  out : List (Result ε)
  returned : Bool
  cancelled : Bool
  calls : List (Transaction × Option ε)
  skipped : List Transaction

/-- `Reconcile` after its goroutines are started. -/
def start (ε : Type) (txns : List Transaction) (workers : Int) : State ε where
  todo := txns
  jobsClosed := false
  workers := List.replicate (if workers < 1 then 1 else workers.toNat) .idle
  resultsClosed := false
  out := []
  returned := false
  cancelled := false
  calls := []
  skipped := []

inductive Label (ε : Type)
  | hand (worker : Nat)
  /-- The feeder returns and closes `jobs`. -/
  | feederDone
  | check (worker : Nat)
  /-- The call of `process` returns. -/
  | process (worker : Nat) (err : Option ε)
  | deliver (worker : Nat)
  | exit (worker : Nat)
  | closeResults
  | collectorDone
  | cancel

variable {ε : Type} (ctxErr : ε)

def State.setWorker (s : State ε) (i : Nat) (w : Worker ε) : State ε :=
  { s with workers := s.workers.set i w }

def Worker.isExited : Worker ε → Bool
  | .exited => true
  | _ => false

def step (s : State ε) : Label ε → Option (State ε)
  | .hand i =>
    match s.jobsClosed, s.todo, s.workers[i]? with
    | false, txn :: todo, some .idle => some { s.setWorker i (.checking txn) with todo := todo }
    | _, _, _ => none
  | .feederDone =>
    if !s.jobsClosed && (s.todo.isEmpty || s.cancelled) then some { s with jobsClosed := true }
    else none
  | .check i =>
    match s.workers[i]? with
    | some (.checking txn) =>
      if s.cancelled then
        some { s.setWorker i (.sending ⟨txn.id, some ctxErr⟩) with skipped := s.skipped ++ [txn] }
      else some (s.setWorker i (.processing txn))
    | _ => none
  | .process i err =>
    match s.workers[i]? with
    | some (.processing txn) =>
      some { s.setWorker i (.sending ⟨txn.id, err⟩) with calls := s.calls ++ [(txn, err)] }
    | _ => none
  | .deliver i =>
    match s.returned, s.workers[i]? with
    | false, some (.sending r) => some { s.setWorker i .idle with out := s.out ++ [r] }
    | _, _ => none
  | .exit i =>
    match s.jobsClosed, s.workers[i]? with
    | true, some .idle => some (s.setWorker i .exited)
    | _, _ => none
  | .closeResults =>
    if !s.resultsClosed && s.workers.all Worker.isExited then some { s with resultsClosed := true }
    else none
  | .collectorDone =>
    if s.resultsClosed && !s.returned then some { s with returned := true } else none
  | .cancel => if s.cancelled then none else some { s with cancelled := true }

/-! ## One step -/

inductive Trans (s : State ε) : Label ε → State ε → Prop
  | hand {i txn todo : _} (hopen : s.jobsClosed = false)
    (htodo : s.todo = txn :: todo) (hworker : s.workers[i]? = some .idle) :
    Trans s (.hand i) { s with todo := todo, workers := s.workers.set i (.checking txn) }
  | feederDone (hopen : s.jobsClosed = false) (hwhy : s.todo = [] ∨ s.cancelled = true) :
    Trans s .feederDone { s with jobsClosed := true }
  | skip {i txn : _} (hworker : s.workers[i]? = some (.checking txn))
    (hcancelled : s.cancelled = true) :
    Trans s (.check i) { s with
      workers := s.workers.set i (.sending ⟨txn.id, some ctxErr⟩)
      skipped := s.skipped ++ [txn] }
  | check {i txn : _} (hworker : s.workers[i]? = some (.checking txn)) :
    Trans s (.check i) { s with workers := s.workers.set i (.processing txn) }
  | process {i txn err : _} (hworker : s.workers[i]? = some (.processing txn)) :
    Trans s (.process i err) { s with
      workers := s.workers.set i (.sending ⟨txn.id, err⟩)
      calls := s.calls ++ [(txn, err)] }
  | deliver {i r : _} (hworker : s.workers[i]? = some (.sending r)) :
    Trans s (.deliver i) { s with workers := s.workers.set i .idle, out := s.out ++ [r] }
  | exit {i : _} (hclosed : s.jobsClosed = true) (hworker : s.workers[i]? = some .idle) :
    Trans s (.exit i) { s with workers := s.workers.set i .exited }
  | closeResults (hopen : s.resultsClosed = false)
    (hexited : s.workers.all Worker.isExited = true) :
    Trans s .closeResults { s with resultsClosed := true }
  | collectorDone (hclosed : s.resultsClosed = true) (hopen : s.returned = false) :
    Trans s .collectorDone { s with returned := true }
  | cancel (hcancelled : s.cancelled = false) : Trans s .cancel { s with cancelled := true }

theorem step_trans {s s' : State ε} {a : Label ε} (h : step ctxErr s a = some s') :
    Trans ctxErr s a s' := by
  revert h
  fun_cases step ctxErr s a <;> rintro ⟨⟩
  · exact .hand ‹_› ‹_› ‹_›
  · rename_i hwhy
    rw [Bool.and_eq_true, Bool.or_eq_true, Bool.not_eq_true', List.isEmpty_iff] at hwhy
    exact .feederDone hwhy.1 hwhy.2
  · exact .skip ‹_› ‹_›
  · exact .check ‹_›
  · exact .process ‹_›
  · exact .deliver ‹_›
  · exact .exit ‹_› ‹_›
  · rename_i hwhy
    rw [Bool.and_eq_true, Bool.not_eq_true'] at hwhy
    exact .closeResults hwhy.1 hwhy.2
  · rename_i hwhy
    rw [Bool.and_eq_true, Bool.not_eq_true'] at hwhy
    exact .collectorDone hwhy.1 hwhy.2
  · rename_i hcancelled
    exact .cancel (by simpa using hcancelled)

/-! ## Every run ends -/

def Worker.work : Worker ε → Nat
  | .exited => 0
  | .idle => 1
  | .sending _ => 2
  | .processing _ => 3
  | .checking _ => 4

def State.work (s : State ε) : Nat :=
  4 * s.todo.length + (s.workers.map Worker.work).sum + (if s.jobsClosed then 0 else 1) +
    (if s.resultsClosed then 0 else 1) + (if s.returned then 0 else 1) +
    (if s.cancelled then 0 else 1)

theorem sum_map_set {α : Type} (f : α → Nat) {l : List α} {i : Nat} {a : α}
    (h : l[i]? = some a) (b : α) : ((l.set i b).map f).sum + f a = (l.map f).sum + f b := by
  induction l generalizing i with
  | nil => cases h
  | cons x l ih =>
    cases i with
    | zero =>
      cases h
      simp only [set_cons_zero, map_cons, sum_cons]
      omega
    | succ i =>
      have hrest := ih h
      simp only [set_cons_succ, map_cons, sum_cons]
      omega

theorem work_set_lt {l : List (Worker ε)} {i : Nat} {v w : Worker ε} (h : l[i]? = some v)
    (hlt : w.work < v.work) : ((l.set i w).map Worker.work).sum < (l.map Worker.work).sum := by
  have hset := sum_map_set Worker.work h w
  omega

theorem step_work {s s' : State ε} {a : Label ε} (h : step ctxErr s a = some s') :
    s'.work < s.work := by
  unfold State.work
  cases step_trans ctxErr h with
  | @hand i txn todo _ htodo hworker =>
    have hset := sum_map_set Worker.work hworker (.checking txn)
    simp only [Worker.work] at hset
    simp only [htodo, length_cons]
    omega
  | @skip i txn hworker =>
    have hlower := work_set_lt (w := .sending ⟨txn.id, some ctxErr⟩) hworker (by decide : 2 < 4)
    simp only
    omega
  | @check i txn hworker =>
    have hlower := work_set_lt (w := .processing txn) hworker (by decide : 3 < 4)
    simp only
    omega
  | @process i txn err hworker =>
    have hlower := work_set_lt (w := .sending ⟨txn.id, err⟩) hworker (by decide : 2 < 3)
    simp only
    omega
  | deliver hworker =>
    have hlower := work_set_lt (w := .idle) hworker (by decide : 1 < 2)
    simp only
    omega
  | exit _ hworker =>
    have hlower := work_set_lt (w := .exited) hworker (by decide : 0 < 1)
    simp only
    omega
  | feederDone hopen | closeResults hopen | collectorDone _ hopen | cancel hopen => simp [hopen]

theorem step_enabled {s : State ε} (hreturned : s.returned = false) :
    ∃ a, a ≠ .cancel ∧ (step ctxErr s a).isSome = true := by
  cases hclosed : s.resultsClosed with
  | true => exact ⟨.collectorDone, nofun, by simp [step, hclosed, hreturned]⟩
  | false =>
    by_cases hall : s.workers.all Worker.isExited = true
    · exact ⟨.closeResults, nofun, by simp only [step, hclosed, hall]; rfl⟩
    -- Some worker has not exited: it goes on, or the feeder does.
    rw [all_eq_true] at hall
    push Not at hall
    obtain ⟨w, hw, hexited⟩ := hall
    obtain ⟨i, hi⟩ := mem_iff_getElem?.mp hw
    cases w with
    | exited => exact absurd rfl hexited
    | checking txn => exact ⟨.check i, nofun, by simp only [step, hi]; split <;> rfl⟩
    | processing txn => exact ⟨.process i none, nofun, by simp [step, hi]⟩
    | sending r => exact ⟨.deliver i, nofun, by simp [step, hi, hreturned]⟩
    | idle =>
      cases hjobs : s.jobsClosed with
      | true => exact ⟨.exit i, nofun, by simp [step, hi, hjobs]⟩
      | false =>
        cases htodo : s.todo with
        | nil => exact ⟨.feederDone, nofun, by simp [step, hjobs, htodo]⟩
        | cons txn todo => exact ⟨.hand i, nofun, by simp [step, hi, hjobs, htodo]⟩

/-! ## The results -/

def Worker.holds : Worker ε → List Transaction
  | .checking txn | .processing txn => [txn]
  | _ => []

def Worker.result : Worker ε → List (Result ε)
  | .sending r => [r]
  | _ => []

def skipResult (txn : Transaction) : Result ε := ⟨txn.id, some ctxErr⟩

def callResult (c : Transaction × Option ε) : Result ε := ⟨c.1.id, c.2⟩

structure Balanced (txns : List Transaction) (s : State ε) : Prop where
  handed : ∃ handed, txns = handed ++ s.todo ∧
    handed.Perm (s.skipped ++ s.calls.map Prod.fst ++ s.workers.flatMap Worker.holds)
  results : (s.skipped.map (skipResult ctxErr) ++ s.calls.map callResult).Perm
    (s.out ++ s.workers.flatMap Worker.result)
  skipped : s.cancelled = false → s.skipped = []

structure Shutdown (s : State ε) : Prop where
  jobs : s.jobsClosed = true → s.todo = [] ∨ s.cancelled = true
  exited : .exited ∈ s.workers → s.jobsClosed = true
  results : s.resultsClosed = true → s.workers.all Worker.isExited = true
  returned : s.returned = true → s.resultsClosed = true
  some_worker : s.workers ≠ []

theorem start_balanced (txns : List Transaction) (workers : Int) :
    Balanced ctxErr txns (start ε txns workers) where
  handed := ⟨[], rfl, by simp [start, Worker.holds]⟩
  results := by simp [start, Worker.result]
  skipped := fun _ => rfl

theorem start_shutdown (txns : List Transaction) (workers : Int) :
    Shutdown (start ε txns workers) where
  jobs := nofun
  exited := by
    intro h
    cases eq_of_mem_replicate h
  results := nofun
  returned := nofun
  some_worker := by
    unfold start
    split
    · exact cons_ne_nil _ _
    rw [Ne, replicate_eq_nil_iff]
    omega

section Step

variable {ctxErr} {txns : List Transaction} {s s' : State ε} {a : Label ε} {α β : Type} {i : Nat}

theorem count_flatMap_set [DecidableEq β] (f : α → List β) {l : List α}
    {v : α} (h : l[i]? = some v) (w : α) (x : β) :
    ((l.set i w).flatMap f).count x + (f v).count x = (l.flatMap f).count x + (f w).count x := by
  rw [count_flatMap, count_flatMap]
  exact sum_map_set (count x ∘ f) h w

open Classical in
theorem perm_of_move (f : α → List β) {l : List α} {v w : α}
    (hv : l[i]? = some v) (gain : List β) {xs xs' done done' : List β}
    (hperm : xs.Perm (done ++ l.flatMap f)) (hgain : xs'.Perm (xs ++ gain))
    (hmove : (done' ++ f w).Perm (done ++ f v ++ gain)) :
    xs'.Perm (done' ++ (l.set i w).flatMap f) := by
  refine perm_iff_count.mpr fun x => ?_
  have hset := count_flatMap_set f hv w x
  have hbefore := hperm.count_eq x
  have hafter := hgain.count_eq x
  have hmoved := hmove.count_eq x
  simp only [count_append] at hbefore hafter hmoved ⊢
  omega

section
variable (h : Balanced ctxErr txns s)
include h

theorem Balanced.handed_step (htrans : Trans ctxErr s a s') :
    ∃ handed, txns = handed ++ s'.todo ∧
      handed.Perm (s'.skipped ++ s'.calls.map Prod.fst ++ s'.workers.flatMap Worker.holds) := by
  obtain ⟨handed, htxns, hperm⟩ := h.handed
  have hnone : handed.Perm (handed ++ []) := by rw [append_nil]
  cases htrans with
  | @hand i txn todo _ htodo hworker =>
    refine ⟨handed ++ [txn], by rw [htxns, htodo, append_assoc]; rfl, ?_⟩
    refine perm_of_move Worker.holds hworker [txn] hperm .rfl ?_
    simp [Worker.holds]
  | @skip i txn hworker hcancelled =>
    refine ⟨handed, htxns, perm_of_move Worker.holds hworker [] hperm hnone ?_⟩
    simp only [Worker.holds, append_nil, append_assoc]
    exact perm_append_comm.append_left _
  | check hworker | process hworker | deliver hworker | exit _ hworker =>
    refine ⟨handed, htxns, perm_of_move Worker.holds hworker [] hperm hnone ?_⟩
    simp [Worker.holds]
  | feederDone | closeResults | collectorDone | cancel => exact ⟨handed, htxns, hperm⟩

theorem Balanced.results_step (htrans : Trans ctxErr s a s') :
    (s'.skipped.map (skipResult ctxErr) ++ s'.calls.map callResult).Perm
      (s'.out ++ s'.workers.flatMap Worker.result) := by
  have hnone : (s.skipped.map (skipResult ctxErr) ++ s.calls.map callResult).Perm
      (s.skipped.map (skipResult ctxErr) ++ s.calls.map callResult ++ []) := by
    rw [append_nil]
  cases htrans with
  | hand _ _ hworker =>
    refine perm_of_move Worker.result hworker [] h.results hnone ?_
    simp [Worker.result]
  | @skip i txn hworker hcancelled =>
    refine perm_of_move Worker.result hworker [skipResult ctxErr txn] h.results ?_ ?_
    · simp only [map_append, map_singleton, append_assoc]
      exact perm_append_comm.append_left _
    · simp [Worker.result, skipResult]
  | check hworker =>
    refine perm_of_move Worker.result hworker [] h.results hnone ?_
    simp [Worker.result]
  | @process i txn err hworker =>
    refine perm_of_move Worker.result hworker [callResult (txn, err)] h.results ?_ ?_
    · simp
    · simp [Worker.result, callResult]
  | deliver hworker | exit _ hworker =>
    refine perm_of_move Worker.result hworker [] h.results hnone ?_
    simp [Worker.result]
  | feederDone | closeResults | collectorDone | cancel => exact h.results

theorem step_balanced (hstep : step ctxErr s a = some s') : Balanced ctxErr txns s' := by
  have htrans := step_trans ctxErr hstep
  refine ⟨h.handed_step htrans, h.results_step htrans, ?_⟩
  cases htrans with
  | skip _ hcancelled => exact fun hnot => by rw [hcancelled] at hnot; cases hnot
  | cancel => exact nofun
  | _ => exact h.skipped

end

theorem exited_mem_of_set {l : List (Worker ε)} {w : Worker ε}
    (h : .exited ∈ l.set i w) (hw : w ≠ .exited) : .exited ∈ l :=
  (mem_or_eq_of_mem_set h).resolve_right fun heq => hw heq.symm

theorem step_shutdown (h : Shutdown s) (hstep : step ctxErr s a = some s') : Shutdown s' := by
  -- A worker that moves is not among workers that have all exited.
  have hmoves : ∀ {i : Nat} {v : Worker ε} (w : Worker ε), s.workers[i]? = some v →
      v ≠ .exited → s.resultsClosed = true → (s.workers.set i w).all Worker.isExited = true := by
    intro i v w hv hne hclosed
    have hexited := all_eq_true.mp (h.results hclosed) v (mem_of_getElem? hv)
    cases v with
    | exited => exact absurd rfl hne
    | _ => cases hexited
  have hsome : ∀ (i : Nat) (w : Worker ε), s.workers.set i w ≠ [] := by
    intro i w hnil
    exact h.some_worker (by simpa using hnil)
  cases step_trans ctxErr hstep with
  | hand hopen htodo hworker =>
    refine ⟨fun hclosed => ?_, fun hmem => h.exited (exited_mem_of_set hmem nofun),
      hmoves _ hworker nofun, h.returned, hsome _ _⟩
    rw [hopen] at hclosed
    cases hclosed
  | feederDone hopen hwhy =>
    exact ⟨fun _ => hwhy, fun _ => rfl, h.results, h.returned, h.some_worker⟩
  | skip hworker | check hworker | process hworker | deliver hworker =>
    exact ⟨h.jobs, fun hmem => h.exited (exited_mem_of_set hmem nofun), hmoves _ hworker nofun,
      h.returned, hsome _ _⟩
  | exit hclosed hworker =>
    exact ⟨h.jobs, fun _ => hclosed, hmoves _ hworker nofun, h.returned, hsome _ _⟩
  | closeResults _ hexited =>
    exact ⟨h.jobs, h.exited, fun _ => hexited, fun _ => rfl, h.some_worker⟩
  | collectorDone hclosed =>
    exact ⟨h.jobs, h.exited, h.results, fun _ => hclosed, h.some_worker⟩
  | cancel => exact ⟨fun _ => .inr rfl, h.exited, h.results, h.returned, h.some_worker⟩

end Step

theorem flatMap_exited {β : Type} {l : List (Worker ε)} (h : l.all Worker.isExited = true)
    {f : Worker ε → List β} (hf : f .exited = []) : l.flatMap f = [] := by
  rw [flatMap_eq_nil_iff]
  intro w hw
  have hexited := all_eq_true.mp h w hw
  cases w with
  | exited => exact hf
  | _ => cases hexited

/-- No schedule gets stuck and every run is bounded.  The results are those of the first
transactions in some order, and without a cancellation of all of them, each asked for once. -/
theorem reconcile_returns (txns : List Transaction) (workers : Int) (as : List (Label ε))
    (s : State ε) (hrun : run (step ctxErr) (start ε txns workers) as = some s) :
    as.length ≤ (start ε txns workers).work ∧
    (s.returned = false → ∃ a, a ≠ .cancel ∧ (step ctxErr s a).isSome = true) ∧
    (s.returned = true → s.cancelled = false →
      (s.calls.map Prod.fst).Perm txns ∧ s.out.Perm (s.calls.map callResult)) ∧
    (s.returned = true →
      ∃ k, (s.out.map Result.txnID).Perm ((txns.take k).map Transaction.id)) := by
  have hlength := run_length_le (fun _ _ _ h => step_work ctxErr h) hrun
  have hbalanced : Balanced ctxErr txns s :=
    run_invariant (fun _ _ _ h hstep => step_balanced h hstep) (start_balanced ctxErr txns workers)
      hrun
  have hshutdown : Shutdown s :=
    run_invariant (fun _ _ _ h hstep => step_shutdown h hstep) (start_shutdown txns workers) hrun
  obtain ⟨handed, htxns, hhanded⟩ := hbalanced.handed
  have hresults := hbalanced.results
  refine ⟨by omega, step_enabled ctxErr, fun hreturned hcancelled => ?_, fun hreturned => ?_⟩
  · have hexited := hshutdown.results (hshutdown.returned hreturned)
    rw [flatMap_exited hexited rfl, hbalanced.skipped hcancelled, append_nil, nil_append] at hhanded
    rw [flatMap_exited hexited rfl, hbalanced.skipped hcancelled, map_nil, append_nil,
      nil_append] at hresults
    -- The feeder was not cancelled, so it has handed out everything.
    have hjobs : s.jobsClosed = true := by
      obtain ⟨w, hw⟩ := exists_mem_of_ne_nil _ hshutdown.some_worker
      have hwexited := all_eq_true.mp hexited w hw
      cases w with
      | exited => exact hshutdown.exited hw
      | _ => cases hwexited
    have htodo : s.todo = [] := by
      refine (hshutdown.jobs hjobs).resolve_right fun h => ?_
      rw [hcancelled] at h
      cases h
    rw [htodo, append_nil] at htxns
    exact ⟨htxns ▸ hhanded.symm, hresults.symm⟩
  · have hexited := hshutdown.results (hshutdown.returned hreturned)
    rw [flatMap_exited hexited rfl, append_nil] at hhanded hresults
    refine ⟨handed.length, ?_⟩
    have htake : txns.take handed.length = handed := by
      rw [htxns]
      exact take_left' rfl
    have hids := hresults.map Result.txnID
    rw [map_append, map_map, map_map] at hids
    have hhandedIds := hhanded.map Transaction.id
    rw [map_append, map_map] at hhandedIds
    rw [htake]
    exact hids.symm.trans hhandedIds.symm

theorem reconcile_returns_three :
    ∃ s : State String, run (step "canceled") (start String [⟨"t1", 1⟩, ⟨"t2", 2⟩, ⟨"t3", 3⟩] 2)
        [.hand 0, .hand 1, .check 1, .process 1 none, .check 0, .deliver 1, .hand 1, .feederDone,
          .check 1, .process 0 (some "mismatch"), .process 1 none, .deliver 1, .exit 1, .deliver 0,
          .exit 0, .closeResults, .collectorDone] = some s ∧
      s.out = [⟨"t2", none⟩, ⟨"t3", none⟩, ⟨"t1", some "mismatch"⟩] ∧
      (s.calls.map Prod.fst).Perm [⟨"t1", 1⟩, ⟨"t2", 2⟩, ⟨"t3", 3⟩] := by
  refine exists_some_imp (A := fun s => s.returned = true ∧ s.cancelled = false ∧
    s.out = [⟨"t2", none⟩, ⟨"t3", none⟩, ⟨"t1", some "mismatch"⟩])
    (by decide +kernel) fun s hrun ⟨hreturned, hcancelled, hout⟩ => ?_
  obtain ⟨-, -, hall, -⟩ := reconcile_returns "canceled" _ _ _ s hrun
  exact ⟨hout, (hall hreturned hcancelled).1⟩

end GoServices.Ledger.Reconciliation
