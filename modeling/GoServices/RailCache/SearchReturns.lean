/-
Every search returns, and with an answer to its own query.

A request takes a bounded number of steps, and it is never stuck: it has a step, or it waits for
a flight whose leader has one.
-/
import GoServices.RailCache.SearchRuns

namespace GoServices.RailCache.Search

open Table Search.State

/-! ## A request returns -/

def Pc.work (p : Params) : Pc → Nat
  | .get => p.waitTries.toNat + 6
  | .acquire => p.waitTries.toNat + 5
  | .wait tries => tries + 4
  | .refreshAcquire => 5
  | .query .refresh => 4
  | .query _ | .store .refresh _ => 3
  | .store _ _ | .refreshRelease => 2
  | .land _ | .flying _ | .release _ | .fallback | .revalidate _ | .ungate => 1
  | .done _ | .refreshed => 0

def State.work (p : Params) (s : State) (n : Nat) : Nat :=
  match s.calls.get? n with
  | none => p.waitTries.toNat + 6
  | some c => c.pc.work p

section
variable {u : Runes} {classes : List String} {windowDays : Int} {p : Params} {s s' : State}
  {n : Nat} {c : Call} {a : Label} {pc : Pc}

theorem work_setPc (pc : Pc) : (s.setPc n c pc).work p n = pc.work p := by
  rw [work, setPc, get?_set_self]

theorem work_afterGet (now : Int) (reply : GetReply) :
    (s.afterGet n c now reply).work p n < Pc.work p .get := by
  cases reply with
  | value env =>
    rw [afterGet]
    split
    all_goals
      rw [work_setPc]
      simp [Pc.work]
  | _ =>
    rw [afterGet, work_setPc]
    simp [Pc.work]

theorem work_afterReread (tries : Nat) (reply : GetReply) :
    (s.afterReread n c tries reply).work p n < Pc.work p (.wait (tries + 1)) := by
  cases reply <;> rw [afterReread, work_setPc] <;> simp [Pc.work]

theorem work_afterAcquire (reply : LockReply) :
    (s.afterAcquire p n c reply).work p n < Pc.work p .acquire := by
  cases reply <;> rw [afterAcquire, work_setPc] <;> simp [Pc.work]

theorem work_afterRefreshAcquire (reply : LockReply) :
    (s.afterRefreshAcquire n c reply).work p n < Pc.work p .refreshAcquire := by
  cases reply <;> rw [afterRefreshAcquire, work_setPc] <;> simp [Pc.work]

theorem work_joinFlight (key : String) :
    (s.joinFlight key n c).work p n < Pc.work p (.wait 0) := by
  unfold joinFlight
  split <;> rw [work_setPc] <;> simp [Pc.work]

theorem work_afterQuery (key : String) (role : Role) (took now : Int)
    (reply : Except String SearchResult) :
    (s.afterQuery key n c role took now reply).work p n < Pc.work p (.query role) := by
  cases reply with
  | ok result =>
    rw [afterQuery, work_setPc]
    cases role <;> simp [Pc.work]
  | error cause => cases role <;> simp [afterQuery, work_setPc, Pc.work]

theorem work_afterFallback (took now : Int) (reply : Except String SearchResult) :
    (s.afterFallback n c took now reply).work p n < Pc.work p .fallback := by
  cases reply <;> rw [afterFallback, work_setPc] <;> simp [Pc.work]

theorem work_afterStore (out : FillOutput) (role : Role) :
    (s.afterStore n c out role).work p n < Pc.work p (.store role out) := by
  cases role <;> rw [afterStore, work_setPc] <;> simp [Pc.work]

theorem work_afterFlight (key : String) (coalesced : Bool) (fill : Except String FillOutput) :
    (s.afterFlight key n c coalesced fill).work p n = 0 := by
  cases fill with
  | error => rw [afterFlight, work_setPc, Pc.work]
  | ok out =>
    rw [afterFlight]
    split <;> rw [work_setPc, Pc.work]

theorem work_afterStale {key : String} {worker : Nat} {env : Envelope}
    (hstale : s.afterStale key n worker c env = some s') : s'.work p n = 0 := by
  rw [afterStale] at hstale
  split at hstale
  · cases hstale
    rw [work_setPc, Pc.work]
  split at hstale <;> cases hstale
  rw [work_setPc, Pc.work]

theorem next_work (hnext : s.next u p n c a = some s') : s'.work p n < c.pc.work p := by
  revert hnext
  fun_cases next u p s n c a <;> intro hnext <;> try cases hnext
  all_goals rw [‹c.pc = _›]
  · exact work_afterGet _ _
  · exact work_afterAcquire _
  · exact work_afterReread _ _
  · rw [work_setPc]
    simp [Pc.work]
  · exact work_joinFlight _
  · exact work_afterQuery _ _ _ _ _
  · exact work_afterFallback _ _ _
  · exact work_afterStore _ _
  · rw [landFlight, work_afterFlight]
    simp [Pc.work]
  · obtain ⟨fill, -, rfl⟩ := Option.map_eq_some_iff.mp hnext
    rw [work_afterFlight]
    simp [Pc.work]
  · rw [work_setPc]
    simp [Pc.work]
  · rw [work_afterStale hnext]
    simp [Pc.work]
  · exact work_afterRefreshAcquire _
  all_goals
    rw [work_setPc]
    simp [Pc.work]

theorem work_congr (h : s'.calls.get? n = s.calls.get? n) : s'.work p n = s.work p n := by
  rw [work, work, h]

theorem work_of_some (hc : s.calls.get? n = some c) : s.work p n = c.pc.work p := by
  rw [work, hc]

theorem work_of_none (hc : s.calls.get? n = none) : s.work p n = p.waitTries.toNat + 6 := by
  rw [work, hc]

theorem Steps.work_le {m : Nat} {d : Call} (hsteps : Steps u s m d a s') (hne : n ≠ m) :
    s'.work p n ≤ s.work p n := by
  obtain ⟨t, pc, ⟨-, hspawned⟩, -, hcalls⟩ := hsteps
  have hother : s'.work p n = t.work p n := by
    refine work_congr ?_
    rw [hcalls, get?_set, if_neg hne]
  rw [hother]
  rcases hspawned with hsame | ⟨worker, hfree, hworker⟩
  · exact Nat.le_of_eq (work_congr (by rw [hsame]))
  by_cases hn : n = worker
  · subst hn
    have hstarted : t.calls.get? n = some ⟨d.query, false, .refreshAcquire⟩ := by
      rw [hworker, get?_set_self]
    rw [work_of_some hstarted, work_of_none hfree]
    simp [Pc.work]
  · refine Nat.le_of_eq (work_congr ?_)
    rw [hworker, get?_set, if_neg hn]

theorem step_work (hstep : step u classes windowDays p s a = some s') :
    (if decide (a.call? = some n) then 1 else 0) + s'.work p n ≤ s.work p n := by
  cases step_trans hstep with
  | @moves m d _ _ hcall hd hnext =>
    by_cases hn : n = m
    · subst hn
      have hlower := next_work hnext
      rw [hcall, work_of_some hd]
      simp only [decide_true, if_true]
      omega
    · have hle := (next_steps hnext).work_le (p := p) hn
      rw [hcall]
      simp only [Option.some.injEq, Ne.symm hn, decide_false, Bool.false_eq_true, if_false]
      omega
  | stations | rejected => exact Nat.le_of_eq (Nat.zero_add _)
  | @starts m raw _ hfree _ =>
    rw [show Label.call? (.request m raw _) = none from rfl]
    by_cases hn : n = m
    · subst hn
      rw [work_of_none hfree, work_of_some (get?_set_self _ _ _)]
      simp [Pc.work]
    · refine Nat.le_of_eq ((Nat.zero_add _).trans (work_congr ?_))
      rw [get?_set, if_neg hn]
  | @cancels m d hd _ =>
    refine Nat.le_of_eq ((Nat.zero_add _).trans ?_)
    by_cases hn : n = m
    · subst hn
      rw [work_of_some hd, work_of_some (get?_set_self _ _ _)]
    · refine work_congr ?_
      rw [get?_set, if_neg hn]
  | invalidates raw reply =>
    refine Nat.le_of_eq ((Nat.zero_add _).trans (work_congr ?_))
    rw [invalidate]
    split <;> rfl
  | expires => exact Nat.le_of_eq (Nat.zero_add _)

/-! ## No request is stuck -/

theorem step_of_call (hcall : a.call? = some n) (hc : s.calls.get? n = some c) :
    step u classes windowDays p s a = s.next u p n c a := by
  cases a with
  | refreshStations | request | cancel | invalidate | expire => cases hcall
  | _ =>
    obtain rfl := Option.some.inj hcall
    simp only [step, hc, Option.bind_some]

theorem next_enabled (hover : ¬ c.pc.Over) (hflying : ∀ leader, c.pc ≠ .flying leader) :
    ∃ a, a.call? = some n ∧ SourceAnswers s a ∧ (s.next u p n c a).isSome := by
  cases hpc : c.pc with
  | get => exact ⟨.get n .miss 0, rfl, trivial, by simp [next, hpc, State.Returns]⟩
  | acquire => exact ⟨.acquire n .refused, rfl, trivial, by simp [next, hpc]⟩
  | wait tries =>
    cases tries with
    | zero => exact ⟨.join n, rfl, trivial, by simp [next, hpc]⟩
    | succ tries => exact ⟨.reread n .miss, rfl, trivial, by simp [next, hpc, State.Returns]⟩
  | query role => exact ⟨.answer n (.ok ⟨c.query, []⟩) 0 0, rfl, trivial, by simp [next, hpc]⟩
  | store => exact ⟨.store n .ok 0 0 0, rfl, trivial, by simp [next, hpc]⟩
  | land => exact ⟨.land n, rfl, trivial, by simp [next, hpc]⟩
  | flying leader => exact absurd hpc (hflying leader)
  | release => exact ⟨.release n .ok, rfl, trivial, by simp [next, hpc]⟩
  | fallback => exact ⟨.answer n (.ok ⟨c.query, []⟩) 0 0, rfl, trivial, by simp [next, hpc]⟩
  | revalidate env =>
    obtain ⟨worker, hfree⟩ := s.calls.exists_get?_eq_none
    refine ⟨.revalidate n worker, rfl, trivial, ?_⟩
    simp only [next, hpc, afterStale, hfree]
    split <;> rfl
  | refreshAcquire => exact ⟨.acquire n .refused, rfl, trivial, by simp [next, hpc]⟩
  | refreshRelease => exact ⟨.release n .ok, rfl, trivial, by simp [next, hpc]⟩
  | ungate => exact ⟨.ungate n, rfl, trivial, by simp [next, hpc]⟩
  | done | refreshed =>
    rw [hpc] at hover
    exact absurd trivial hover

theorem step_enabled (h : Inv u s) (hc : s.calls.get? n = some c) (hover : ¬ c.pc.Over) :
    ∃ m a, (m = n ∨ c.pc = .flying m) ∧ a.call? = some m ∧ SourceAnswers s a ∧
      (step u classes windowDays p s a).isSome := by
  have hown {m : Nat} {d : Call} (hd : s.calls.get? m = some d) (hdover : ¬ d.pc.Over)
      (hdflying : ∀ leader, d.pc ≠ .flying leader) :
      ∃ a, a.call? = some m ∧ SourceAnswers s a ∧ (step u classes windowDays p s a).isSome := by
    obtain ⟨a, hcall, hsource, hnext⟩ := next_enabled (u := u) (p := p) hdover hdflying
    exact ⟨a, hcall, hsource, by rwa [step_of_call hcall hd]⟩
  by_cases hflying : ∃ leader, c.pc = .flying leader
  · obtain ⟨leader, hpc⟩ := hflying
    have hled := h.calls n c hc
    rw [hpc] at hled
    obtain ⟨d, hd, -, hleads | hlanded⟩ := hled
    · obtain ⟨hdover, hdflying⟩ := leads_not_over hleads
      obtain ⟨a, ha⟩ := hown hd hdover hdflying
      exact ⟨leader, a, .inr hpc, ha⟩
    refine ⟨n, .wake n, .inl rfl, rfl, trivial, ?_⟩
    rw [step_of_call rfl hc]
    simp [next, hpc, hlanded]
  · obtain ⟨a, ha⟩ := hown hc hover fun leader hpc => hflying ⟨leader, hpc⟩
    exact ⟨n, a, .inl rfl, ha⟩

end

/-! ## Every run -/

/-- In every run in which the station codes have no colon and the source answers, whatever
the store returns: a request that is not over is not stuck, no request takes more than its
bounded number of steps, and a request whose context was alive when it returned has
returned an answer that the source gave for its own query. -/
theorem search_returns_own_answer {u : Runes} {classes : List String} {windowDays : Int}
    {p : Params} {as : List Label} {s : State}
    (hrun : run (step u classes windowDays p) initial as = some s)
    (hok : RunMeets (step u classes windowDays p) (fun s a => PlainCodes a ∧ SourceAnswers s a)
      initial as) :
    (∀ n c, s.calls.get? n = some c → ¬ c.pc.Over →
      ∃ m a, (m = n ∨ c.pc = .flying m) ∧ a.call? = some m ∧ SourceAnswers s a ∧
        (step u classes windowDays p s a).isSome) ∧
    (∀ n, as.countP (fun a => a.call? = some n) ≤ p.waitTries.toNat + 6) ∧
    (∀ n c result, s.calls.get? n = some c → c.pc = .done result → c.ctxDone = false →
      ∃ out, result = .ok out ∧ out.answer ∈ s.answers ∧ out.answer.asked = c.query) := by
  have h : Inv u s := run_invariant_of_meets
    (fun _ _ _ h hok hstep => step_inv h hok.1 hok.2 hstep) inv_initial hok hrun
  refine ⟨fun n c hc hover => step_enabled h hc hover, fun n => ?_,
    fun n c result hc hpc hctx => ?_⟩
  · have hstart : initial.work p n = p.waitTries.toNat + 6 := work_of_none rfl
    have hcount := run_countP_le (m := fun s => s.work p n) (fun _ _ _ hstep => step_work hstep)
      hrun
    omega
  have hsound := h.calls n c hc
  rw [hpc, hctx] at hsound
  cases result with
  | ok out => exact ⟨out, rfl, hsound⟩
  | error => cases hsound

def coachClasses : List String := ["SL", "3A", "2A"]

namespace Sample

def params : Params :=
  { ttl := 120, tatkalTTL := 15, jitter := 0, negativeTTL := 5, waitTries := 1 }

def result (q : Query) : SearchResult := ⟨q, [⟨"12951", 4⟩]⟩

def delhi : Query := ⟨"NDLS", "BCT", "1970-01-02", "3A"⟩

def coalesced : List Label :=
  [.refreshStations ["NDLS", "BCT"],
   .request 2 ⟨"ndls ", "bct", "1970-01-02", "3a"⟩ 0, .request 3 delhi 0,
   .get 2 .miss 1, .get 3 .corrupt 1, .acquire 2 .refused, .acquire 3 .refused,
   .reread 2 .corrupt, .reread 3 .miss, .join 2, .answer 2 (.ok (result delhi)) 7 20, .join 3,
   .store 2 (.failed false) 21 21 0, .land 2, .wake 3]

def codes : List String := ["A", "A:B", "B:C", "C"]

def first : Query := ⟨"A", "B:C", "1970-01-02", "3A"⟩

def second : Query := ⟨"A:B", "C", "1970-01-02", "3A"⟩

def collided : List Label :=
  [.refreshStations codes,
   .request 1 first 0, .get 1 .miss 1, .acquire 1 .won, .answer 1 (.ok (result first)) 7 20,
   .store 1 .ok 21 21 0, .release 1 .ok,
   .request 2 second 22, .get 2 (.value (newEnvelope params 21 21 0 ⟨first, 0, result first⟩)) 23]

end Sample

theorem search_returns_own_answer_coalesced :
    ∃ s c out, run (step .ascii coachClasses 120 Sample.params) initial Sample.coalesced = some s ∧
      s.calls.get? 3 = some c ∧ c.pc = .done (.ok out) ∧ out.answer.asked = Sample.delhi := by
  obtain ⟨s, hrun, c, hc, hquery, hctx, hpc⟩ :
      ∃ s ∈ run (step .ascii coachClasses 120 Sample.params) initial Sample.coalesced,
        ∃ c ∈ s.calls.get? 3, c.query = Sample.delhi ∧ c.ctxDone = false ∧
          c.pc = .done (.ok (FillOutput.coalesced
            ⟨⟨Sample.delhi, 0, Sample.result Sample.delhi⟩, 7, 20⟩)) := by
    decide +kernel
  obtain ⟨-, -, hreturns⟩ := search_returns_own_answer hrun (by decide +kernel)
  obtain ⟨out, hout, -, hasked⟩ := hreturns 3 c _ hc hpc hctx
  exact ⟨s, c, out, hrun, hc, hpc.trans (congrArg Pc.done hout), hasked.trans hquery⟩

/-- The source has never been asked for the second query, which was validated and is
served a value of the first. -/
theorem colliding_key_serves_other_query :
    ∃ s ∈ run (step .ascii coachClasses 120 Sample.params) initial Sample.collided,
      RunMeets (step .ascii coachClasses 120 Sample.params) SourceAnswers initial
        Sample.collided ∧
      (∀ x ∈ s.answers, x.asked ≠ Sample.second) ∧
      ∃ c ∈ s.calls.get? 2, c.query = Sample.second ∧ c.ctxDone = false ∧
        c.pc = .done (.ok ((newEnvelope Sample.params 21 21 0
          ⟨Sample.first, 0, Sample.result Sample.first⟩).outcome .hit false)) := by
  decide +kernel

end GoServices.RailCache.Search
