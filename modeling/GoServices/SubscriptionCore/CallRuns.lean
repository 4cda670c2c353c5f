/-
What the interleavings of `Calls` keep, and when.

The watermark: a call that has compared it holds the record it is about to write (`Pc.upsert`).
-/
import GoServices.SubscriptionCore.Calls

namespace GoServices.SubscriptionCore

open Table Store

variable {plans : Table String Plan}

/-! ## One operation -/

def Pc.writes : Pc → Bool
  | .upsert .. | .bust .. | .cacheSet .. => true
  | _ => false

def NotOlder (w : World) (sub : Subscription) : Prop :=
  ∀ t, w.store.byProv.get? sub.providerSubID = some t → t.providerUpdatedAt ≤ sub.providerUpdatedAt

inductive Operation (w : World) : Pc → World → Pc → Prop
  | quiet {pc pc' w' : _} (hpc : pc.writes = false) (hsame : SameSubs w w')
      (hcache : w'.cache = w.cache)
      (hwrite : ∀ sub answer, pc' = .upsert sub answer → NotOlder w sub) :
      Operation w pc w' pc'
  | upsert (sub answer : _) :
      Operation w (.upsert sub answer) { w with store := w.store.upsert sub }
        (.bust sub.customerID answer)
  | bust (customerID answer : _) :
      Operation w (.bust customerID answer) { w with cache := w.cache.erase customerID }
        (.done answer)
  | fill (subject e : _) :
      Operation w (.cacheSet subject e) { w with cache := w.cache.set subject e }
        (.done (.entitled e))

variable {w : World} {sub : Subscription} {answer : Answer} {call : Nat} {subject : String}

theorem notOlder_afterRead (hw : AllKeyed w) {evt : Event}
    (h : (afterRead evt (w.store.getByProviderID evt.subscription.providerSubID)).pc .handled =
      .upsert sub answer) : NotOlder w sub := by
  intro t ht
  unfold getByProviderID at h
  cases hget : w.store.byProv.get? evt.subscription.providerSubID with
  | none =>
    rw [hget] at h
    cases h
    rw [hget] at ht
    cases ht
  | some existing =>
    rw [hget] at h
    simp only [afterRead] at h
    split at h
    · cases h
    rename_i hstale
    unfold applyTransition at h
    split at h
    · cases h
    rename_i updated hupdated
    split at hupdated <;> cases hupdated
    cases h
    rw [hw _ existing hget, hget] at ht
    cases ht
    exact Int.not_lt.mp hstale

theorem notOlder_afterCompare {id : String} {snapshot : Snapshot id}
    (h : (afterCompare snapshot.truth (w.store.getByProviderID id)).pc .reconciled =
      .upsert sub answer) : NotOlder w sub := by
  intro t ht
  unfold getByProviderID at h
  cases hget : w.store.byProv.get? id with
  | none =>
    rw [hget] at h
    cases h
    rw [snapshot.sameID, hget] at ht
    cases ht
  | some held =>
    rw [hget] at h
    simp only [afterCompare] at h
    split at h
    · cases h
    rename_i hstale
    split at h <;> cases h
    rw [snapshot.sameID, hget] at ht
    cases ht
    exact Int.not_lt.mp hstale

variable {w' : World} {pc pc' : Pc}

theorem operation_of_next (hw : AllKeyed w) (h : next plans w pc = some (w', pc')) :
    Operation w pc w' pc' := by
  cases pc with
  | mark evt =>
    simp only [next, markProcessed] at h
    split at h <;> cases h
    all_goals exact .quiet rfl ⟨rfl, rfl⟩ rfl fun _ _ h => by cases h
  | read evt =>
    cases h
    exact .quiet rfl (.refl w) rfl fun _ _ h => notOlder_afterRead hw h
  | compare id snapshot =>
    cases h
    exact .quiet rfl (.refl w) rfl fun _ _ h => notOlder_afterCompare h
  | upsert sub answer =>
    cases h
    exact .upsert sub answer
  | bust customerID answer =>
    cases h
    exact .bust customerID answer
  | cacheGet subject | getBySubject subject | getPlan subject sub =>
    simp only [next] at h
    split at h <;> cases h <;> exact .quiet rfl (.refl w) rfl fun _ _ h => by cases h
  | cacheSet subject e =>
    cases h
    exact .fill subject e
  | done answer => cases h

/-! ## One step -/

def Pc.opens : Pc → Bool
  | .mark _ | .compare .. | .cacheGet _ => true
  | _ => false

inductive Move (s : Server) : Label → Server → Prop
  | start {a : Label} {pc : Pc} (hfree : s.calls.get? a.call = none) (hpc : pc.opens = true)
      (hlabel : ∀ call, a ≠ .next call) :
      Move s a { s with calls := s.calls.set a.call pc }
  | next {call : Nat} {pc pc' : Pc} {w' : World} (hpc : s.calls.get? call = some pc)
      (hop : Operation s.world pc w' pc') :
      Move s (.next call) { world := w', calls := s.calls.set call pc' }

variable {s s' : Server} {a : Label}

theorem move_of_step (hs : AllKeyed s.world) (h : step plans s a = some s') : Move s a s' := by
  have hstart {a : Label} {pc : Pc} (hpc : pc.opens = true) (hlabel : ∀ call, a ≠ .next call)
      (h : s.start a.call pc = some s') : Move s a s' := by
    unfold Server.start at h
    split at h <;> cases h
    rename_i hfree
    exact .start hfree hpc hlabel
  cases a with
  | handle call evt | reconcile call id snapshot | entitlement call subject =>
    exact hstart rfl nofun h
  | next call =>
    obtain ⟨pc, hpc, h⟩ := Option.bind_eq_some_iff.mp h
    obtain ⟨⟨w', pc'⟩, hnext, rfl⟩ := Option.map_eq_some_iff.mp h
    exact .next hpc (operation_of_next hs hnext)

theorem Operation.keyed (hw : AllKeyed w) (h : Operation w pc w' pc') : AllKeyed w' := by
  cases h with
  | quiet hpc hsame hcache hwrite =>
    intro k s hs
    rw [hsame.byProv] at hs
    exact hw k s hs
  | upsert sub answer => exact allKeyed_set hw rfl
  | bust customerID answer | fill subject e => exact hw

theorem Move.keyed (hs : AllKeyed s.world) (h : Move s a s') :
    AllKeyed s'.world := by
  cases h with
  | start hfree hpc hlabel => exact hs
  | next hpc hop => exact hop.keyed hs

/-! ## The watermark -/

/-- A call has compared the watermark and is about to write `sub`. -/
def Writing (s : Server) (call : Nat) (sub : Subscription) : Prop :=
  ∃ answer, s.calls.get? call = some (.upsert sub answer)

/-- Every record of `v` is there in `w` with a watermark that is not older. -/
def NotBack (v w : World) : Prop :=
  ∀ id s, v.store.byProv.get? id = some s → ∃ t, w.store.byProv.get? id = some t ∧
    s.providerUpdatedAt ≤ t.providerUpdatedAt

def KeepsWatermarks (plans : Table String Plan) (s : Server) (a : Label) : Prop :=
  ∀ s', step plans s a = some s' → NotBack s.world s'.world

def NewestLast (s : Server) : Label → Prop
  | .next call => ∀ sub, Writing s call sub → ∀ other sub', other ≠ call →
      Writing s other sub' → sub'.providerSubID = sub.providerSubID →
      sub.providerUpdatedAt ≤ sub'.providerUpdatedAt
  | _ => True

def AllNotOlder (s : Server) : Prop := ∀ call sub, Writing s call sub → NotOlder s.world sub

theorem notBack_of_same {v : World} (h : SameSubs v w) : NotBack v w := by
  intro id s hs
  rw [h.byProv]
  exact ⟨s, hs, le_rfl⟩

theorem notBack_upsert (h : NotOlder w sub) :
    NotBack w { w with store := w.store.upsert sub } := by
  intro id s hs
  simp only [upsert, get?_set]
  by_cases hid : id = sub.providerSubID
  · rw [if_pos hid]
    exact ⟨sub, rfl, h s (hid ▸ hs)⟩
  · rw [if_neg hid]
    exact ⟨s, hs, le_rfl⟩

theorem Operation.notBack (h : Operation w pc w' pc')
    (hwrite : ∀ sub answer, pc = .upsert sub answer → NotOlder w sub) : NotBack w w' := by
  cases h with
  | quiet hpc hsame hcache hwrite' => exact notBack_of_same hsame
  | upsert sub answer => exact notBack_upsert (hwrite sub answer rfl)
  | bust customerID answer | fill subject e => exact notBack_of_same ⟨rfl, rfl⟩

theorem Move.notBack (hs : AllNotOlder s) (h : Move s a s') :
    NotBack s.world s'.world := by
  cases h with
  | start hfree hpc hlabel => exact notBack_of_same (.refl _)
  | next hpc hop =>
    exact hop.notBack fun sub answer heq => hs _ sub ⟨answer, heq ▸ hpc⟩

theorem writing_set {other : Nat} :
    Writing { world := w, calls := s.calls.set call pc } other sub ↔
      if other = call then ∃ answer, pc = .upsert sub answer else Writing s other sub := by
  unfold Writing
  rw [get?_set]
  split
  · simp only [Option.some.injEq]
  · rfl

theorem Move.allNotOlder (hs : AllNotOlder s) (h : Move s a s') (hlast : NewestLast s a) :
    AllNotOlder s' := by
  cases h with
  | start hfree hpc hlabel =>
    intro other sub hwriting
    rw [writing_set] at hwriting
    split at hwriting
    · obtain ⟨answer, rfl⟩ := hwriting
      cases hpc
    · exact hs other sub hwriting
  | next hpc hop =>
    intro other sub hwriting
    rw [writing_set] at hwriting
    cases hop with
    | quiet hquiet hsame hcache hwrite =>
      have hnot : NotOlder s.world sub := by
        split at hwriting
        · obtain ⟨answer, heq⟩ := hwriting
          exact hwrite sub answer heq
        · exact hs other sub hwriting
      intro t ht
      rw [hsame.byProv] at ht
      exact hnot t ht
    | upsert written answer =>
      -- the written record is the newest that is outstanding
      split at hwriting
      · obtain ⟨answer', heq⟩ := hwriting
        cases heq
      rename_i hother
      intro t ht
      simp only [upsert, get?_set] at ht
      split at ht
      · rename_i hid
        cases ht
        exact hlast _ ⟨answer, hpc⟩ other sub hother hwriting hid
      · exact hs other sub hwriting t ht
    | bust customerID answer | fill subject e =>
      split at hwriting
      · obtain ⟨answer', heq⟩ := hwriting
        cases heq
      · exact hs other sub hwriting

def Outdated (s : Server) : Prop := ∃ call sub t, Writing s call sub ∧
  s.world.store.byProv.get? sub.providerSubID = some t ∧ sub.providerUpdatedAt < t.providerUpdatedAt

theorem Move.outdated (h : Move s a s') (hs : Outdated s) (hback : NotBack s.world s'.world) :
    Outdated s' := by
  obtain ⟨other, sub, t, hwriting, ht, hlt⟩ := hs
  obtain ⟨t', ht', hle⟩ := hback _ t ht
  refine ⟨other, sub, t', ?_, ht', hlt.trans_le hle⟩
  obtain ⟨answer, hget⟩ := hwriting
  cases h with
  | start hfree hpc hlabel =>
    refine writing_set.mpr ?_
    rw [if_neg]
    · exact ⟨answer, hget⟩
    rintro rfl
    rw [hfree] at hget
    cases hget
  | next hpc hop =>
    refine writing_set.mpr ?_
    rw [if_neg]
    · exact ⟨answer, hget⟩
    -- its own write would take the watermark back
    rintro rfl
    rw [hpc] at hget
    cases hget
    cases hop with
    | quiet hquiet hsame hcache hwrite => cases hquiet
    | upsert =>
      simp only [upsert, get?_set_self] at ht'
      cases ht'
      omega

theorem Move.outdated_of_not_newestLast (h : Move s a s') (hlast : ¬ NewestLast s a) :
    Outdated s' := by
  cases h with
  | start hfree hpc hlabel =>
    cases a with
    | next call => exact absurd rfl (hlabel call)
    | _ => exact absurd trivial hlast
  | next hpc hop =>
    simp only [NewestLast, not_forall, not_le] at hlast
    obtain ⟨sub, ⟨answer, hget⟩, other, sub', hother, hwriting, hid, hlt⟩ := hlast
    rw [hpc] at hget
    cases hget
    cases hop with
    | quiet hquiet hsame hcache hwrite => cases hquiet
    | upsert =>
      refine ⟨other, sub', sub, writing_set.mpr ?_, ?_, hlt⟩
      · rw [if_neg hother]
        exact hwriting
      · simp only [upsert, hid, get?_set_self]

variable {as : List Label}

theorem keepsWatermarks_of_newestLast (hkeyed : AllKeyed s.world) (hs : AllNotOlder s)
    (hlast : RunMeets (step plans) NewestLast s as) :
    RunMeets (step plans) (KeepsWatermarks plans) s as := by
  induction as generalizing s with
  | nil => trivial
  | cons a as ih =>
    refine ⟨fun s' h => (move_of_step hkeyed h).notBack hs, fun s' h => ?_⟩
    have hmove := move_of_step hkeyed h
    exact ih (hmove.keyed hkeyed) (hmove.allNotOlder hs hlast.1) (hlast.2 s' h)

theorem newestLast_of_keepsWatermarks (hkeyed : AllKeyed s.world)
    (hrun : run (step plans) s as = some s') (hend : ∀ call sub, ¬ Writing s' call sub)
    (hkeeps : RunMeets (step plans) (KeepsWatermarks plans) s as) :
    ¬ Outdated s ∧ RunMeets (step plans) NewestLast s as := by
  induction as generalizing s with
  | nil =>
    cases hrun
    refine ⟨?_, trivial⟩
    rintro ⟨call, sub, t, hwriting, -⟩
    exact hend call sub hwriting
  | cons a as ih =>
    obtain ⟨u, hstep, hrun⟩ := of_run_cons hrun
    have hmove := move_of_step hkeyed hstep
    obtain ⟨hnot, hlast⟩ := ih (hmove.keyed hkeyed) hrun (hkeeps.2 u hstep)
    refine ⟨fun h => hnot (hmove.outdated h (hkeeps.1 u hstep)), ?_, fun u' hstep' => ?_⟩
    · by_contra h
      exact hnot (hmove.outdated_of_not_newestLast h)
    rw [hstep] at hstep'
    cases hstep'
    exact hlast

/-- If no call writes a record while another one is about to write an older record of the
same subscription, then no step takes a stored `ProviderUpdatedAt` back; and for a run that
ends with no write outstanding this is the only way. -/
theorem watermarks_kept_iff (plans : Table String Plan) (as : List Label) :
    (RunMeets (step plans) NewestLast .initial as →
      RunMeets (step plans) (KeepsWatermarks plans) .initial as) ∧
    ∀ s, run (step plans) .initial as = some s → (∀ call sub, ¬ Writing s call sub) →
      (RunMeets (step plans) (KeepsWatermarks plans) .initial as ↔
        RunMeets (step plans) NewestLast .initial as) := by
  have hinitial : AllNotOlder .initial := by
    rintro call sub ⟨answer, h⟩
    cases h
  have hkeeps : RunMeets (step plans) NewestLast .initial as →
      RunMeets (step plans) (KeepsWatermarks plans) .initial as :=
    keepsWatermarks_of_newestLast allKeyed_new hinitial
  exact ⟨hkeeps, fun s hrun hend =>
    ⟨fun h => (newestLast_of_keepsWatermarks allKeyed_new hrun hend h).2, hkeeps⟩⟩

/-- `demoEvent` with another id and time. -/
def demoUpdate (eventID : String) (t : Int) : Event :=
  { demoEvent with
    providerEventID := eventID
    type := .updated
    subscription := { demoEvent.subscription with providerUpdatedAt := t } }

/-- A whole `Handle` call. -/
def wholeHandle (call : Nat) (evt : Event) : List Label :=
  [.handle call evt, .next call, .next call, .next call, .next call]

def newerFirst : List Label :=
  wholeHandle 1 demoEvent ++
    [.handle 2 (demoUpdate "evt_2" 3), .next 2, .next 2, .handle 3 (demoUpdate "evt_3" 5),
      .next 3, .next 3, .next 3]

/-- The write of the older one takes the watermark from 5 to 3. -/
theorem older_write_takes_watermark_back :
    ∃ s ∈ run (step .empty) .initial newerFirst, stored s.world "psub" = some (.active, 5) ∧
      ∃ s' ∈ step .empty s (.next 2), stored s'.world "psub" = some (.active, 3) := by
  decide +kernel

/-! ## The cache -/

def Pc.busts (subject : String) : Pc → Prop
  | .upsert sub _ => sub.customerID = subject
  | .bust customerID _ => customerID = subject
  | _ => False

def Pending (s : Server) (subject : String) : Prop :=
  ∃ call pc, s.calls.get? call = some pc ∧ pc.busts subject

def Coherent (plans : Table String Plan) (s : Server) : Prop :=
  ∀ subject e, s.world.cache.get? subject = some e →
    derive plans s.world.store subject = .ok e ∨ Pending s subject

def FillsCurrent (plans : Table String Plan) (s : Server) : Label → Prop
  | .next call => ∀ subject e, s.calls.get? call = some (.cacheSet subject e) →
      derive plans s.world.store subject = .ok e ∨ Pending s subject
  | _ => True

theorem derive_congr {store store' : Store}
    (h : store'.bySubj.get? subject = store.bySubj.get? subject) :
    derive plans store' subject = derive plans store subject := by
  unfold derive getBySubject
  rw [h]

theorem Pending.set (h : Pending s subject)
    (hcall : ∀ pc, s.calls.get? call = some pc → pc.busts subject → pc'.busts subject) :
    Pending { world := w, calls := s.calls.set call pc' } subject := by
  obtain ⟨other, pc, hpc, hbusts⟩ := h
  by_cases hother : other = call
  · subst hother
    exact ⟨other, pc', get?_set_self .., hcall pc hpc hbusts⟩
  refine ⟨other, pc, ?_, hbusts⟩
  rw [get?_set, if_neg hother]
  exact hpc

theorem not_busts_of_quiet (h : pc.writes = false) (subject : String) :
    ¬ pc.busts subject := by
  cases pc with
  | upsert | bust => cases h
  | _ => exact id

theorem Move.coherent (hs : Coherent plans s) (h : Move s a s') (hfills : FillsCurrent plans s a) :
    Coherent plans s' := by
  intro subject e hcached
  cases h with
  | start hfree hpc hlabel =>
    refine (hs subject e hcached).imp_right fun h => h.set fun pc hget => ?_
    rw [hfree] at hget
    cases hget
  | next hpc hop =>
    rename_i call pc pc' w'
    cases hop with
    | quiet hquiet hsame hcache hwrite =>
      have hcached : s.world.cache.get? subject = some e := hcache ▸ hcached
      rcases hs subject e hcached with hderive | hpending
      · exact .inl ((derive_congr (by rw [hsame.bySubj])).trans hderive)
      refine .inr (hpending.set fun pc₀ hget hbusts => ?_)
      rw [hpc] at hget
      cases hget
      exact absurd hbusts (not_busts_of_quiet hquiet subject)
    | upsert sub answer =>
      by_cases hsub : sub.customerID = subject
      · -- the write leaves its own bust outstanding
        exact .inr ⟨call, _, get?_set_self .., hsub⟩
      rcases hs subject e hcached with hderive | hpending
      · refine .inl ((derive_congr ?_).trans hderive)
        rw [upsert, get?_set, if_neg fun h => hsub h.symm]
      refine .inr (hpending.set fun pc₀ hget hbusts => ?_)
      rw [hpc] at hget
      cases hget
      exact hbusts
    | bust customerID answer =>
      simp only [get?_erase] at hcached
      split at hcached <;> try cases hcached
      rename_i hne
      refine (hs subject e hcached).imp_right fun h => h.set fun pc₀ hget hbusts => ?_
      rw [hpc] at hget
      cases hget
      exact absurd hbusts.symm hne
    | fill filled e' =>
      have hkeep : Pending s subject →
          Pending ⟨{ s.world with cache := s.world.cache.set filled e' },
            s.calls.set call (.done (.entitled e'))⟩ subject := fun h =>
        h.set fun pc₀ hget hbusts => by
          rw [hpc] at hget
          cases hget
          exact hbusts
      simp only [get?_set] at hcached
      split at hcached
      · rename_i hsubject
        cases hcached
        subst hsubject
        exact (hfills subject e hpc).imp_right hkeep
      · exact (hs subject e hcached).imp_right hkeep

def Pc.isDone : Pc → Bool
  | .done _ => true
  | _ => false

def AtRest (s : Server) : Prop := ∀ call pc, s.calls.get? call = some pc → pc.isDone = true

instance (s : Server) : Decidable (AtRest s) :=
  Table.decidableForall s.calls fun _ pc => pc.isDone = true

theorem AtRest.not_pending (h : AtRest s) (subject : String) :
    ¬ Pending s subject := by
  rintro ⟨call, pc, hpc, hbusts⟩
  have hdone := h call pc hpc
  cases pc with
  | done answer => exact hbusts
  | _ => cases hdone

theorem coherent_run (hfills : RunMeets (step plans) (FillsCurrent plans) .initial as)
    (hrun : run (step plans) .initial as = some s) : Coherent plans s := by
  have hinv : AllKeyed s.world ∧ Coherent plans s := by
    refine run_invariant_of_meets (I := fun s => AllKeyed s.world ∧ Coherent plans s)
      (fun s a s' hs hok hstep => ?_) ⟨allKeyed_new, fun subject e h => ?_⟩ hfills hrun
    · have hmove := move_of_step hs.1 hstep
      exact ⟨hmove.keyed hs.1, hmove.coherent hs.2 hok⟩
    · cases h
  exact hinv.2

/-- In every run in which each call fills the cache with what the store gives at that
moment, or while a call that is going to bust the subject is in progress: whenever no call
is in progress, a cached entitlement is the one derived from the store. -/
theorem cache_coherent_at_rest (plans : Table String Plan) {as : List Label} {s : Server}
    (hfills : RunMeets (step plans) (FillsCurrent plans) .initial as)
    (hrun : run (step plans) .initial as = some s) (hrest : AtRest s) (subject : String)
    {e : Entitlement} (hcached : s.world.cache.get? subject = some e) :
    derive plans s.world.store subject = .ok e :=
  (coherent_run hfills hrun subject e hcached).resolve_right (hrest.not_pending subject)

instance (subject : String) : DecidablePred (Pc.busts subject) := fun _ => by
  unfold Pc.busts
  split <;> infer_instance

instance (s : Server) (subject : String) : Decidable (Pending s subject) :=
  decidable_of_iff (∃ p ∈ s.calls.toList, p.2.busts subject)
    ⟨fun ⟨p, hp, h⟩ => ⟨p.1, p.2, Table.mem_toList.mp hp, h⟩,
      fun ⟨call, pc, hpc, h⟩ => ⟨(call, pc), Table.mem_toList.mpr hpc, h⟩⟩

def Pc.fill : Pc → Option (String × Entitlement)
  | .cacheSet subject e => some (subject, e)
  | _ => none

instance (s : Server) (a : Label) : Decidable (FillsCurrent plans s a) :=
  match a with
  | .handle .. | .reconcile .. | .entitlement .. => isTrue trivial
  | .next call =>
    decidable_of_iff (∀ pc ∈ s.calls.get? call, ∀ w ∈ pc.fill,
        derive plans s.world.store w.1 = .ok w.2 ∨ Pending s w.1)
      ⟨fun h subject e heq => h _ heq (subject, e) rfl, fun h pc hpc w hw => by
        cases pc <;> cases hw
        exact h _ _ hpc⟩

def demoPlans : Table String Plan :=
  Table.empty.set "pro" { id := "pro", tier := "pro", features := .empty, seatIncluded := 3 }

def cancelEvent : Event :=
  { demoUpdate "evt_4" 7 with type := .canceled }

def fillsAfterBusts : List Label :=
  wholeHandle 1 demoEvent ++ [.entitlement 2 "u1", .next 2, .next 2, .next 2, .next 2] ++
    wholeHandle 3 cancelEvent ++ [.entitlement 4 "u1", .next 4, .next 4, .next 4, .next 4]

theorem cache_coherent_at_rest_refilled :
    ∃ s ∈ run (step demoPlans) .initial fillsAfterBusts, ∃ e ∈ s.world.cache.get? "u1",
      e.active = false ∧ derive demoPlans s.world.store "u1" = .ok e := by
  have hfills : RunMeets (step demoPlans) (FillsCurrent demoPlans) .initial fillsAfterBusts := by
    decide +kernel
  refine exists_some_imp (A := fun s => AtRest s ∧ ∃ e ∈ s.world.cache.get? "u1", e.active = false)
    (by decide +kernel) fun s hrun ⟨hrest, e, he, hactive⟩ => ?_
  exact ⟨e, he, hactive, cache_coherent_at_rest demoPlans hfills hrun hrest "u1" he⟩

def fillsLate : List Label :=
  wholeHandle 1 demoEvent ++ [.entitlement 2 "u1", .next 2, .next 2, .next 2] ++
    wholeHandle 3 cancelEvent ++ [.next 2]

/-- No call is in progress, and the canceled subscription is cached as active. -/
theorem late_fill_caches_canceled :
    ∃ s ∈ run (step demoPlans) .initial fillsLate, AtRest s ∧
      (∃ e ∈ s.world.cache.get? "u1", e.active = true) ∧
      (derive demoPlans s.world.store "u1").toOption.map Entitlement.active = some false := by
  decide +kernel

end GoServices.SubscriptionCore
