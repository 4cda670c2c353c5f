/-
What one step of the read path can do.

`Moved` says for each step of a request or a refresh what it read, where it goes next and what it
wrote, leaving out the locks, the refresh gate and the metrics.
-/
import GoServices.RailCache.Search

namespace GoServices.RailCache.Search

open Option Search.State

structure Same (s s' : State) : Prop where
  stations : s'.stations = s.stations
  cache : s'.cache = s.cache
  stored : s'.stored = s.stored
  answers : s'.answers = s.answers
  flights : s'.flights = s.flights
  landed : s'.landed = s.landed

theorem Same.refl (s : State) : Same s s := ⟨rfl, rfl, rfl, rfl, rfl, rfl⟩

def Pc.Bare : Pc → Prop
  | .acquire | .wait _ | .query .winner | .query .refresh | .fallback | .refreshRelease | .ungate
  | .refreshed => True
  | _ => False

/-- The request runs the function of `fillSF.Do`. -/
def Pc.Leads : Pc → Prop
  | .query .leader | .store .leader _ | .land _ => True
  | _ => False

def Pc.Over : Pc → Prop
  | .done _ | .refreshed => True
  | _ => False

theorem leads_not_over {pc : Pc} (hleads : pc.Leads) :
    ¬ pc.Over ∧ ∀ leader, pc ≠ .flying leader := by
  cases pc with
  | query | store | land => exact ⟨id, nofun⟩
  | _ => cases hleads

def failedPc (key cause : String) : Role → Pc
  | .winner => .release (.error (.fill key cause))
  | .leader => .land (.error cause)
  | .refresh => .refreshRelease

def storedPc (out : FillOutput) : Role → Pc
  | .winner => .release (.ok out.own)
  | .leader => .land (.ok out)
  | .refresh => .refreshRelease

def Lands (key : String) (fill : Except String FillOutput) (pc : Pc) : Prop :=
  match fill with
  | .error cause => pc = .done (.error (.budgetExhausted key cause))
  | .ok out => ∃ o : Outcome, pc = .done (.ok o) ∧ o.answer = out.answer

theorem lands_over {key : String} {fill : Except String FillOutput} {pc : Pc}
    (hlands : Lands key fill pc) : pc.Over := by
  cases fill with
  | error =>
    rw [hlands]
    trivial
  | ok =>
    obtain ⟨o, rfl, -⟩ := hlands
    trivial

def Label.value? : Label → Option Envelope
  | .get _ (.value env) _ | .reread _ (.value env) => some env
  | _ => none

def Label.cause? : Label → Option String
  | .answer _ (.error cause) _ _ => some cause
  | _ => none

/-- The step of a call that was at `c`: the state after it and its next program counter. -/
inductive Moved (u : Runes) (s : State) (n : Nat) (c : Call) (a : Label) (s' : State) :
    Pc → Prop
  | served {env out : _} (hpc : ¬ c.pc.Leads)
      (hvalue : a.value? = some env) (hstored : (cacheKey u c.query, env) ∈ s.stored)
      (hout : out.answer = env.answer) (hsame : Same s s') : Moved u s n c a s' (.done (.ok out))
  | stale {env : _} (hpc : ¬ c.pc.Leads) (hvalue : a.value? = some env)
      (hstored : (cacheKey u c.query, env) ∈ s.stored) (hsame : Same s s') :
      Moved u s n c a s' (.revalidate env)
  | bare {pc : _} (hpc : ¬ c.pc.Leads) (hbare : pc.Bare) (hsame : Same s s') :
      Moved u s n c a s' pc
  | gaveUp {e : _} (hpc : ¬ c.pc.Leads) (hctx : c.ctxDone = true) (hsame : Same s s') :
      Moved u s n c a s' (.done (.error e))
  | leads (hfree : s.flights.get? (cacheKey u c.query) = none)
      (hflights : s'.flights = s.flights.set (cacheKey u c.query) ⟨n, 0⟩)
      (hsame : Same { s with flights := s'.flights } s') : Moved u s n c a s' (.query .leader)
  | joins {f : _} (hpc : ¬ c.pc.Leads) (hflight : s.flights.get? (cacheKey u c.query) = some f)
      (hflights : s'.flights = s.flights.set (cacheKey u c.query) { f with dups := f.dups + 1 })
      (hsame : Same { s with flights := s'.flights } s') : Moved u s n c a s' (.flying f.leader)
  | answered {role out : _} (hpc : c.pc = .query role)
      (hasked : out.answer.asked = c.query) (hnumber : out.answer.number = s.answers.length)
      (hanswers : s'.answers = s.answers ++ [out.answer])
      (hsame : Same { s with answers := s'.answers } s') : Moved u s n c a s' (.store role out)
  | failed {role cause : _} (hpc : c.pc = .query role)
      (hcause : a.cause? = some cause) (hsame : Same s s') :
      Moved u s n c a s' (failedPc (cacheKey u c.query) cause role)
  | fellBack {out : _} (hpc : c.pc = .fallback)
      (hasked : out.answer.asked = c.query) (hnumber : out.answer.number = s.answers.length)
      (hanswers : s'.answers = s.answers ++ [out.answer])
      (hsame : Same { s with answers := s'.answers } s') : Moved u s n c a s' (.done (.ok out))
  | fallbackFailed {e cause : _} (hpc : c.pc = .fallback)
      (hcause : a.cause? = some cause) (hsame : Same s s') :
      Moved u s n c a s' (.done (.error e))
  | stored {role out env : _} (hpc : c.pc = .store role out) (henv : env.answer = out.answer)
      (hcache : s'.cache = s.cache ∧ s'.stored = s.stored ∨
        s'.cache = s.cache.set (cacheKey u c.query) env ∧
          s'.stored = (cacheKey u c.query, env) :: s.stored)
      (hsame : Same { s with cache := s'.cache, stored := s'.stored } s') :
      Moved u s n c a s' (storedPc out role)
  | landed {fill pc : _} (hpc : c.pc = .land fill)
      (hflights : s'.flights = s.removeFlight (cacheKey u c.query) n)
      (hlanded : s'.landed = s.landed.set n fill) (hlands : Lands (cacheKey u c.query) fill pc)
      (hsame : Same { s with flights := s'.flights, landed := s'.landed } s') :
      Moved u s n c a s' pc
  | woke {leader fill pc : _} (hpc : c.pc = .flying leader)
      (hlanded : s.landed.get? leader = some fill) (hlands : Lands (cacheKey u c.query) fill pc)
      (hsame : Same s s') : Moved u s n c a s' pc
  | released {result : _} (hpc : c.pc = .release result)
      (hsame : Same s s') : Moved u s n c a s' (.done result)
  | revalidated {env out : _} (hpc : c.pc = .revalidate env)
      (hout : out.answer = env.answer) (hsame : Same s s') : Moved u s n c a s' (.done (.ok out))

inductive Wrote (u : Runes) (s : State) (n : Nat) (c : Call) (s' : State) (pc : Pc) : Prop
  | nothing (hsame : Same s s')
  | opens (hleads : pc.Leads)
      (hflights : s'.flights = s.flights.set (cacheKey u c.query) ⟨n, 0⟩)
      (hsame : Same { s with flights := s'.flights } s')
  | joins {f : _} (hflight : s.flights.get? (cacheKey u c.query) = some f)
      (hflights : s'.flights = s.flights.set (cacheKey u c.query) { f with dups := f.dups + 1 })
      (hsame : Same { s with flights := s'.flights } s')
  | answer {x : _} (hanswers : s'.answers = s.answers ++ [x])
      (hsame : Same { s with answers := s'.answers } s')
  | cache {role out env : _} (hpc : c.pc = .store role out) (henv : env.answer = out.answer)
      (hcache : s'.cache = s.cache ∧ s'.stored = s.stored ∨
        s'.cache = s.cache.set (cacheKey u c.query) env ∧
          s'.stored = (cacheKey u c.query, env) :: s.stored)
      (hsame : Same { s with cache := s'.cache, stored := s'.stored } s')
  | landing {fill : _} (hpc : c.pc = .land fill) (hover : pc.Over)
      (hflights : s'.flights = s.removeFlight (cacheKey u c.query) n)
      (hlanded : s'.landed = s.landed.set n fill)
      (hsame : Same { s with flights := s'.flights, landed := s'.landed } s')

theorem Moved.wrote {u : Runes} {s s' : State} {n : Nat} {c : Call} {a : Label} {pc : Pc}
    (hmoved : Moved u s n c a s' pc) : Wrote u s n c s' pc := by
  cases hmoved with
  | leads _ hflights hsame => exact .opens trivial hflights hsame
  | joins _ hflight hflights hsame => exact .joins hflight hflights hsame
  | answered _ _ _ hanswers hsame | fellBack _ _ _ hanswers hsame => exact .answer hanswers hsame
  | stored hpc henv hcache hsame => exact .cache hpc henv hcache hsame
  | landed hpc hflights hlanded hlands hsame =>
    exact .landing hpc (lands_over hlands) hflights hlanded hsame
  | bare _ _ hsame | woke _ _ _ hsame => exact .nothing hsame
  | _ =>
    rename_i hsame
    exact .nothing hsame

def Spawned (s s' : State) (q : Query) : Prop :=
  Same s s' ∧ (s'.calls = s.calls ∨ ∃ worker, s.calls.get? worker = none ∧
    s'.calls = s.calls.set worker ⟨q, false, .refreshAcquire⟩)

theorem Spawned.refl (s : State) (q : Query) : Spawned s s q := ⟨.refl s, .inl rfl⟩

section
variable {u : Runes} {s s' : State} {n : Nat} {c : Call} {a : Label}

def Steps (u : Runes) (s : State) (n : Nat) (c : Call) (a : Label) (s' : State) : Prop :=
  ∃ t pc, Spawned s t c.query ∧ Moved u t n c a s' pc ∧ s'.calls = t.calls.set n { c with pc := pc }

variable {pc : Pc} {m : Nat} {reply : GetReply} {t : State} {role : Role} {env : Envelope}

theorem Steps.of_moved (hmoved : Moved u s n c a s' pc)
    (hcalls : s'.calls = s.calls.set n { c with pc := pc }) : Steps u s n c a s' :=
  ⟨s, pc, .refl s c.query, hmoved, hcalls⟩

theorem Steps.to_bare (pc : Pc) (hleads : ¬ c.pc.Leads) (hbare : pc.Bare) (hsame : Same s s')
    (hcalls : s'.calls = s.calls.set n { c with pc := pc }) : Steps u s n c a s' :=
  .of_moved (.bare hleads hbare hsame) hcalls

theorem not_leads (hpc : c.pc = pc) (hleads : ¬ pc.Leads) : ¬ c.pc.Leads := by
  rwa [hpc]

theorem same_count (f : Metrics → Metrics) (pc : Pc) : Same s ((s.count f).setPc n c pc) :=
  ⟨rfl, rfl, rfl, rfl, rfl, rfl⟩

theorem same_setPc (pc : Pc) : Same s (s.setPc n c pc) := ⟨rfl, rfl, rfl, rfl, rfl, rfl⟩

theorem afterGet_steps (hpc : c.pc = .get) {now : Int}
    (hreply : s.Returns (cacheKey u c.query) reply) :
    Steps u s n c (.get m reply now) (s.afterGet n c now reply) := by
  have hleads : ¬ c.pc.Leads := not_leads hpc id
  cases reply with
  | value env =>
    rw [afterGet]
    split
    · exact .of_moved (.stale hleads rfl hreply (same_setPc _)) rfl
    · exact .of_moved (.served hleads rfl hreply rfl (same_count _ _)) rfl
  | corrupt => exact .to_bare .acquire hleads trivial (same_count _ _) rfl
  | miss => exact .to_bare .acquire hleads trivial (same_setPc _) rfl
  | failed => exact .to_bare .fallback hleads trivial (same_setPc _) rfl

theorem afterReread_steps {tries : Nat} (hpc : c.pc = .wait (tries + 1))
    (hreply : s.Returns (cacheKey u c.query) reply) :
    Steps u s n c (.reread m reply) (s.afterReread n c tries reply) := by
  have hleads : ¬ c.pc.Leads := not_leads hpc id
  cases reply with
  | value env => exact .of_moved (.served hleads rfl hreply rfl (same_count _ _)) rfl
  | corrupt | miss => exact .to_bare (.wait tries) hleads trivial (same_setPc _) rfl
  | failed => exact .to_bare .fallback hleads trivial (same_setPc _) rfl

variable (key : String)

theorem lock_same (reply : LockReply) :
    Same s (s.lock key n reply) ∧ (s.lock key n reply).calls = s.calls := by
  rcases reply with _ | _ | _ | _ <;> exact ⟨⟨rfl, rfl, rfl, rfl, rfl, rfl⟩, rfl⟩

theorem unlock_same (reply : Reply) :
    Same s (s.unlock key n reply) ∧ (s.unlock key n reply).calls = s.calls := by
  rw [unlock]
  split <;> exact ⟨⟨rfl, rfl, rfl, rfl, rfl, rfl⟩, rfl⟩

theorem Same.trans (h : Same s t) (h' : Same t s') : Same s s' :=
  ⟨h'.stations.trans h.stations, h'.cache.trans h.cache, h'.stored.trans h.stored,
    h'.answers.trans h.answers, h'.flights.trans h.flights, h'.landed.trans h.landed⟩

theorem setPc_calls (hcalls : t.calls = s.calls) (pc : Pc) :
    (t.setPc n c pc).calls = s.calls.set n { c with pc := pc } := by
  rw [setPc, hcalls]

theorem Steps.lock_bare (hleads : ¬ c.pc.Leads) (key : String) (reply : LockReply) (pc : Pc)
    (hbare : pc.Bare) : Steps u s n c a ((s.lock key n reply).setPc n c pc) := by
  obtain ⟨hsame, hcalls⟩ := lock_same (s := s) (n := n) key reply
  exact .to_bare pc hleads hbare (hsame.trans (same_setPc pc)) (setPc_calls hcalls pc)

theorem afterAcquire_steps (p : Params) (hpc : c.pc = .acquire) (key : String)
    (reply : LockReply) : Steps u s n c a ((s.lock key n reply).afterAcquire p n c reply) := by
  have hleads : ¬ c.pc.Leads := not_leads hpc id
  cases reply with
  | won => exact .lock_bare hleads key .won (.query .winner) trivial
  | refused => exact .lock_bare hleads key .refused (.wait p.waitTries.toNat) trivial
  | failed e => exact .lock_bare hleads key (.failed e) .fallback trivial

theorem afterRefreshAcquire_steps (hpc : c.pc = .refreshAcquire) (key : String)
    (reply : LockReply) : Steps u s n c a ((s.lock key n reply).afterRefreshAcquire n c reply) := by
  have hleads : ¬ c.pc.Leads := not_leads hpc id
  cases reply with
  | won => exact .lock_bare hleads key .won (.query .refresh) trivial
  | refused => exact .lock_bare hleads key .refused .ungate trivial
  | failed e => exact .lock_bare hleads key (.failed e) .ungate trivial

theorem joinFlight_steps (hpc : c.pc = .wait 0) :
    Steps u s n c a (s.joinFlight (cacheKey u c.query) n c) := by
  unfold joinFlight
  split
  · rename_i hfree
    exact .of_moved (.leads hfree rfl ⟨rfl, rfl, rfl, rfl, rfl, rfl⟩) rfl
  · rename_i f hflight
    exact .of_moved (.joins (not_leads hpc id) hflight rfl ⟨rfl, rfl, rfl, rfl, rfl, rfl⟩) rfl

theorem afterQuery_steps (hpc : c.pc = .query role) (m : Nat) (took now : Int)
    (reply : Except String SearchResult) :
    Steps u s n c (.answer m reply took now)
      (s.afterQuery (cacheKey u c.query) n c role took now reply) := by
  cases reply with
  | ok result =>
    exact .of_moved (.answered hpc rfl rfl rfl
      ⟨rfl, rfl, rfl, rfl, rfl, rfl⟩) rfl
  | error cause =>
    have hfailed {t : State} (hsame : Same s t)
        (hcalls : t.calls =
          s.calls.set n { c with pc := failedPc (cacheKey u c.query) cause role }) :
        Steps u s n c (.answer m (.error cause) took now) t :=
      .of_moved (.failed hpc rfl hsame) hcalls
    cases role with
    | winner => exact hfailed (same_count _ _) rfl
    | leader => exact hfailed (same_setPc _) rfl
    | refresh => exact hfailed (same_count _ _) rfl

theorem afterFallback_steps (hpc : c.pc = .fallback) (m : Nat) (took now : Int)
    (reply : Except String SearchResult) :
    Steps u s n c (.answer m reply took now) (s.afterFallback n c took now reply) := by
  cases reply with
  | ok result => exact .of_moved (.fellBack hpc rfl rfl rfl ⟨rfl, rfl, rfl, rfl, rfl, rfl⟩) rfl
  | error cause => exact .of_moved (.fallbackFailed hpc rfl (same_count _ _)) rfl

variable {p : Params}

theorem write_cases (env : Envelope) (reply : Reply) :
    ((s.write key env reply).cache = s.cache ∧ (s.write key env reply).stored = s.stored ∨
      (s.write key env reply).cache = s.cache.set key env ∧
        (s.write key env reply).stored = (key, env) :: s.stored) ∧
    Same { s with cache := (s.write key env reply).cache, stored := (s.write key env reply).stored }
      (s.write key env reply) ∧ (s.write key env reply).calls = s.calls := by
  rw [write]
  split
  · exact ⟨.inr ⟨rfl, rfl⟩, ⟨rfl, rfl, rfl, rfl, rfl, rfl⟩, rfl⟩
  · exact ⟨.inl ⟨rfl, rfl⟩, ⟨rfl, rfl, rfl, rfl, rfl, rfl⟩, rfl⟩

theorem afterStore_steps {out : FillOutput} (hpc : c.pc = .store role out)
    (henv : env.answer = out.answer) (reply : Reply) :
    Steps u s n c a ((s.write (cacheKey u c.query) env reply).afterStore n c out role) := by
  obtain ⟨hcache, hsame, hcalls⟩ := write_cases (s := s) (cacheKey u c.query) env reply
  generalize s.write (cacheKey u c.query) env reply = t at hcache hsame hcalls ⊢
  have hstored (f : Metrics → Metrics) :
      Steps u s n c a ((t.count f).setPc n c (storedPc out role)) :=
    .of_moved (.stored hpc henv hcache (hsame.trans (same_count f _)))
      (setPc_calls (t := t.count f) hcalls _)
  cases role with
  | winner | leader | refresh => exact hstored _

theorem afterFlight_lands (coalesced : Bool) (fill : Except String FillOutput) :
    ∃ pc, Lands key fill pc ∧ Same s (s.afterFlight key n c coalesced fill) ∧
      (s.afterFlight key n c coalesced fill).calls = s.calls.set n { c with pc := pc } := by
  cases fill with
  | error cause => exact ⟨_, rfl, same_count _ _, rfl⟩
  | ok out =>
    rw [afterFlight]
    split
    · exact ⟨_, ⟨out.coalesced, rfl, rfl⟩, same_count _ _, rfl⟩
    · exact ⟨_, ⟨out.own, rfl, rfl⟩, same_count _ _, rfl⟩

variable {fill : Except String FillOutput}

theorem landFlight_steps (hpc : c.pc = .land fill) :
    Steps u s n c a (s.landFlight (cacheKey u c.query) n c fill) := by
  rw [landFlight]
  generalize s.sharedFlight (cacheKey u c.query) n = coalesced
  obtain ⟨pc, hlands, hsame, hcalls⟩ := afterFlight_lands (n := n) (c := c)
    (s := { s with
      flights := s.removeFlight (cacheKey u c.query) n, landed := s.landed.set n fill })
    (cacheKey u c.query) coalesced fill
  have hflights := hsame.flights
  have hlanded := hsame.landed
  refine .of_moved (.landed hpc hflights hlanded hlands ?_) hcalls
  rw [hflights, hlanded]
  exact hsame

theorem wake_steps {leader : Nat} (hpc : c.pc = .flying leader)
    (hlanded : s.landed.get? leader = some fill) (coalesced : Bool) :
    Steps u s n c a (s.afterFlight (cacheKey u c.query) n c coalesced fill) := by
  obtain ⟨pc, hlands, hsame, hcalls⟩ := afterFlight_lands (s := s) (n := n) (c := c)
    (cacheKey u c.query) coalesced fill
  exact .of_moved (.woke hpc hlanded hlands hsame) hcalls

theorem afterStale_steps (hpc : c.pc = .revalidate env) {key : String}
    {worker : Nat} (hstale : s.afterStale key n worker c env = some s') : Steps u s n c a s' := by
  rw [afterStale] at hstale
  split at hstale
  · cases hstale
    exact .of_moved (.revalidated hpc rfl (same_count _ _)) rfl
  split at hstale <;> cases hstale
  rename_i hworker
  have hfree : s.calls.get? worker = none := not_isSome_iff_eq_none.mp hworker
  let spawned : State := { s with
    refreshing := key :: s.refreshing
    calls := s.calls.set worker ⟨c.query, false, .refreshAcquire⟩ }
  exact ⟨spawned, _, ⟨⟨rfl, rfl, rfl, rfl, rfl, rfl⟩, .inr ⟨worker, hfree, rfl⟩⟩,
    .revalidated hpc rfl (same_count _ _), rfl⟩

theorem release_steps {result : Except SearchError Outcome} (hpc : c.pc = .release result)
    (key : String) (reply : Reply) :
    Steps u s n c a ((s.unlock key n reply).setPc n c (.done result)) := by
  obtain ⟨hsame, hcalls⟩ := unlock_same (s := s) (n := n) key reply
  exact .of_moved (.released hpc (hsame.trans (same_setPc _))) (setPc_calls hcalls _)

theorem next_not_over (hnext : s.next u p n c a = some s') : ¬ c.pc.Over := by
  intro hover
  unfold next at hnext
  cases hpc : c.pc with
  | done | refreshed =>
    rw [hpc] at hnext
    cases a <;> cases hnext
  | _ =>
    rw [hpc] at hover
    cases hover

theorem next_steps (hnext : s.next u p n c a = some s') : Steps u s n c a s' := by
  revert hnext
  fun_cases next u p s n c a <;> intro hnext <;> try cases hnext
  · exact afterGet_steps ‹_› ‹_›
  · exact afterAcquire_steps p ‹_› _ _
  · exact afterReread_steps ‹_› ‹_›
  · rename_i hpc hctx
    exact .of_moved (.gaveUp (not_leads hpc id) hctx (same_setPc _)) rfl
  · exact joinFlight_steps ‹_›
  · exact afterQuery_steps ‹_› _ _ _ _
  · exact afterFallback_steps ‹_› _ _ _ _
  · exact afterStore_steps ‹_› rfl _
  · exact landFlight_steps ‹_›
  · obtain ⟨fill, hlanded, rfl⟩ := map_eq_some_iff.mp hnext
    exact wake_steps ‹_› hlanded true
  · exact release_steps ‹_› _ _
  · exact afterStale_steps ‹_› hnext
  · exact afterRefreshAcquire_steps ‹_› _ _
  · rename_i hpc
    obtain ⟨hsame, hcalls⟩ := unlock_same (s := s) (n := n) _ _
    exact .to_bare .ungate (not_leads hpc id) trivial (hsame.trans (same_setPc _))
      (setPc_calls hcalls _)
  · rename_i hpc
    exact .to_bare .refreshed (not_leads hpc id) trivial ⟨rfl, rfl, rfl, rfl, rfl, rfl⟩ rfl

end

/-! ## All steps -/

def Label.call? : Label → Option Nat
  | .get n .. | .acquire n .. | .reread n .. | .giveUp n .. | .join n | .answer n .. | .store n ..
  | .land n | .wake n | .release n .. | .revalidate n .. | .ungate n => some n
  | .refreshStations _ | .request .. | .cancel _ | .invalidate .. | .expire _ => none

section
variable (u : Runes) (classes : List String) (windowDays : Int) (p : Params)

inductive Trans (s : State) : Label → State → Prop
  | moves {n c a s' : _} (hcall : a.call? = some n)
      (hc : s.calls.get? n = some c) (hnext : s.next u p n c a = some s') : Trans s a s'
  | stations (codes : _) : Trans s (.refreshStations codes) { s with stations := codes }
  | rejected {n : _} (raw now : _) (hfree : s.calls.get? n = none) :
      Trans s (.request n raw now) s
  | starts {n raw now : _} (hfree : s.calls.get? n = none)
      (hvalid : (Validator.mk s.stations classes windowDays).check now (raw.normalize u) = none) :
      Trans s (.request n raw now)
        { s with calls := s.calls.set n ⟨raw.normalize u, false, .get⟩ }
  | cancels {n c : _} (hc : s.calls.get? n = some c) (hpc : ∀ r, c.pc ≠ .done r) :
      Trans s (.cancel n) { s with calls := s.calls.set n { c with ctxDone := true } }
  | invalidates (raw reply : _) :
      Trans s (.invalidate raw reply) (s.invalidate u raw reply)
  | expires (key : _) :
      Trans s (.expire key) { s with cache := s.cache.erase key, locks := s.locks.erase key }

variable {u classes windowDays p} {s s' : State} {a : Label}

theorem request_trans {n : Nat} {raw : Query} {now : Int}
    (hrequest : s.request u classes windowDays n raw now = some s') :
    Trans u classes windowDays p s (.request n raw now) s' := by
  unfold request at hrequest
  split at hrequest
  · cases hrequest
  rename_i hfree
  split at hrequest <;> cases hrequest
  · exact .rejected raw now hfree
  rename_i q hvalidate
  obtain ⟨rfl, hvalid⟩ := Prod.mk.inj hvalidate
  rw [normalize_normalize]
  exact .starts hfree hvalid

theorem cancel_trans {n : Nat} (hcancel : s.cancel n = some s') :
    Trans u classes windowDays p s (.cancel n) s' := by
  unfold cancel at hcancel
  split at hcancel <;> cases hcancel
  rename_i c hdone hc
  refine .cancels hc fun r hr => hdone c.query c.ctxDone r ?_
  rw [← hr]

theorem step_trans (hstep : step u classes windowDays p s a = some s') :
    Trans u classes windowDays p s a s' := by
  have hmoves {n : Nat} (hcall : a.call? = some n)
      (h : ((s.calls.get? n).bind fun c => s.next u p n c a) = some s') :
      Trans u classes windowDays p s a s' := by
    obtain ⟨c, hc, hnext⟩ := bind_eq_some_iff.mp h
    exact .moves hcall hc hnext
  cases a with
  | refreshStations codes =>
    cases hstep
    exact .stations codes
  | request => exact request_trans hstep
  | cancel => exact cancel_trans hstep
  | invalidate raw reply =>
    cases hstep
    exact .invalidates raw reply
  | expire key =>
    cases hstep
    exact .expires key
  | _ => exact hmoves rfl hstep

end

end GoServices.RailCache.Search
