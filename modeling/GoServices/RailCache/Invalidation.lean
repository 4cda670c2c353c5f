/-
What `Invalidate` promises to the searches that come after it.

The data of a query changes in the source, and then its key is invalidated.
-/
import GoServices.RailCache.SearchReturns

namespace GoServices.RailCache.Search

open Table Sample

structure Watch where
  state : State
  changed : Table Query Nat
  /-- The same at the time of the last successful `Invalidate` of the query. -/
  invalidated : Table Query Nat
  /-- What `invalidated` was for its query when a request started. -/
  since : Table Nat Nat

namespace Watch

def start : Watch :=
  { state := initial, changed := .empty, invalidated := .empty, since := .empty }

def changedAt (w : Watch) (q : Query) : Nat := (w.changed.get? q).getD 0

def invalidatedAt (w : Watch) (q : Query) : Nat := (w.invalidated.get? q).getD 0

def sinceOf (w : Watch) (n : Nat) : Nat := (w.since.get? n).getD 0

def startRequest (w : Watch) (s : State) (n : Nat) : Watch :=
  match s.calls.get? n with
  | none => { w with state := s }
  | some c => { w with state := s, since := w.since.set n (w.invalidatedAt c.query) }

def next (u : Runes) (w : Watch) (s : State) : Label → Watch
  | .request n _ _ => w.startRequest s n
  | .invalidate raw .ok =>
    { w with
      state := s
      invalidated := w.invalidated.set (raw.normalize u) (w.changedAt (raw.normalize u)) }
  | _ => { w with state := s }

end Watch

inductive Event
  | change (q : Query)
  | service (a : Label)

def watchStep (u : Runes) (classes : List String) (windowDays : Int) (p : Params) (w : Watch) :
    Event → Option Watch
  | .change q => some { w with changed := w.changed.set q w.state.answers.length }
  | .service a => (step u classes windowDays p w.state a).map fun s => w.next u s a

def Faithful (u : Runes) (s : State) : Label → Prop
  | .get n (.value env) _ | .reread n (.value env) =>
    ∀ c ∈ s.calls.get? n, s.cache.get? (cacheKey u c.query) = some env
  | _ => True

def Pc.held? : Pc → Option Answer
  | .store _ out | .land (.ok out) => some out.answer
  | _ => none

def Quiet (u : Runes) (w : Watch) : Label → Prop
  | .invalidate raw .ok => ∀ x ∈ w.state.calls.toList,
      cacheKey u x.2.query = cacheKey u (raw.normalize u) →
      ∀ answer ∈ x.2.pc.held?, w.changedAt (raw.normalize u) ≤ answer.number
  | _ => True

def Event.Faithful (u : Runes) (w : Watch) : Event → Prop
  | .change _ => True
  | .service a => Search.Faithful u w.state a

def Event.Quiet (u : Runes) (w : Watch) : Event → Prop
  | .change _ => True
  | .service a => Search.Quiet u w a

instance (u : Runes) (s : State) : ∀ a, Decidable (Faithful u s a) := fun _ => by
  unfold Faithful
  split <;> infer_instance

instance (u : Runes) (w : Watch) : ∀ a, Decidable (Quiet u w a) := fun _ => by
  unfold Quiet
  split <;> infer_instance

instance (u : Runes) (w : Watch) : ∀ e : Event, Decidable (e.Faithful u w)
  | .change _ => isTrue trivial
  | .service a => inferInstanceAs (Decidable (Faithful u w.state a))

instance (u : Runes) (w : Watch) : ∀ e : Event, Decidable (e.Quiet u w)
  | .change _ => isTrue trivial
  | .service a => inferInstanceAs (Decidable (Quiet u w a))

/-! ## The invariant -/

def PcCurrent (w : Watch) (n : Nat) : Pc → Prop
  | .revalidate env => w.sinceOf n ≤ env.answer.number
  | .release (.ok out) | .done (.ok out) => w.sinceOf n ≤ out.answer.number
  | .flying leader =>
    (∀ d x, w.state.calls.get? leader = some d → d.pc.held? = some x → w.sinceOf n ≤ x.number) ∧
    ∀ out, w.state.landed.get? leader = some (.ok out) → w.sinceOf n ≤ out.answer.number
  | _ => True

structure Current (u : Runes) (w : Watch) : Prop where
  changed : ∀ q, w.changedAt q ≤ w.state.answers.length
  invalidated : ∀ q, w.invalidatedAt q ≤ w.changedAt q
  since : ∀ n c, w.state.calls.get? n = some c → w.sinceOf n ≤ w.invalidatedAt c.query
  free : ∀ n, w.state.calls.get? n = none → w.sinceOf n = 0
  cache : ∀ q env, w.state.cache.get? (cacheKey u q) = some env →
    w.invalidatedAt q ≤ env.answer.number
  held : ∀ n c x, w.state.calls.get? n = some c → c.pc.held? = some x →
    ∀ q, cacheKey u q = cacheKey u c.query → w.invalidatedAt q ≤ x.number
  flights : FlightsLed u w.state
  landed : ∀ n fill, w.state.landed.get? n = some fill →
    ∃ c, w.state.calls.get? n = some c ∧ c.pc.Over
  pcs : ∀ n c, w.state.calls.get? n = some c → PcCurrent w n c.pc

section
variable {u : Runes} {w : Watch} {s s' : State} {n : Nat} {c : Call} {a : Label} {pc : Pc}

theorem Current.since_le_length (h : Current u w) (n : Nat) :
    w.sinceOf n ≤ w.state.answers.length := by
  cases hc : w.state.calls.get? n with
  | none =>
    rw [h.free n hc]
    exact Nat.zero_le _
  | some c => exact (h.since n c hc).trans ((h.invalidated _).trans (h.changed _))

variable {x : Answer} {key : String} {env : Envelope}

theorem Current.since_le_held (h : Current u w) (hc : w.state.calls.get? n = some c)
    (hheld : c.pc.held? = some x) : w.sinceOf n ≤ x.number :=
  (h.since n c hc).trans (h.held n c x hc hheld c.query rfl)

/-! ## What a step of a call does to the answers -/

theorem Moved.cache_cases (hmoved : Moved u s n c a s' pc) (henv : s'.cache.get? key = some env) :
    s.cache.get? key = some env ∨ key = cacheKey u c.query ∧ c.pc.held? = some env.answer := by
  cases hmoved.wrote with
  | nothing hsame | opens _ _ hsame | joins _ _ hsame | answer _ hsame =>
    exact .inl (hsame.cache ▸ henv)
  | cache hpc hanswer hcache =>
    rcases hcache with ⟨hcache, -⟩ | ⟨hcache, -⟩
    · exact .inl (hcache ▸ henv)
    rw [hcache] at henv
    rcases set_cases henv with ⟨hkey, rfl⟩ | ⟨-, hold⟩
    · exact .inr ⟨hkey, by rw [hpc, hanswer, Pc.held?]⟩
    · exact .inl hold
  | landing _ _ _ _ hsame => exact .inl (hsame.cache ▸ henv)

theorem held?_of_over (hover : pc.Over) : pc.held? = none := by
  cases pc with
  | done | refreshed => rfl
  | _ => cases hover

theorem Moved.held_cases (hmoved : Moved u s n c a s' pc)
    (hheld : pc.held? = some x) : c.pc.held? = some x ∨ x.number = s.answers.length := by
  cases hmoved with
  | answered _ _ hnumber =>
    cases hheld
    exact .inr hnumber
  | @failed role _ hpc =>
    cases role <;> cases hheld
  | @stored role out _ hpc =>
    cases role with
    | leader =>
      cases hheld
      exact .inl (by rw [hpc, Pc.held?])
    | _ => cases hheld
  | bare _ hbare =>
    cases pc with
    | store | land => cases hbare
    | _ => cases hheld
  | landed _ _ _ hlands | woke _ _ hlands =>
    rw [held?_of_over (lands_over hlands)] at hheld
    cases hheld
  | released | _ => cases hheld

/-! ## A step of a call -/

theorem Faithful.cache (hfaithful : Faithful u w.state a) (hcall : a.call? = some n)
    (hc : w.state.calls.get? n = some c) (hvalue : a.value? = some env) :
    w.state.cache.get? (cacheKey u c.query) = some env := by
  cases a with
  | get m reply | reread m reply =>
    obtain rfl : m = n := Option.some.inj hcall
    cases reply with
    | value =>
      cases hvalue
      exact hfaithful c hc
    | _ => cases hvalue
  | _ => cases hvalue

theorem pcCurrent_lands {fill : Except String FillOutput} (hlands : Lands key fill pc)
    (hfill : ∀ out, fill = .ok out → w.sinceOf n ≤ out.answer.number) : PcCurrent w n pc := by
  cases fill with
  | error =>
    rw [hlands]
    trivial
  | ok out =>
    obtain ⟨o, rfl, ho⟩ := hlands
    rw [PcCurrent, ho]
    exact hfill out rfl

theorem pcCurrent_bare (hbare : pc.Bare) : PcCurrent w n pc := by
  cases pc with
  | acquire | wait | query | fallback | refreshRelease | ungate | refreshed => trivial
  | _ => cases hbare

section
variable (h : Current u w) (hc : w.state.calls.get? n = some c)
    (hmoved : Moved u w.state n c a s' pc)
    (hcalls : s'.calls = w.state.calls.set n { c with pc := pc })
include h hc hmoved hcalls

theorem Current.moved_pc
    (hvalue : ∀ env, a.value? = some env → w.state.cache.get? (cacheKey u c.query) = some env) :
    PcCurrent { w with state := s' } n pc := by
  have hvalue {env : Envelope} (henv : a.value? = some env) : w.sinceOf n ≤ env.answer.number :=
    (h.since n c hc).trans (h.cache c.query env (hvalue env henv))
  have hpcs := h.pcs n c hc
  cases hmoved with
  | served _ henv _ hout =>
    rw [PcCurrent, hout]
    exact hvalue henv
  | stale _ henv => exact hvalue henv
  | bare _ hbare => exact pcCurrent_bare hbare
  | gaveUp | leads => trivial
  | @joins f hpc hflight hflights hsame =>
    -- the leader holds an answer that is current for every query with the key
    obtain ⟨d, hd, hkey, hleads⟩ := h.flights _ f hflight
    have hne : f.leader ≠ n := by
      intro hn
      rw [hn, hc] at hd
      cases hd
      exact hpc hleads
    refine ⟨fun d' x hd' hheld => ?_, fun out hout => ?_⟩
    · have hkept : s'.calls.get? f.leader = some d := by
        rw [hcalls, get?_set, if_neg hne, hd]
      obtain rfl : d = d' := Option.some.inj (hkept.symm.trans hd')
      exact (h.since n c hc).trans (h.held _ d x hd hheld c.query hkey.symm)
    · obtain ⟨d', hd', hover⟩ := h.landed f.leader _ (hsame.landed ▸ hout)
      obtain rfl : d = d' := Option.some.inj (hd.symm.trans hd')
      exact absurd hover (leads_not_over hleads).1
  | answered => trivial
  | @failed role => cases role <;> trivial
  | fellBack _ _ hnumber =>
    rw [PcCurrent, hnumber]
    exact h.since_le_length n
  | fallbackFailed => trivial
  | @stored role out _ hpc =>
    have hheld : c.pc.held? = some out.answer := by rw [hpc, Pc.held?]
    cases role with
    | winner => exact h.since_le_held hc hheld
    | _ => trivial
  | landed hpc _ _ hlands =>
    refine pcCurrent_lands hlands fun out hout => h.since_le_held hc ?_
    rw [hpc, hout, Pc.held?]
  | woke hpc hlanded hlands =>
    rw [hpc] at hpcs
    exact pcCurrent_lands hlands fun out hout => hpcs.2 out (hout ▸ hlanded)
  | @released result hpc =>
    rw [hpc] at hpcs
    cases result with
    | ok => exact hpcs
    | error => trivial
  | revalidated hpc hout =>
    rw [hpc] at hpcs
    rw [PcCurrent, hout]
    exact hpcs

theorem Current.other_pc {m : Nat} {qc : Pc} (hm : PcCurrent w m qc) :
    PcCurrent { w with state := s' } m qc := by
  cases qc with
  | flying leader =>
    refine ⟨fun d x hd hheld => ?_, fun out hout => ?_⟩
    · rw [hcalls] at hd
      rcases set_cases hd with ⟨rfl, rfl⟩ | ⟨-, hd⟩
      · rcases hmoved.held_cases hheld with hold | hnumber
        · exact hm.1 c x hc hold
        · rw [hnumber]
          exact h.since_le_length m
      · exact hm.1 d x hd hheld
    · rcases hmoved.get?_landed hout with hold | ⟨rfl, hpc, -⟩
      · exact hm.2 out hold
      · exact hm.1 c out.answer hc (by rw [hpc, Pc.held?])
  | release result | done result =>
    cases result with
    | ok => exact hm
    | error => trivial
  | _ => exact hm

end

theorem Current.moved (h : Current u w) (hc : w.state.calls.get? n = some c)
    (hover : ¬ c.pc.Over) (hmoved : Moved u w.state n c a s' pc)
    (hcalls : s'.calls = w.state.calls.set n { c with pc := pc })
    (hvalue : ∀ env, a.value? = some env → w.state.cache.get? (cacheKey u c.query) = some env) :
    Current u { w with state := s' } := by
  have hget {m : Nat} {d : Call} (hd : s'.calls.get? m = some d) :
      m = n ∧ d = { c with pc := pc } ∨ w.state.calls.get? m = some d := by
    rw [hcalls] at hd
    exact (set_cases hd).imp_right And.right
  constructor
  · exact fun q => (h.changed q).trans hmoved.answers.length_le
  · exact h.invalidated
  · intro m d hd
    rcases hget hd with ⟨rfl, rfl⟩ | hd
    · exact h.since m c hc
    · exact h.since m d hd
  · intro m hm
    refine h.free m ?_
    rw [hcalls, get?_set] at hm
    split at hm <;> try cases hm
    exact hm
  · intro q env henv
    rcases hmoved.cache_cases henv with hold | ⟨hkey, hheld⟩
    · exact h.cache q env hold
    · exact h.held n c _ hc hheld q hkey
  · intro m d x hd hheld q hq
    rcases hget hd with ⟨rfl, rfl⟩ | hd
    · rcases hmoved.held_cases hheld with hold | hnumber
      · exact h.held m c x hc hold q hq
      · rw [hnumber]
        exact (h.invalidated q).trans (h.changed q)
    · exact h.held m d x hd hheld q hq
  · exact h.flights.moved hc hmoved hcalls
  · intro m fill hfill
    rcases hmoved.get?_landed hfill with hold | ⟨rfl, -, hpc⟩
    · obtain ⟨d, hd, hdover⟩ := h.landed m fill hold
      have hne : m ≠ n := by
        rintro rfl
        rw [hc] at hd
        cases hd
        exact hover hdover
      exact ⟨d, by rw [hcalls, get?_set, if_neg hne, hd], hdover⟩
    · exact ⟨{ c with pc := pc }, by rw [hcalls, get?_set_self], hpc⟩
  · intro m d hd
    rcases hget hd with ⟨rfl, rfl⟩ | hd
    · exact h.moved_pc hc hmoved hcalls hvalue
    · exact h.other_pc hc hmoved hcalls (h.pcs m d hd)

/-! ## The other events -/

variable {w' : Watch} {d : Call}

theorem PcCurrent.of_held {m : Nat} (hm : PcCurrent w m pc) (hsince : w'.sinceOf m = w.sinceOf m)
    (hlanded : w'.state.landed = w.state.landed)
    (hheld : ∀ leader d x, w'.state.calls.get? leader = some d → d.pc.held? = some x →
      ∃ d', w.state.calls.get? leader = some d' ∧ d'.pc.held? = some x) : PcCurrent w' m pc := by
  cases pc with
  | revalidate =>
    rw [PcCurrent, hsince]
    exact hm
  | release result | done result =>
    cases result with
    | ok =>
      rw [PcCurrent, hsince]
      exact hm
    | error => trivial
  | flying leader =>
    rw [PcCurrent, hsince, hlanded]
    refine ⟨fun d x hd hx => ?_, hm.2⟩
    obtain ⟨d', hd', hx'⟩ := hheld leader d x hd hx
    exact hm.1 d' x hd' hx'
  | _ => trivial

theorem Current.put (h : Current u w) (hsame : Same w.state w'.state)
    (hchanged : w'.changed = w.changed) (hinvalidated : w'.invalidated = w.invalidated)
    (hcalls : w'.state.calls = w.state.calls.set n d)
    (hother : ∀ m, m ≠ n → w'.sinceOf m = w.sinceOf m)
    (hself : w'.sinceOf n ≤ w.invalidatedAt d.query)
    (hold : (∃ c, w.state.calls.get? n = some c ∧ d.query = c.query ∧ d.pc = c.pc ∧
        w'.sinceOf n = w.sinceOf n) ∨
      w.state.calls.get? n = none ∧ (d.pc = .get ∨ d.pc = .refreshAcquire)) : Current u w' := by
  have hchangedAt (q : Query) : w'.changedAt q = w.changedAt q := by
    rw [Watch.changedAt, hchanged, Watch.changedAt]
  have hinvalidatedAt (q : Query) : w'.invalidatedAt q = w.invalidatedAt q := by
    rw [Watch.invalidatedAt, hinvalidated, Watch.invalidatedAt]
  have hget {m : Nat} {e : Call} (he : w'.state.calls.get? m = some e) :
      m = n ∧ e = d ∨ m ≠ n ∧ w.state.calls.get? m = some e := by
    rw [hcalls] at he
    exact set_cases he
  have hheld (m : Nat) (e : Call) (x : Answer) (he : w'.state.calls.get? m = some e)
      (hx : e.pc.held? = some x) :
      ∃ e', w.state.calls.get? m = some e' ∧ e'.pc.held? = some x ∧ e'.query = e.query := by
    rcases hget he with ⟨rfl, rfl⟩ | ⟨-, he⟩
    · rcases hold with ⟨c, hc, hquery, hpc, -⟩ | ⟨-, hpc | hpc⟩
      · exact ⟨c, hc, hpc ▸ hx, hquery.symm⟩
      all_goals
        rw [hpc] at hx
        cases hx
    · exact ⟨e, he, hx, rfl⟩
  have hpcs {m : Nat} {qc : Pc} (hm : PcCurrent w m qc) (hsince : w'.sinceOf m = w.sinceOf m) :
      PcCurrent w' m qc := by
    refine hm.of_held hsince hsame.landed fun leader e x he hx => ?_
    obtain ⟨e', he', hx', -⟩ := hheld leader e x he hx
    exact ⟨e', he', hx'⟩
  constructor
  · intro q
    rw [hchangedAt, hsame.answers]
    exact h.changed q
  · intro q
    rw [hchangedAt, hinvalidatedAt]
    exact h.invalidated q
  · intro m e he
    rw [hinvalidatedAt]
    rcases hget he with ⟨rfl, rfl⟩ | ⟨hne, he⟩
    · exact hself
    · rw [hother m hne]
      exact h.since m e he
  · intro m hm
    rw [hcalls, get?_set] at hm
    split at hm
    · cases hm
    rename_i hne
    rw [hother m hne]
    exact h.free m hm
  · intro q env henv
    rw [hinvalidatedAt]
    exact h.cache q env (hsame.cache ▸ henv)
  · intro m e x he hx q hq
    obtain ⟨e', he', hx', hquery⟩ := hheld m e x he hx
    rw [hinvalidatedAt]
    exact h.held m e' x he' hx' q (hquery ▸ hq)
  · refine h.flights.kept hsame.flights fun m e he => ?_
    by_cases hm : m = n
    · subst hm
      rcases hold with ⟨c, hc, hquery, hpc, -⟩ | ⟨hnone, -⟩
      · rw [hc] at he
        cases he
        exact ⟨d, by rw [hcalls, get?_set_self], hquery, hpc⟩
      · rw [hnone] at he
        cases he
    · exact ⟨e, by rw [hcalls, get?_set, if_neg hm, he], rfl, rfl⟩
  · intro m fill hfill
    obtain ⟨e, he, hover⟩ := h.landed m fill (hsame.landed ▸ hfill)
    by_cases hm : m = n
    · subst hm
      rcases hold with ⟨c, hc, -, hpc, -⟩ | ⟨hnone, -⟩
      · rw [hc] at he
        cases he
        exact ⟨d, by rw [hcalls, get?_set_self], hpc ▸ hover⟩
      · rw [hnone] at he
        cases he
    · exact ⟨e, by rw [hcalls, get?_set, if_neg hm, he], hover⟩
  · intro m e he
    rcases hget he with ⟨rfl, rfl⟩ | ⟨hne, he⟩
    · rcases hold with ⟨c, hc, -, hpc, hsince⟩ | ⟨-, hpc | hpc⟩
      · rw [hpc]
        exact hpcs (h.pcs m c hc) hsince
      all_goals
        rw [hpc]
        trivial
    · exact hpcs (h.pcs m e he) (hother m hne)

theorem Current.update (h : Current u w) (hanswers : w'.state.answers = w.state.answers)
    (hcalls : w'.state.calls = w.state.calls) (hflights : w'.state.flights = w.state.flights)
    (hlanded : w'.state.landed = w.state.landed) (hsince : w'.since = w.since)
    (hchanged : ∀ q, w'.changedAt q ≤ w.state.answers.length)
    (hinvalidated : ∀ q, w.invalidatedAt q ≤ w'.invalidatedAt q ∧
      w'.invalidatedAt q ≤ w'.changedAt q)
    (hcache : ∀ q env, w'.state.cache.get? (cacheKey u q) = some env →
      w'.invalidatedAt q ≤ env.answer.number)
    (hheld : ∀ n c x, w.state.calls.get? n = some c → c.pc.held? = some x →
      ∀ q, cacheKey u q = cacheKey u c.query → w'.invalidatedAt q ≤ x.number) : Current u w' := by
  have hsinceOf (m : Nat) : w'.sinceOf m = w.sinceOf m := by
    rw [Watch.sinceOf, hsince, Watch.sinceOf]
  constructor
  · rw [hanswers]
    exact hchanged
  · exact fun q => (hinvalidated q).2
  · intro m e he
    rw [hsinceOf]
    exact (h.since m e (hcalls ▸ he)).trans (hinvalidated _).1
  · intro m hm
    rw [hsinceOf]
    exact h.free m (hcalls ▸ hm)
  · exact hcache
  · rw [hcalls]
    exact hheld
  · exact h.flights.kept hflights fun m e he => ⟨e, hcalls ▸ he, rfl, rfl⟩
  · rw [hcalls, hlanded]
    exact h.landed
  intro m e he
  refine (h.pcs m e (hcalls ▸ he)).of_held (hsinceOf m) hlanded fun leader d x hd hx => ?_
  exact ⟨d, hcalls ▸ hd, hx⟩

/-! ## Every event -/

variable {classes : List String} {windowDays : Int} {p : Params} {w' : Watch} {q : Query}

theorem next_of_call (hcall : a.call? = some n) : w.next u s a = { w with state := s } := by
  cases a with
  | request | invalidate => cases hcall
  | _ => rfl

section
variable (h : Current u w)
include h

theorem Current.spawned {t : State} (hspawned : Spawned w.state t q) :
    Current u { w with state := t } := by
  obtain ⟨hsame, hcalls | ⟨worker, hfree, hcalls⟩⟩ := hspawned
  · exact h.update hsame.answers hcalls hsame.flights hsame.landed rfl h.changed
      (fun q => ⟨Nat.le_refl _, h.invalidated q⟩)
      (fun q env henv => h.cache q env (hsame.cache ▸ henv)) h.held
  · refine h.put hsame rfl rfl hcalls (fun _ _ => rfl) ?_ (.inr ⟨hfree, .inr rfl⟩)
    exact (Nat.le_of_eq (h.free worker hfree)).trans (Nat.zero_le _)

theorem Current.started (hfree : w.state.calls.get? n = none) :
    Current u (w.startRequest
      { w.state with calls := w.state.calls.set n ⟨q, false, .get⟩ } n) := by
  simp only [Watch.startRequest, get?_set_self]
  refine h.put (n := n) ⟨rfl, rfl, rfl, rfl, rfl, rfl⟩ rfl rfl rfl (fun m hm => ?_) ?_
    (.inr ⟨hfree, .inl rfl⟩)
  · rw [Watch.sinceOf, get?_set, if_neg hm, Watch.sinceOf]
  · rw [Watch.sinceOf, get?_set_self]
    exact Nat.le_refl _

theorem Current.dropped (locks : Table String Nat) (key : String) :
    Current u { w with state := { w.state with
      cache := w.state.cache.erase key
      locks := locks } } := by
  refine h.update rfl rfl rfl rfl rfl h.changed (fun q => ⟨Nat.le_refl _, h.invalidated q⟩)
    (fun q env henv => h.cache q env ?_) h.held
  rw [get?_erase] at henv
  split at henv
  · cases henv
  · exact henv

theorem Current.changes (q : Query) :
    Current u { w with changed := w.changed.set q w.state.answers.length } := by
  have hchangedAt (q' : Query) :
      Watch.changedAt { w with changed := w.changed.set q w.state.answers.length } q' =
        if q' = q then w.state.answers.length else w.changedAt q' := by
    rw [Watch.changedAt, get?_set]
    split <;> rfl
  refine h.update rfl rfl rfl rfl rfl (fun q' => ?_) (fun q' => ⟨Nat.le_refl _, ?_⟩) h.cache h.held
  · rw [hchangedAt]
    split
    · exact Nat.le_refl _
    · exact h.changed q'
  rw [hchangedAt]
  split
  · exact (h.invalidated q').trans (h.changed q')
  · exact h.invalidated q'

theorem Current.invalidates {raw : Query} (hquiet : Quiet u w (.invalidate raw .ok)) :
    Current u (w.next u (w.state.invalidate u raw .ok) (.invalidate raw .ok)) := by
  have hinvalidatedAt (q : Query) :
      Watch.invalidatedAt (w.next u (w.state.invalidate u raw .ok) (.invalidate raw .ok)) q =
        if q = raw.normalize u then w.changedAt (raw.normalize u) else w.invalidatedAt q := by
    rw [Watch.next, Watch.invalidatedAt, get?_set]
    split <;> rfl
  refine h.update rfl rfl rfl rfl rfl h.changed (fun q => ?_) (fun q env henv => ?_)
    fun m c x hc hx q hq => ?_
  · rw [hinvalidatedAt]
    split
    · rename_i hq
      rw [← hq]
      exact ⟨h.invalidated q, Nat.le_refl _⟩
    · exact ⟨Nat.le_refl _, h.invalidated q⟩
  · have hget : (w.state.cache.erase (cacheKey u (raw.normalize u))).get? (cacheKey u q) =
        some env := henv
    rw [get?_erase] at hget
    split at hget
    · cases hget
    rename_i hkey
    rw [hinvalidatedAt, if_neg fun hq => hkey (congrArg (cacheKey u) hq)]
    exact h.cache q env hget
  · rw [hinvalidatedAt]
    split
    · rename_i hraw
      exact hquiet (m, c) (mem_toList.mpr hc) (by rw [← hq, hraw]) x hx
    · exact h.held m c x hc hx q hq

theorem watchStep_current {e : Event} (hfaithful : e.Faithful u w) (hquiet : e.Quiet u w)
    (hstep : watchStep u classes windowDays p w e = some w') : Current u w' := by
  cases e with
  | change q =>
    cases hstep
    exact h.changes q
  | service a =>
    obtain ⟨s', hs', rfl⟩ := Option.map_eq_some_iff.mp hstep
    cases step_trans hs' with
    | moves hcall hc hnext =>
      obtain ⟨t, pc, hspawned, hmoved, hcalls⟩ := next_steps hnext
      rw [next_of_call hcall]
      refine (h.spawned hspawned).moved (hspawned.get?_calls hc) (next_not_over hnext) hmoved
        hcalls fun env henv => ?_
      exact hspawned.1.cache ▸ Search.Faithful.cache hfaithful hcall hc henv
    | stations codes =>
      exact h.update rfl rfl rfl rfl rfl h.changed (fun q => ⟨Nat.le_refl _, h.invalidated q⟩)
        h.cache h.held
    | rejected raw now hfree =>
      rw [Watch.next, Watch.startRequest, hfree]
      exact h
    | starts hfree => exact h.started hfree
    | @cancels n c hc hpc =>
      exact h.put (n := n) ⟨rfl, rfl, rfl, rfl, rfl, rfl⟩ rfl rfl rfl (fun _ _ => rfl)
        (h.since n c hc) (.inl ⟨c, hc, rfl, rfl, rfl⟩)
    | invalidates raw reply =>
      cases reply with
      | ok => exact h.invalidates hquiet
      | failed applied =>
        cases applied with
        | false => exact h
        | true => exact h.dropped _ _
    | expires key => exact h.dropped _ _

end

theorem start_current : Current u .start where
  changed _ := Nat.le_refl 0
  invalidated _ := Nat.le_refl 0
  since _ _ hc := nomatch hc
  free _ _ := rfl
  cache _ _ henv := nomatch henv
  held _ _ _ hc := nomatch hc
  flights _ _ hf := nomatch hf
  landed _ _ hfill := nomatch hfill
  pcs _ _ hc := nomatch hc

end

/-- In every run of searches, refreshes, source changes and invalidations, over a store
that returns what it holds: if no fill or refresh of a key holds an old answer when the key
is invalidated, every search returns an answer that the source gave after the last change
of the data before the last invalidation before the search. -/
theorem fresh_of_quiet {u : Runes} {classes : List String} {windowDays : Int} {p : Params}
    {es : List Event} {w : Watch} (hrun : run (watchStep u classes windowDays p) .start es = some w)
    (hstore : RunMeets (watchStep u classes windowDays p) (fun w e => e.Faithful u w) .start es)
    (hquiet : RunMeets (watchStep u classes windowDays p) (fun w e => e.Quiet u w) .start es) :
    ∀ n c out, w.state.calls.get? n = some c → c.pc = .done (.ok out) →
      w.sinceOf n ≤ out.answer.number := by
  have h : Current u w := run_invariant_of_meets
    (fun _ _ _ h hok hstep => watchStep_current h hok.1 hok.2 hstep) start_current
    (hstore.and hquiet) hrun
  intro n c out hc hpc
  have hpcs := h.pcs n c hc
  rw [hpc] at hpcs
  exact hpcs

namespace Sample

def seats (available : Int) : SearchResult :=
  ⟨delhi, [⟨"12951", available⟩]⟩

def fill (n : Nat) (available : Int) : List Event :=
  [.service (.request n delhi 0), .service (.get n .miss 1), .service (.acquire n .won),
   .service (.answer n (.ok (seats available)) 7 20)]

def finish (n : Nat) : List Event :=
  [.service (.store n .ok 21 21 0), .service (.release n .ok)]

def ordered : List Event :=
  [.service (.refreshStations ["NDLS", "BCT"])] ++ fill 1 4 ++ finish 1 ++
    [.change delhi, .service (.invalidate delhi .ok)] ++ fill 2 3 ++ finish 2

def overlapping : List Event :=
  [.service (.refreshStations ["NDLS", "BCT"])] ++ fill 1 4 ++
    [.change delhi, .service (.invalidate delhi .ok)] ++ finish 1 ++
    [.service (.request 2 delhi 22),
     .service (.get 2 (.value (newEnvelope params 21 21 0 ⟨delhi, 0, seats 4⟩)) 23)]

end Sample

theorem fresh_of_quiet_ordered :
    ∃ w c out, run (watchStep .ascii coachClasses 120 params) .start ordered =
        some w ∧ w.sinceOf 2 = 1 ∧ w.state.calls.get? 2 = some c ∧ c.pc = .done (.ok out) ∧
      1 ≤ out.answer.number := by
  obtain ⟨w, hrun, hsince, c, hc, hpc⟩ :
      ∃ w ∈ run (watchStep .ascii coachClasses 120 params) .start ordered,
        w.sinceOf 2 = 1 ∧ ∃ c ∈ w.state.calls.get? 2, c.pc = .done (.ok (FillOutput.own
          ⟨⟨delhi, 1, seats 3⟩, 7, 20⟩)) := by
    decide +kernel
  have hfresh := fresh_of_quiet hrun (by decide +kernel) (by decide +kernel) 2 c _ hc hpc
  rw [hsince] at hfresh
  exact ⟨w, c, _, hrun, hsince, hc, hpc, hfresh⟩

/-- The store holds what it was given and the second search starts after the change and
the invalidation, and it is served the answer from before the change. -/
theorem overlapping_fill_serves_old_answer :
    RunMeets (watchStep .ascii coachClasses 120 params) (fun w e => e.Faithful .ascii w)
        .start overlapping ∧
      ∃ w ∈ run (watchStep .ascii coachClasses 120 params) .start overlapping,
        w.sinceOf 2 = 1 ∧ ∃ c ∈ w.state.calls.get? 2,
          c.pc = .done (.ok ((newEnvelope params 21 21 0
            ⟨delhi, 0, seats 4⟩).outcome .hit false)) := by
  decide +kernel

end GoServices.RailCache.Search
