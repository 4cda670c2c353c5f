/-
What every search returns, however the cache store behaves.

An answer travels from the source to a request through an envelope, a fill of its own or the
flight of another request.
-/
import GoServices.RailCache.SearchSteps

namespace GoServices.RailCache.Search

open List Table

def State.Answered (s : State) (q : Query) (x : Answer) : Prop := x ∈ s.answers ∧ x.asked = q

def State.Led (s : State) (q : Query) (leader : Nat) : Prop :=
  ∃ c, s.calls.get? leader = some c ∧ c.query = q ∧ (c.pc.Leads ∨ (s.landed.get? leader).isSome)

def PcSound (s : State) (q : Query) (ctxDone : Bool) : Pc → Prop
  | .store _ out => s.Answered q out.answer
  | .land fill => ∃ out, fill = .ok out ∧ s.Answered q out.answer
  | .release result => ∃ out, result = .ok out ∧ s.Answered q out.answer
  | .revalidate env => s.Answered q env.answer
  | .done (.ok out) => s.Answered q out.answer
  | .done (.error _) => ctxDone = true
  | .flying leader => s.Led q leader
  | _ => True

def FlightsLed (u : Runes) (s : State) : Prop :=
  ∀ key f, s.flights.get? key = some f →
    ∃ c, s.calls.get? f.leader = some c ∧ cacheKey u c.query = key ∧ c.pc.Leads

structure Inv (u : Runes) (s : State) : Prop where
  stations : ∀ code ∈ s.stations, ':' ∉ code.toList
  stored : ∀ key env, (key, env) ∈ s.stored →
    env.answer ∈ s.answers ∧ env.answer.asked.Plain u ∧ cacheKey u env.answer.asked = key
  flights : FlightsLed u s
  landed : ∀ leader fill, s.landed.get? leader = some fill →
    ∃ c out, s.calls.get? leader = some c ∧ fill = .ok out ∧ s.Answered c.query out.answer
  plain : ∀ n c, s.calls.get? n = some c → c.query.Plain u
  calls : ∀ n c, s.calls.get? n = some c → PcSound s c.query c.ctxDone c.pc

/-! ## What is kept -/

structure Grows (s s' : State) : Prop where
  answers : ∀ x ∈ s.answers, x ∈ s'.answers
  led : ∀ q leader, s.Led q leader → s'.Led q leader

section
variable {u : Runes} {s s' : State} {n : Nat} {c : Call} {a : Label} {pc : Pc} {q : Query}

theorem State.Answered.grows {x : Answer} (h : s.Answered q x) (hgrows : Grows s s') :
    s'.Answered q x :=
  ⟨hgrows.answers x h.1, h.2⟩

variable {ctxDone : Bool} {t : State}

theorem PcSound.grows (h : PcSound s q ctxDone pc) (hgrows : Grows s s') :
    PcSound s' q ctxDone pc := by
  cases pc with
  | store => exact State.Answered.grows h hgrows
  | land | release =>
    obtain ⟨out, hout, h⟩ := h
    exact ⟨out, hout, h.grows hgrows⟩
  | revalidate => exact State.Answered.grows h hgrows
  | done result =>
    cases result with
    | ok => exact State.Answered.grows h hgrows
    | error => exact h
  | flying => exact hgrows.led _ _ h
  | _ => trivial

section
variable (hmoved : Moved u s n c a s' pc)
include hmoved

theorem Moved.stations : s'.stations = s.stations := by
  cases hmoved.wrote with
  | nothing hsame | opens _ _ hsame | joins _ _ hsame | answer _ hsame => exact hsame.stations
  | cache _ _ _ hsame | landing _ _ _ _ hsame => exact hsame.stations

theorem Moved.answers : s.answers <+: s'.answers := by
  cases hmoved.wrote with
  | nothing hsame | opens _ _ hsame | joins _ _ hsame => exact hsame.answers ▸ prefix_rfl
  | answer hanswers => exact hanswers ▸ prefix_append _ _
  | cache _ _ _ hsame | landing _ _ _ _ hsame => exact hsame.answers ▸ prefix_rfl

theorem Moved.landed_cases :
    s'.landed = s.landed ∨
      ∃ fill, s'.landed = s.landed.set n fill ∧ c.pc = .land fill ∧ pc.Over := by
  cases hmoved.wrote with
  | nothing hsame | opens _ _ hsame | joins _ _ hsame | answer _ hsame | cache _ _ _ hsame =>
    exact .inl hsame.landed
  | landing hpc hover _ hlanded => exact .inr ⟨_, hlanded, hpc, hover⟩

theorem Moved.landed_kept {m : Nat} (hm : (s.landed.get? m).isSome) :
    (s'.landed.get? m).isSome := by
  rcases hmoved.landed_cases with hlanded | ⟨fill, hlanded, -, -⟩
  · rwa [hlanded]
  rw [hlanded, get?_set]
  split
  · rfl
  · exact hm

theorem Moved.leads_cases (hleads : c.pc.Leads) :
    pc.Leads ∨ s'.flights = s.removeFlight (cacheKey u c.query) n ∧ (s'.landed.get? n).isSome := by
  cases hmoved with
  | served hpc | stale hpc | bare hpc | gaveUp hpc | joins hpc => exact absurd hleads hpc
  | leads => exact .inl trivial
  | @answered role _ hpc | @failed role _ hpc | @stored role _ _ hpc =>
    rw [hpc] at hleads
    cases role with
    | leader => exact .inl trivial
    | _ => cases hleads
  | landed _ hflights hlanded =>
    refine .inr ⟨hflights, ?_⟩
    rw [hlanded, get?_set_self]
    rfl
  | fellBack hpc | fallbackFailed hpc | woke hpc | released hpc | revalidated hpc =>
    rw [hpc] at hleads
    cases hleads

theorem Moved.grows (hc : s.calls.get? n = some c)
    (hcalls : s'.calls = s.calls.set n { c with pc := pc }) : Grows s s' where
  answers _ hx := hmoved.answers.subset hx
  led q leader hled := by
    obtain ⟨d, hd, hquery, hflight⟩ := hled
    by_cases hn : leader = n
    · rw [hn] at hd hflight ⊢
      rw [hc] at hd
      cases hd
      refine ⟨{ c with pc := pc }, by rw [hcalls, get?_set_self], hquery, ?_⟩
      exact hflight.elim (fun h => (hmoved.leads_cases h).imp_right And.right) fun h =>
        .inr (hmoved.landed_kept h)
    · refine ⟨d, by rw [hcalls, get?_set, if_neg hn]; exact hd, hquery, ?_⟩
      exact hflight.imp_right hmoved.landed_kept

end

/-! ## What a step changes -/

section
variable (hmoved : Moved u s n c a s' pc)
include hmoved

theorem Moved.stored_cases {key : String} {env : Envelope} (henv : (key, env) ∈ s'.stored) :
    (key, env) ∈ s.stored ∨
      ∃ role out, c.pc = .store role out ∧ key = cacheKey u c.query ∧ env.answer = out.answer := by
  cases hmoved.wrote with
  | nothing hsame | opens _ _ hsame | joins _ _ hsame | answer _ hsame =>
    exact .inl (hsame.stored ▸ henv)
  | cache hpc hanswer hcache =>
    rcases hcache with ⟨-, hstored⟩ | ⟨-, hstored⟩
    · exact .inl (hstored ▸ henv)
    rw [hstored] at henv
    rcases mem_cons.mp henv with heq | hold
    · cases heq
      exact .inr ⟨_, _, hpc, rfl, hanswer⟩
    · exact .inl hold
  | landing _ _ _ _ hsame => exact .inl (hsame.stored ▸ henv)

theorem Moved.get?_landed {m : Nat} {fill : Except String FillOutput}
    (hm : s'.landed.get? m = some fill) :
    s.landed.get? m = some fill ∨ m = n ∧ c.pc = .land fill ∧ pc.Over := by
  rcases hmoved.landed_cases with hlanded | ⟨fill', hlanded, hpc, hover⟩
  · exact .inl (hlanded ▸ hm)
  rw [hlanded] at hm
  rcases set_cases hm with ⟨hn, rfl⟩ | ⟨-, hold⟩
  · exact .inr ⟨hn, hpc, hover⟩
  · exact .inl hold

theorem Moved.flights_cases :
    s'.flights = s.flights ∨
    s'.flights = s.flights.set (cacheKey u c.query) ⟨n, 0⟩ ∧ pc.Leads ∨
    (∃ f, s.flights.get? (cacheKey u c.query) = some f ∧
      s'.flights = s.flights.set (cacheKey u c.query) { f with dups := f.dups + 1 }) ∨
    s'.flights = s.removeFlight (cacheKey u c.query) n := by
  cases hmoved.wrote with
  | nothing hsame => exact .inl hsame.flights
  | opens hleads hflights => exact .inr (.inl ⟨hflights, hleads⟩)
  | joins hflight hflights => exact .inr (.inr (.inl ⟨_, hflight, hflights⟩))
  | answer _ hsame | cache _ _ _ hsame => exact .inl hsame.flights
  | landing _ _ hflights => exact .inr (.inr (.inr hflights))

end

/-! ## The flights -/

section
variable (h : FlightsLed u s) (hc : s.calls.get? n = some c)
include h hc

variable {key : String} {f : Flight}

theorem FlightsLed.removeFlight (hf : (s.removeFlight (cacheKey u c.query) n).get? key = some f) :
    s.flights.get? key = some f ∧ f.leader ≠ n := by
  have hleader (hget : s.flights.get? key = some f) (hn : f.leader = n) :
      key = cacheKey u c.query := by
    obtain ⟨d, hd, hkey, -⟩ := h key f hget
    rw [hn, hc] at hd
    cases hd
    exact hkey.symm
  unfold State.removeFlight at hf
  split at hf
  · rename_i g hg
    split at hf
    · rw [get?_erase] at hf
      split at hf <;> try cases hf
      rename_i hne
      exact ⟨hf, fun hn => hne (hleader hf hn)⟩
    rename_i hother
    refine ⟨hf, fun hn => hother ?_⟩
    rw [hleader hf hn, hg] at hf
    cases hf
    exact hn
  · rename_i hnone
    refine ⟨hf, fun hn => ?_⟩
    rw [hleader hf hn, hnone] at hf
    cases hf

theorem FlightsLed.cases (hmoved : Moved u s n c a s' pc) (hf : s'.flights.get? key = some f) :
    f.leader = n ∧ key = cacheKey u c.query ∧ pc.Leads ∨
      ∃ g, s.flights.get? key = some g ∧ g.leader = f.leader ∧ (g.leader = n → pc.Leads) := by
  -- a leader that does not lead on has removed its flight
  have hkept {g : Flight} (hg : s.flights.get? key = some g) (hleader : g.leader = f.leader)
      (hn : g.leader = n) : pc.Leads := by
    obtain ⟨d, hd, -, hleads⟩ := h key g hg
    rw [hn, hc] at hd
    cases hd
    refine (hmoved.leads_cases hleads).resolve_right fun hlands => ?_
    rw [hlands.1] at hf
    exact (h.removeFlight hc hf).2 (hleader ▸ hn)
  rcases hmoved.flights_cases with hflights | ⟨hflights, hleads⟩ | ⟨g, hg, hflights⟩ | hflights
  · rw [hflights] at hf
    exact .inr ⟨f, hf, rfl, hkept hf rfl⟩
  · rw [hflights] at hf
    rcases set_cases hf with ⟨rfl, rfl⟩ | ⟨-, hold⟩
    · exact .inl ⟨rfl, rfl, hleads⟩
    · exact .inr ⟨f, hold, rfl, hkept hold rfl⟩
  · rw [hflights] at hf
    rcases set_cases hf with ⟨rfl, rfl⟩ | ⟨-, hold⟩
    · exact .inr ⟨g, hg, rfl, hkept hg rfl⟩
    · exact .inr ⟨f, hold, rfl, hkept hold rfl⟩
  · rw [hflights] at hf
    obtain ⟨hold, hne⟩ := h.removeFlight hc hf
    exact .inr ⟨f, hold, rfl, fun hn => absurd hn hne⟩

theorem FlightsLed.moved (hmoved : Moved u s n c a s' pc)
    (hcalls : s'.calls = s.calls.set n { c with pc := pc }) : FlightsLed u s' := by
  intro key f hf
  have hself : s'.calls.get? n = some { c with pc := pc } := by rw [hcalls, get?_set_self]
  rcases h.cases hc hmoved hf with ⟨hn, hkey, hleads⟩ | ⟨g, hg, hleader, hleads⟩
  · exact ⟨{ c with pc := pc }, by rw [hn, hself], hkey.symm, hleads⟩
  obtain ⟨d, hd, hkey, hdleads⟩ := h key g hg
  rw [← hleader]
  by_cases hn : g.leader = n
  · rw [hn, hc] at hd
    cases hd
    exact ⟨{ c with pc := pc }, by rw [hn, hself], hkey, hleads hn⟩
  · refine ⟨d, ?_, hkey, hdleads⟩
    rw [hcalls, get?_set, if_neg hn, hd]

end

theorem FlightsLed.kept (h : FlightsLed u s) (hflights : s'.flights = s.flights)
    (hkept : ∀ m c, s.calls.get? m = some c →
      ∃ c', s'.calls.get? m = some c' ∧ c'.query = c.query ∧ c'.pc = c.pc) : FlightsLed u s' := by
  intro key f hf
  rw [hflights] at hf
  obtain ⟨c, hc, hkey, hleads⟩ := h key f hf
  obtain ⟨c', hc', hquery', hpc'⟩ := hkept f.leader c hc
  exact ⟨c', hc', hquery' ▸ hkey, hpc' ▸ hleads⟩

/-! ## The invariant -/

theorem Inv.answered_of_stored (h : Inv u s) {q : Query} (hq : q.Plain u) {env : Envelope}
    (henv : (cacheKey u q, env) ∈ s.stored) : s.Answered q env.answer := by
  obtain ⟨hanswer, hplain, hkey⟩ := h.stored _ env henv
  exact ⟨hanswer, cacheKey_inj hplain hq hkey⟩

theorem pcSound_bare {q : Query} (hbare : pc.Bare) : PcSound s q ctxDone pc := by
  cases pc with
  | acquire | wait | query | fallback | refreshRelease | ungate | refreshed => trivial
  | _ => cases hbare

theorem pcSound_lands {q : Query} {key : String} {out : FillOutput}
    (hanswered : s.Answered q out.answer) (hlands : Lands key (.ok out) pc) :
    PcSound s q ctxDone pc := by
  obtain ⟨o, rfl, ho⟩ := hlands
  rw [PcSound, ho]
  exact hanswered

theorem Inv.moved_sound (h : Inv u s) (hc : s.calls.get? n = some c)
    (hmoved : Moved u s n c a s' pc) (hgrows : Grows s s')
    (hsource : ∀ cause, a.cause? = some cause → c.pc = .fallback ∧ c.ctxDone = true) :
    PcSound s' c.query c.ctxDone pc := by
  have hplain := h.plain n c hc
  have hsound := (h.calls n c hc).grows hgrows
  cases hmoved with
  | served _ _ hstored hout =>
    rw [PcSound, hout]
    exact (h.answered_of_stored hplain hstored).grows hgrows
  | stale _ _ hstored => exact (h.answered_of_stored hplain hstored).grows hgrows
  | bare _ hbare => exact pcSound_bare hbare
  | gaveUp _ hctx => exact hctx
  | leads => trivial
  | @joins f _ hflight =>
    obtain ⟨d, hd, hkey, hleads⟩ := h.flights _ f hflight
    exact hgrows.led _ _ ⟨d, hd, cacheKey_inj (h.plain _ d hd) hplain hkey, .inl hleads⟩
  | answered _ hasked _ hanswers =>
    refine ⟨?_, hasked⟩
    rw [hanswers]
    exact mem_concat_self
  | failed hpc hcause =>
    have hfallback := (hsource _ hcause).1
    rw [hpc] at hfallback
    cases hfallback
  | fellBack _ hasked _ hanswers =>
    refine ⟨?_, hasked⟩
    rw [hanswers]
    exact mem_concat_self
  | fallbackFailed _ hcause => exact (hsource _ hcause).2
  | @stored role out _ hpc =>
    rw [hpc] at hsound
    cases role with
    | winner => exact ⟨out.own, rfl, hsound⟩
    | leader => exact ⟨out, rfl, hsound⟩
    | refresh => trivial
  | landed hpc _ _ hlands =>
    rw [hpc] at hsound
    obtain ⟨out, rfl, hanswered⟩ := hsound
    exact pcSound_lands hanswered hlands
  | @woke leader fill _ hpc hlanded hlands =>
    have hled := h.calls n c hc
    rw [hpc] at hled
    obtain ⟨d, hd, hquery, -⟩ := hled
    obtain ⟨d', out, hd', rfl, hanswered⟩ := h.landed leader fill hlanded
    rw [hd] at hd'
    cases hd'
    rw [hquery] at hanswered
    exact pcSound_lands (hanswered.grows hgrows) hlands
  | released hpc =>
    rw [hpc] at hsound
    obtain ⟨out, rfl, hanswered⟩ := hsound
    exact hanswered
  | revalidated hpc hout =>
    rw [hpc] at hsound
    rw [PcSound, hout]
    exact hsound

theorem Inv.moved (h : Inv u s) (hc : s.calls.get? n = some c) (hmoved : Moved u s n c a s' pc)
    (hcalls : s'.calls = s.calls.set n { c with pc := pc })
    (hsource : ∀ cause, a.cause? = some cause → c.pc = .fallback ∧ c.ctxDone = true) :
    Inv u s' := by
  have hgrows := hmoved.grows hc hcalls
  have hself : s'.calls.get? n = some { c with pc := pc } := by rw [hcalls, get?_set_self]
  have hquery {m : Nat} {d : Call} (hd : s.calls.get? m = some d) :
      ∃ d', s'.calls.get? m = some d' ∧ d'.query = d.query := by
    by_cases hm : m = n
    · rw [hm, hc] at hd
      cases hd
      exact ⟨{ c with pc := pc }, by rw [hm, hself], rfl⟩
    · exact ⟨d, by rw [hcalls, get?_set, if_neg hm, hd], rfl⟩
  constructor
  · rw [hmoved.stations]
    exact h.stations
  · intro key env henv
    rcases hmoved.stored_cases henv with hold | ⟨role, out, hpc, rfl, hanswer⟩
    · obtain ⟨hanswer, hplain⟩ := h.stored key env hold
      exact ⟨hgrows.answers _ hanswer, hplain⟩
    have hsound := h.calls n c hc
    rw [hpc] at hsound
    rw [hanswer, hsound.2]
    exact ⟨hgrows.answers _ hsound.1, h.plain n c hc, rfl⟩
  · exact h.flights.moved hc hmoved hcalls
  · intro leader fill hfill
    rcases hmoved.get?_landed hfill with hold | ⟨hn, hpc, -⟩
    · obtain ⟨d, out, hd, hout, hanswered⟩ := h.landed leader fill hold
      obtain ⟨d', hd', hq⟩ := hquery hd
      exact ⟨d', out, hd', hout, hq ▸ hanswered.grows hgrows⟩
    have hsound := h.calls n c hc
    rw [hpc] at hsound
    obtain ⟨out, hout, hanswered⟩ := hsound
    exact ⟨{ c with pc := pc }, out, by rw [hn, hself], hout, hanswered.grows hgrows⟩
  · intro m d hd
    rw [hcalls] at hd
    rcases set_cases hd with ⟨-, rfl⟩ | ⟨-, hd⟩
    · exact h.plain n c hc
    · exact h.plain m d hd
  intro m d hd
  rw [hcalls] at hd
  rcases set_cases hd with ⟨-, rfl⟩ | ⟨-, hd⟩
  · show PcSound s' c.query c.ctxDone pc
    exact h.moved_sound hc hmoved hgrows hsource
  · exact (h.calls m d hd).grows hgrows

theorem Inv.put (h : Inv u s) (hsame : Same s s') {d : Call} (hcalls : s'.calls = s.calls.set n d)
    (hold : ∀ c, s.calls.get? n = some c → d.query = c.query ∧ d.pc = c.pc)
    (hplain : d.query.Plain u) (hsound : PcSound s d.query d.ctxDone d.pc) : Inv u s' := by
  have hkept {m : Nat} {c : Call} (hc : s.calls.get? m = some c) :
      ∃ c', s'.calls.get? m = some c' ∧ c'.query = c.query ∧ c'.pc = c.pc := by
    by_cases hm : m = n
    · rw [hm] at hc
      exact ⟨d, by rw [hcalls, hm, get?_set_self], hold c hc⟩
    · exact ⟨c, by rw [hcalls, get?_set, if_neg hm, hc], rfl, rfl⟩
  have hgrows : Grows s s' := by
    refine ⟨fun x hx => hsame.answers ▸ hx, fun q leader hled => ?_⟩
    obtain ⟨c, hc, hquery, hflight⟩ := hled
    obtain ⟨c', hc', hquery', hpc'⟩ := hkept hc
    exact ⟨c', hc', hquery'.trans hquery, by rw [hpc', hsame.landed]; exact hflight⟩
  constructor
  · rw [hsame.stations]
    exact h.stations
  · rw [hsame.stored, hsame.answers]
    exact h.stored
  · exact h.flights.kept hsame.flights fun _ _ => hkept
  · intro leader fill hfill
    rw [hsame.landed] at hfill
    obtain ⟨c, out, hc, hout, hanswered⟩ := h.landed leader fill hfill
    obtain ⟨c', hc', hquery', -⟩ := hkept hc
    exact ⟨c', out, hc', hout, hquery' ▸ hanswered.grows hgrows⟩
  · intro m c hc
    rw [hcalls] at hc
    rcases set_cases hc with ⟨-, rfl⟩ | ⟨-, hc⟩
    · exact hplain
    · exact h.plain m c hc
  intro m c hc
  rw [hcalls] at hc
  rcases set_cases hc with ⟨-, rfl⟩ | ⟨-, hc⟩
  · exact hsound.grows hgrows
  · exact (h.calls m c hc).grows hgrows

theorem Inv.congr (h : Inv u s) (hstored : s'.stored = s.stored) (hanswers : s'.answers = s.answers)
    (hcalls : s'.calls = s.calls) (hflights : s'.flights = s.flights)
    (hlanded : s'.landed = s.landed) (hstations : ∀ code ∈ s'.stations, ':' ∉ code.toList) :
    Inv u s' := by
  have hgrows : Grows s s' := by
    refine ⟨fun x hx => hanswers ▸ hx, fun q leader hled => ?_⟩
    obtain ⟨c, hc, hflight⟩ := hled
    exact ⟨c, hcalls ▸ hc, hlanded ▸ hflight⟩
  constructor
  · exact hstations
  · rw [hstored, hanswers]
    exact h.stored
  · exact h.flights.kept hflights fun _ c hc => ⟨c, hcalls ▸ hc, rfl, rfl⟩
  · intro leader fill hfill
    rw [hlanded] at hfill
    obtain ⟨c, out, hc, hout, hanswered⟩ := h.landed leader fill hfill
    exact ⟨c, out, hcalls ▸ hc, hout, hanswered.grows hgrows⟩
  · rw [hcalls]
    exact h.plain
  · intro m c hc
    rw [hcalls] at hc
    exact (h.calls m c hc).grows hgrows

/-! ## Every step -/

def PlainCodes : Label → Prop
  | .refreshStations codes => ∀ code ∈ codes, ':' ∉ code.toList
  | _ => True

/-- The source answers, unless `fallback` asks it on the context of a request that is over. -/
def SourceAnswers (s : State) : Label → Prop
  | .answer n (.error _) _ _ => ∀ c ∈ s.calls.get? n, c.pc = .fallback ∧ c.ctxDone = true
  | _ => True

instance : ∀ a, Decidable (PlainCodes a) := fun _ => by
  unfold PlainCodes
  split <;> infer_instance

instance (s : State) : ∀ a, Decidable (SourceAnswers s a) := fun _ => by
  unfold SourceAnswers
  split <;> infer_instance

variable {classes : List String} {windowDays : Int} {p : Params}

theorem SourceAnswers.cause (hsource : SourceAnswers s a) (hcall : a.call? = some n)
    (hc : s.calls.get? n = some c) {cause : String} (hcause : a.cause? = some cause) :
    c.pc = .fallback ∧ c.ctxDone = true := by
  cases a with
  | answer m reply =>
    obtain rfl : m = n := Option.some.inj hcall
    cases reply with
    | ok => cases hcause
    | error => exact hsource c hc
  | get _ reply => cases reply <;> cases hcause
  | _ => cases hcause

theorem Spawned.get?_calls {q : Query} (hspawned : Spawned s t q)
    (hc : s.calls.get? n = some c) : t.calls.get? n = some c := by
  rcases hspawned.2 with hcalls | ⟨worker, hfree, hcalls⟩
  · rw [hcalls, hc]
  rw [hcalls, get?_set, if_neg, hc]
  rintro rfl
  rw [hc] at hfree
  cases hfree

theorem Inv.spawned (h : Inv u s) {q : Query} (hspawned : Spawned s t q)
    (hplain : q.Plain u) : Inv u t := by
  obtain ⟨hsame, hcalls | ⟨worker, hfree, hcalls⟩⟩ := hspawned
  · exact h.congr hsame.stored hsame.answers hcalls hsame.flights hsame.landed
      (hsame.stations ▸ h.stations)
  refine h.put hsame hcalls (fun d hd => ?_) hplain trivial
  rw [hfree] at hd
  cases hd

theorem pcSound_ctxDone {q : Query} {b b' : Bool} (hpc : ∀ r, pc ≠ .done r)
    (hsound : PcSound s q b pc) : PcSound s q b' pc := by
  cases pc with
  | done r => exact absurd rfl (hpc r)
  | _ => exact hsound

theorem step_inv (h : Inv u s) (hcodes : PlainCodes a) (hsource : SourceAnswers s a)
    (hstep : step u classes windowDays p s a = some s') : Inv u s' := by
  cases step_trans hstep with
  | moves hcall hc hnext =>
    obtain ⟨t, pc, hspawned, hmoved, hcalls⟩ := next_steps hnext
    exact (h.spawned hspawned (h.plain _ _ hc)).moved (hspawned.get?_calls hc) hmoved hcalls
      fun cause hcause => hsource.cause hcall hc hcause
  | stations codes => exact h.congr rfl rfl rfl rfl rfl hcodes
  | rejected => exact h
  | starts hfree hvalid =>
    refine h.put ⟨rfl, rfl, rfl, rfl, rfl, rfl⟩ rfl (fun d hd => ?_)
      (plain_of_check h.stations hvalid) trivial
    rw [hfree] at hd
    cases hd
  | @cancels n c hc hpc =>
    refine h.put ⟨rfl, rfl, rfl, rfl, rfl, rfl⟩ rfl (fun d hd => ?_) (h.plain n c hc)
      (pcSound_ctxDone hpc (h.calls n c hc))
    rw [hc] at hd
    cases hd
    exact ⟨rfl, rfl⟩
  | invalidates raw reply =>
    rw [State.invalidate]
    split
    · exact h.congr rfl rfl rfl rfl rfl h.stations
    · exact h
  | expires => exact h.congr rfl rfl rfl rfl rfl h.stations

theorem inv_initial : Inv u initial where
  stations _ hcode := nomatch hcode
  stored _ _ henv := nomatch henv
  flights _ _ hf := nomatch hf
  landed _ _ hfill := nomatch hfill
  plain _ _ hc := nomatch hc
  calls _ _ hc := nomatch hc

end

end GoServices.RailCache.Search
