/-
Sessions and device slots over whole runs of the playback server.

Every step of the server is one or two of the changes that keep `Consistent`.
-/
import GoServices.Playback.Ownership

namespace GoServices.Playback

open List Table Manager Option

/-! ## One step -/

section Step
variable {limit : String → Nat} {ttl : Int} {s s' : State} {now : Int}

theorem SlotsKept.of_reaped {m : Manager} (hnow : now ≤ s.clock)
    (hback : ∀ a d dev, m.slot a d = some dev → s.manager.slot a d = some dev)
    (hforth : ∀ a d old, s.manager.slot a d = some old →
      m.slot a d = some old ∨ old.expiresAt ≤ now) : SlotsKept s m where
  back := fun a d dev h => ⟨dev, hback a d dev h, rfl⟩
  forth := by
    intro a d old h
    rcases hforth a d old h with h | hle
    · exact .inl ⟨old, h, rfl, le_refl _⟩
    · exact .inr (.inl (hle.trans hnow))

theorem slotsKept_reapExpired (hnow : now ≤ s.clock) :
    SlotsKept s (s.manager.reapExpired now) := by
  refine .of_reaped hnow (fun a d dev h => ?_) (fun a d old h => ?_)
  · rw [slot_reapExpired] at h
    exact (unexpired_eq_some.mp h).1
  · rw [slot_reapExpired]
    exact unexpired_of_some h

variable {sid a d : String}

theorem slotsKept_release (hgone : Gone s sid) (hok : s.releasable sid a d = true) :
    SlotsKept s (s.manager.release a d) where
  back := by
    intro a' d' dev h
    rw [slot_release] at h
    split at h <;> try cases h
    exact ⟨dev, h, rfl⟩
  forth := by
    intro a' d' old h
    rw [slot_release]
    split
    · rename_i had
      rw [had.1, had.2] at h
      rw [State.releasable, h, all_some, decide_eq_true_eq] at hok
      exact .inr (.inr (hok ▸ hgone))
    · exact .inl ⟨old, h, rfl, le_refl _⟩

variable {exp : Int}

theorem slotsKept_refresh (hok : (s.manager.slot a d).all fun dev => dev.expiresAt ≤ exp) :
    SlotsKept s (s.manager.refresh a d exp).1 where
  back := by
    intro a' d' dev h
    rw [slot_refresh] at h
    split at h
    · rename_i had
      obtain ⟨old, hold, rfl⟩ := map_eq_some_iff.mp h
      exact ⟨old, had.1 ▸ had.2 ▸ hold, rfl⟩
    · exact ⟨dev, h, rfl⟩
  forth := by
    intro a' d' old h
    rw [slot_refresh]
    split
    · rename_i had
      rw [had.1, had.2] at h
      rw [h, all_some, decide_eq_true_eq] at hok
      rw [h]
      exact .inl ⟨{ old with expiresAt := exp }, rfl, rfl, hok⟩
    · exact .inl ⟨old, h, rfl, le_refl _⟩

theorem slotsKept_existing {m : Manager} {dev : Device}
    (hnow : now ≤ s.clock) (hslot : s.manager.slot a d = some dev) (hle : dev.expiresAt ≤ exp)
    (hslots : ∀ a' d', m.slot a' d' = if a' = a ∧ d' = d then some { dev with expiresAt := exp }
      else s.manager.reapedFor a now a' d') : SlotsKept s m where
  back := by
    intro a' d' dev' h
    rw [hslots] at h
    split at h
    · rename_i had
      cases h
      exact ⟨dev, had.1 ▸ had.2 ▸ hslot, rfl⟩
    · exact ⟨dev', slot_of_reapedFor h, rfl⟩
  forth := by
    intro a' d' old h
    rw [hslots]
    split
    · rename_i had
      rw [had.1, had.2, hslot] at h
      cases h
      exact .inl ⟨_, rfl, rfl, hle⟩
    · rcases reapedFor_of_slot h a now with hlive | hexp
      · exact .inl ⟨old, hlive, rfl, le_refl _⟩
      · exact .inr (.inl (hexp.trans hnow))

variable {r : Nat}

theorem Consistent.admitDevice (hs : Consistent limit s) {asset candidate : String}
    (hr : s.requests.get? r = some (.admitDevice a d asset now))
    (hfresh : s.drawn.get? candidate = none)
    (hok : (s.manager.slot a d).all fun dev => dev.expiresAt ≤ now || dev.expiresAt ≤ now + ttl) :
    Consistent limit (s.admitDevice limit ttl r a d asset now candidate) := by
  have hnow : now ≤ s.clock := hs.requests _ _ hr
  have hrefresh : ∀ sid a d exp, s.requests.get? r ≠ some (.refresh sid a d exp) := by
    intro sid a' d' exp h
    rw [hr] at h
    cases h
  have hwithin := hs.within.admitDevice a d now (now + ttl) candidate
  have hadmits := s.manager.admits a d (limit a) now (now + ttl) candidate
  rw [State.admitDevice]
  generalize s.manager.admitDevice a d (limit a) now (now + ttl) candidate = res
    at hwithin hadmits ⊢
  obtain ⟨m, sid⟩ := res
  -- the id is drawn whatever `Admit` answers
  have hdraw := hs.draw hfresh (a, d)
  cases hadmits with
  | existing hslot hlive hslots =>
    rename_i dev
    have hle : dev.expiresAt ≤ now + ttl := by
      rw [hslot, all_some, Bool.or_eq_true, decide_eq_true_eq, decide_eq_true_eq] at hok
      omega
    have hsid : s.drawn.get? dev.sessionID = some (a, d) := hs.slots a d dev hslot
    have hne : dev.sessionID ≠ candidate := ne_of_drawn hfresh hsid
    have hkept := slotsKept_existing (s := { s with drawn := s.drawn.set candidate (a, d) })
      hnow hslot hle hslots
    simp only [if_neg hne]
    refine (hdraw.setManager hkept hwithin).moveOn hrefresh nofun ?_
    refine ⟨?_, .inl ⟨{ dev with expiresAt := now + ttl }, ?_, rfl, le_refl _⟩⟩
    · rw [get?_set, if_neg hne, hsid]
    · exact (hslots a d).trans (if_pos ⟨rfl, rfl⟩)
  | denied hslots =>
    refine (hdraw.setManager (.of_reaped hnow ?_ ?_) hwithin).moveOn hrefresh
      nofun trivial
    · intro a' d' dev h
      rw [hslots] at h
      exact slot_of_reapedFor h
    intro a' d' old h
    rw [hslots]
    exact reapedFor_of_slot h a now
  | fresh hslot hslots =>
    simp only [if_true]
    exact hs.fresh ⟨rfl, rfl⟩ hfresh hnow hwithin hslot hslots hrefresh

variable {pc : Pc}

theorem Consistent.extend (hs : Consistent limit s) (hput : ∀ sid sess, pc ≠ .put sid sess)
    (hsound : ∀ sessions, pc.Sound { s with sessions := sessions })
    (hdrawn : s.drawn.get? sid = some (a, d))
    (hrefresh : ∀ sid a d exp, s.requests.get? r ≠ some (.refresh sid a d exp))
    (hcovered : s.clock < exp → ¬ Gone s sid → Carries s sid a d exp ∨ pc = .refresh sid a d exp) :
    Consistent limit ({ s with sessions := s.sessions.extend sid exp }.setPc r pc) := by
  cases hsess : s.sessions.get? sid with
  | none =>
    rw [Sessions.extend, hsess]
    exact hs.moveOn hrefresh hput (hsound s.sessions)
  | some sess =>
    rw [Sessions.extend, hsess]
    obtain ⟨hdrawn', -⟩ := hs.sessions sid sess hsess
    have had : a = sess.accountID ∧ d = sess.deviceID := by
      rw [hdrawn] at hdrawn'
      exact Prod.mk.inj (some.inj hdrawn')
    have hgone : ¬ Gone s sid := by
      intro h
      rw [h.1] at hsess
      cases hsess
    refine hs.write rfl hput ?_ hdrawn' hgone ?_ hrefresh ?_
    · have hk : Keeps { s with sessions := s.sessions.set sid { sess with expiresAt := exp } }
          ({ s with sessions := s.sessions.set sid { sess with expiresAt := exp } }.setPc r pc) :=
        .setPc hput
      exact hk.sound (get?_set_self _ r _) (fun _ _ _ h => h) (hsound _)
    · intro r' sess' h
      have hnone := (hs.requests _ _ h).2.1
      rw [hsess] at hnone
      cases hnone
    intro hlive
    rcases hcovered hlive hgone with hcarries | rfl
    · rw [had.1, had.2] at hcarries
      exact .inl hcarries
    · rw [had.1, had.2]
      exact .inr ⟨r, exp, get?_set_self _ r _, le_refl _⟩

theorem get?_of_get {sessions : Sessions} {sess : Session} (h : sessions.get sid now = some sess) :
    sessions.get? sid = some sess := by
  rw [Sessions.get] at h
  split at h
  · cases h
  rename_i sess' hsess
  split at h <;> cases h
  exact hsess

section
variable (hs : Consistent limit s)
include hs

theorem Consistent.gone_of_removed {sess : Session} (hsess : s.sessions.get? sid = some sess)
    {sessions : Sessions} (hnone : sessions.get? sid = none) :
    Gone { s with sessions := sessions } sid := by
  refine ⟨hnone, fun r sess' h => ?_⟩
  have hold := (hs.requests _ _ h).2.1
  rw [hsess] at hold
  cases hold

theorem Consistent.delete (hr : s.requests.get? r = some (.delete a sid))
    (h : s.next ttl r (.delete a sid) = some s') : Consistent limit s' := by
  have hrefresh : ∀ sid a d exp, s.requests.get? r ≠ some (.refresh sid a d exp) := by
    intro sid a' d' exp h
    rw [hr] at h
    cases h
  have herase : Consistent limit { s with sessions := s.sessions.erase sid } := by
    refine hs.of_sessions (le_refl _) rfl rfl rfl (fun sid' sess h => ?_) (.inl rfl)
    rw [get?_erase] at h
    split at h <;> try cases h
    exact h
  cases hsess : s.sessions.get? sid with
  | none =>
    rw [State.next, Sessions.delete, hsess] at h
    cases h
    exact herase.moveOn hrefresh nofun trivial
  | some sess =>
    rw [State.next, Sessions.delete, hsess] at h
    cases h
    refine herase.moveOn hrefresh ?_ ?_
    · intro sid' sess' h
      split at h <;> cases h
    split
    · rename_i ha
      refine ⟨ha ▸ (hs.sessions sid sess hsess).1, hs.gone_of_removed hsess ?_⟩
      rw [get?_erase, if_pos rfl]
    · trivial

theorem Consistent.refresh {response : Response}
    (hr : s.requests.get? r = some (.refresh sid a d exp))
    (howns : s.playing sid = true → s.owns sid a d = true)
    (hle : (s.manager.slot a d).all fun dev => dev.expiresAt ≤ exp) :
    Consistent limit ({ s with manager := (s.manager.refresh a d exp).1 }.setPc r
      (.done response)) := by
  refine (hs.setManager (slotsKept_refresh hle) (hs.within.refresh a d exp)).setPc
    nofun trivial ?_
  intro sid' a' d' exp' h hplaying
  rw [show s.requests.get? r = some (.refresh sid' a' d' exp') from h] at hr
  cases hr
  obtain ⟨dev, hslot, hsid⟩ := owns_iff.mp (howns hplaying)
  refine ⟨{ dev with expiresAt := exp }, ?_, hsid, le_refl _⟩
  exact (slot_refresh ..).trans ((if_pos ⟨rfl, rfl⟩).trans (by rw [hslot]; rfl))

theorem Consistent.next (hr : s.requests.get? r = some pc) (hok : respected ttl s (.next r) = true)
    (h : s.next ttl r pc = some s') : Consistent limit s' := by
  have hsound := hs.requests r pc hr
  have hrefresh (hpc : ∀ sid a d exp, pc ≠ .refresh sid a d exp) :
      ∀ sid a d exp, s.requests.get? r ≠ some (.refresh sid a d exp) := by
    intro sid a d exp h
    rw [hr] at h
    exact hpc sid a d exp (some.inj h)
  cases pc with
  | admitDevice a d asset now | done response => cases h
  | put sid sess =>
    obtain ⟨hdrawn, -, hcarries⟩ := hsound
    cases h
    refine hs.write rfl nofun trivial hdrawn (fun hgone => hgone.2 r sess hr)
      (fun r' sess' h => hs.puts _ _ _ _ _ h hr) (hrefresh nofun) ?_
    intro hlive
    rcases hcarries with hcarries | hexp
    · exact .inl hcarries
    · omega
  | extendOwner sid a d exp =>
    obtain ⟨hdrawn, hcarries⟩ := hsound
    cases h
    refine hs.extend nofun (fun _ => trivial) hdrawn
      (hrefresh nofun) ?_
    intro hlive hgone
    rcases hcarries with hcarries | hexp | hgone'
    · exact .inl hcarries
    · omega
    · exact absurd hgone' hgone
  | get a sid now =>
    have hstay := hrefresh nofun
    rw [State.next] at h
    split at h
    · rename_i sess hsess
      split at h <;> cases h
      · rename_i ha
        exact hs.moveOn hstay nofun
          (ha ▸ (hs.sessions sid sess (get?_of_get hsess)).1)
      · exact hs.moveOn hstay nofun trivial
    · cases h
      exact hs.moveOn hstay nofun trivial
  | extend sid a d exp =>
    cases h
    exact hs.extend nofun (fun _ => hsound) hsound
      (hrefresh nofun) fun _ _ => .inr rfl
  | refresh sid a d exp =>
    rw [respected, hr, Bool.and_eq_true, Bool.or_eq_true, Bool.not_eq_true'] at hok
    cases h
    refine hs.refresh hr (fun hplaying => ?_) hok.2
    exact hok.1.resolve_left (by rw [hplaying]; exact Bool.noConfusion)
  | delete a sid => exact hs.delete hr h
  | release sid a d =>
    rw [respected, hr] at hok
    cases h
    exact (hs.setManager (slotsKept_release hsound.2 hok) (hs.within.release a d)).moveOn
      (hrefresh nofun) nofun trivial

end

variable (clock : Int)

def Pc.Starts : Pc → Prop
  | .admitDevice _ _ _ now => now = clock
  | .get .. | .delete .. | .done _ => True
  | _ => False

theorem startAuthorize_starts (a : String) (body : Option (String × String)) :
    (startAuthorize clock a body).Starts clock := by
  fun_cases startAuthorize clock a body with
  | case1 => trivial
  | case2 => rfl
  | case3 => trivial

theorem startHeartbeat_starts (a : String) (body : Option String) :
    (startHeartbeat clock a body).Starts clock := by
  fun_cases startHeartbeat clock a body <;> trivial

theorem startStop_starts (a : String) (body : Option String) :
    (startStop a body).Starts clock := by
  fun_cases startStop a body <;> trivial

theorem Consistent.start (hs : Consistent limit s) (hpc : pc.Starts s.clock)
    (h : s.start r pc = some s') : Consistent limit s' := by
  rw [State.start] at h
  split at h <;> cases h
  rename_i hr
  refine hs.moveOn (fun sid a d exp h => ?_) (fun sid sess heq => ?_) ?_
  · rw [hr] at h
    cases h
  · subst heq
    exact hpc
  cases pc with
  | admitDevice _ _ _ now => exact le_of_eq hpc
  | get _ _ _ | delete _ _ | done _ => trivial
  | _ => exact hpc.elim

theorem Consistent.sweepSessions (hs : Consistent limit s)
    (hsweep : s.sweeper = .reapSessions now) :
    Consistent limit { s with
      sessions := (s.sessions.reapExpired now).1
      sweeper := .release now (s.sessions.reapExpired now).2 } := by
  have hnow : now ≤ s.clock := by
    have h := hs.sweeper
    rw [hsweep] at h
    exact h
  refine hs.of_sessions (le_refl _) rfl rfl rfl (fun sid sess h => ?_)
    (.inr ⟨hnow, fun e he => ?_⟩)
  · rw [Sessions.reapExpired, get?_filter] at h
    exact eq_some_of_filter_eq_some h
  obtain ⟨hmem, hexp⟩ := mem_filter.mp he
  have hsess := mem_toList.mp hmem
  refine ⟨(hs.sessions e.1 e.2 hsess).1, hs.gone_of_removed hsess ?_⟩
  rw [Sessions.reapExpired, get?_filter, hsess, filter_some, if_neg]
  simpa using hexp

theorem Consistent.sweepRelease (hs : Consistent limit s) {expired : List (String × Session)}
    (hsweep : s.sweeper = .release now expired) {i : Nat} {e : String × Session}
    (he : expired[i]? = some e) (hok : s.releasable e.1 e.2.accountID e.2.deviceID = true) :
    Consistent limit { s with
      manager := s.manager.release e.2.accountID e.2.deviceID
      sweeper := .release now (expired.eraseIdx i) } := by
  have hsound := hs.sweeper
  rw [hsweep] at hsound
  have hgone := (hsound.2 e (mem_of_getElem? he)).2
  have hreleased := hs.setManager (slotsKept_release hgone hok) (hs.within.release _ _)
  refine hreleased.of_sessions (le_refl _) rfl rfl rfl (fun _ _ h => h) (.inr ⟨hsound.1, ?_⟩)
  exact fun e' he' => hsound.2 e' (mem_of_mem_eraseIdx he')

theorem Consistent.step {a : Label} (hs : Consistent limit s) (hok : respected ttl s a = true)
    (h : step limit ttl s a = some s') : Consistent limit s' := by
  revert h
  fun_cases Playback.step limit ttl s a <;> intro h <;> try cases h
  · exact hs.of_sessions ‹_› rfl rfl rfl (fun _ _ h => h) (.inl rfl)
  · exact hs.start (startAuthorize_starts _ _ _) h
  · exact hs.start (startHeartbeat_starts _ _ _) h
  · exact hs.start (startStop_starts _ _ _) h
  · rename_i hfresh hr
    rw [respected, hr] at hok
    exact hs.admitDevice hr hfresh hok
  · obtain ⟨pc, hr, h⟩ := bind_eq_some_iff.mp h
    exact hs.next hr hok h
  · exact hs.of_sessions (le_refl _) rfl rfl rfl (fun _ _ h => h) (.inr (le_refl s.clock))
  · rename_i hsweep sessions expired hreap
    have hswept := hs.sweepSessions hsweep
    rw [hreap] at hswept
    exact hswept
  · rename_i hsweep sid sess he
    rw [respected, hsweep] at hok
    simp only [he, all_some] at hok
    exact hs.sweepRelease hsweep he hok
  · rename_i now hsweep
    have hsound := hs.sweeper
    rw [hsweep] at hsound
    have hreaped := hs.setManager (slotsKept_reapExpired hsound.1) (hs.within.reapExpired now)
    exact hreaped.of_sessions (le_refl _) rfl rfl rfl (fun _ _ h => h) (.inr trivial)

end Step

/-! ## Whole runs -/

section Runs
variable {limit : String → Nat} {ttl : Int} {as : List Label} {s : State}

theorem consistent_run (hrun : run (step limit ttl) initial as = some s)
    (hok : RunMeets (step limit ttl) (fun s a => respected ttl s a = true) initial as) :
    Consistent limit s :=
  run_invariant_of_meets (fun _ _ _ hs hok h => hs.step hok h) (consistent_initial limit) hok hrun

def Pc.isDone : Pc → Bool
  | .done _ => true
  | _ => false

def State.quiet (s : State) : Prop := ∀ r pc, s.requests.get? r = some pc → pc.isDone = true
  deriving Decidable

def State.unexpiredSessions (s : State) (account : String) : List (String × Session) :=
  s.sessions.toList.filter fun e => e.2.accountID = account && decide (s.clock < e.2.expiresAt)

theorem mem_unexpiredSessions {account : String} {e : String × Session} :
    e ∈ s.unexpiredSessions account ↔
      s.sessions.get? e.1 = some e.2 ∧ e.2.accountID = account ∧ s.clock < e.2.expiresAt := by
  rw [State.unexpiredSessions, mem_filter, Bool.and_eq_true, decide_eq_true_eq, decide_eq_true_eq]
  exact and_congr_left' mem_toList

section
variable (hs : Consistent limit s) (hquiet : s.quiet)
include hs hquiet

theorem Consistent.carries {sid : String} {sess : Session} (hsess : s.sessions.get? sid = some sess)
    (hlive : s.clock < sess.expiresAt) :
    Carries s sid sess.accountID sess.deviceID sess.expiresAt := by
  rcases (hs.sessions sid sess hsess).2 hlive with hcarries | ⟨r, h, hr, -⟩
  · exact hcarries
  · cases hquiet r _ hr

theorem Consistent.devices_nodup (account : String) :
    ((s.unexpiredSessions account).map fun e => e.2.deviceID).Nodup := by
  refine Nodup.map_on ?_ (s.sessions.toList_nodup.filter _)
  intro e he e' he' hdevice
  obtain ⟨hsess, haccount, hlive⟩ := mem_unexpiredSessions.mp he
  obtain ⟨hsess', haccount', hlive'⟩ := mem_unexpiredSessions.mp he'
  obtain ⟨dev, hslot, hsid, -⟩ := hs.carries hquiet hsess hlive
  obtain ⟨dev', hslot', hsid', -⟩ := hs.carries hquiet hsess' hlive'
  rw [haccount', ← hdevice, ← haccount, hslot] at hslot'
  cases hslot'
  have hkey : e.1 = e'.1 := hsid.symm.trans hsid'
  rw [← hkey, hsess] at hsess'
  exact Prod.ext hkey (some.inj hsess')

theorem Consistent.length_unexpiredSessions_le (account : String) :
    (s.unexpiredSessions account).length ≤ limit account := by
  cases hacct : s.manager.acct.get? account with
  | none =>
    -- without the account there is no slot, hence no unexpired session
    have hnil : s.unexpiredSessions account = [] := by
      rw [eq_nil_iff_forall_not_mem]
      intro e he
      obtain ⟨hsess, haccount, hlive⟩ := mem_unexpiredSessions.mp he
      obtain ⟨dev, hslot, -⟩ := hs.carries hquiet hsess hlive
      rw [haccount, slot_of_acct_none hacct] at hslot
      cases hslot
    rw [hnil]
    exact Nat.zero_le _
  | some acc =>
    refine le_trans ?_ (hs.within account acc hacct)
    rw [← length_map (fun e : String × Session => e.2.deviceID)]
    refine length_le_len (hs.devices_nodup hquiet account) fun d hd => ?_
    obtain ⟨e, he, rfl⟩ := mem_map.mp hd
    obtain ⟨hsess, haccount, hlive⟩ := mem_unexpiredSessions.mp he
    obtain ⟨dev, hslot, -⟩ := hs.carries hquiet hsess hlive
    rw [haccount, slot_of_acct hacct] at hslot
    exact ⟨dev, hslot⟩

end

/-- In every run whose steps all respect the owners of the slots, and in every state of
it with no request in flight: an unexpired session has a live slot that carries its id,
and an account has at most as many unexpired sessions as its device limit. -/
theorem unexpired_sessions_own_slots (hrun : run (step limit ttl) initial as = some s)
    (hok : RunMeets (step limit ttl) (fun s a => respected ttl s a = true) initial as)
    (hquiet : s.quiet) :
    (∀ sid sess, s.sessions.get? sid = some sess → s.clock < sess.expiresAt →
      ∃ dev, s.manager.slot sess.accountID sess.deviceID = some dev ∧ dev.sessionID = sid ∧
        s.clock < dev.expiresAt) ∧
    ∀ account, (s.unexpiredSessions account).length ≤ limit account := by
  have hs := consistent_run hrun hok
  refine ⟨fun sid sess hsess hlive => ?_, hs.length_unexpiredSessions_le hquiet⟩
  obtain ⟨dev, hslot, hsid, hle⟩ := hs.carries hquiet hsess hlive
  exact ⟨dev, hslot, hsid, hlive.trans_le hle⟩

def watched : List Label :=
  [.authorize 0 "acct" (some ("asset", "tv")), .authorize 1 "acct" (some ("asset", "phone")),
   .admitDevice 0 "s0", .admitDevice 1 "s1", .next 1, .next 0,
   .tick 20000000000, .heartbeat 2 "acct" (some "s0"), .next 2, .next 2, .next 2,
   .tick 35000000000, .sweep, .sweepSessions, .sweepRelease 0, .sweepSlots]

theorem unexpired_sessions_own_slots_watched :
    ∃ s ∈ run (step (fun _ => 2) 30000000000) initial watched,
      (s.sessions.get? "s0").isSome = true ∧ s.sessions.get? "s1" = none ∧
      (∃ dev, s.manager.slot "acct" "tv" = some dev ∧ dev.sessionID = "s0" ∧
        s.clock < dev.expiresAt) ∧
      (s.unexpiredSessions "acct").length ≤ 2 := by
  refine exists_some_imp (A := fun s => s.quiet ∧
    s.sessions.get? "s0" = some ⟨"acct", "tv", "asset", 50000000000⟩ ∧ s.clock = 35000000000 ∧
      s.sessions.get? "s1" = none)
    (by decide) fun s hs ⟨hquiet, hsess, hnone⟩ => ?_
  have h := unexpired_sessions_own_slots hs (by decide) hquiet
  exact ⟨by rw [hsess]; rfl, hnone.2, h.1 _ _ hsess (by rw [hnone.1]; decide), h.2 "acct"⟩

def lateStop : List Label :=
  [.authorize 0 "acct" (some ("asset", "tv")), .admitDevice 0 "s0", .next 0, .tick 35000000000,
   .authorize 1 "acct" (some ("asset", "tv")), .admitDevice 1 "s1", .next 1,
   .stop 2 "acct" (some "s0"), .next 2, .next 2,
   .authorize 3 "acct" (some ("asset", "phone")), .admitDevice 3 "s2", .next 3]

theorem lateStop_takes_slot :
    ∃ s ∈ run (step (fun _ => 1) 30000000000) initial lateStop, s.quiet ∧
      s.playing "s1" = true ∧ s.manager.slot "acct" "tv" = none ∧
      (s.unexpiredSessions "acct").length = 2 := by
  decide

end Runs

end GoServices.Playback
