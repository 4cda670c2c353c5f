/-
Which session owns a device slot, and what keeps sessions and slots in agreement.

A session and its slot are written by separate calls, so the two stores disagree while a request
is between them.
-/
import GoServices.Playback.Server

namespace GoServices.Playback

open Table

/-! ## Which steps respect the owner of a slot -/

variable (s : State)

def State.playing (sid : String) : Bool :=
  (s.sessions.get? sid).any fun sess => s.clock < sess.expiresAt

def State.owns (sid a d : String) : Bool :=
  (s.manager.slot a d).any fun dev => dev.sessionID = sid

theorem owns_iff {s : State} {sid a d : String} :
    s.owns sid a d = true ↔ ∃ dev, s.manager.slot a d = some dev ∧ dev.sessionID = sid := by
  rw [State.owns]
  cases s.manager.slot a d with
  | none | some dev => simp

def State.releasable (sid a d : String) : Bool :=
  (s.manager.slot a d).all fun dev => dev.sessionID = sid

def respected (ttl : Int) (s : State) : Label → Bool
  | .admitDevice request _ =>
    match s.requests.get? request with
    | some (.admitDevice a d _ now) =>
      (s.manager.slot a d).all fun dev => dev.expiresAt ≤ now || dev.expiresAt ≤ now + ttl
    | _ => true
  | .next request =>
    match s.requests.get? request with
    | some (.refresh sid a d exp) =>
      (!s.playing sid || s.owns sid a d) &&
        (s.manager.slot a d).all fun dev => dev.expiresAt ≤ exp
    | some (.release sid a d) => s.releasable sid a d
    | _ => true
  | .sweepRelease index =>
    match s.sweeper with
    | .release _ expired =>
      expired[index]?.all fun e => s.releasable e.1 e.2.accountID e.2.deviceID
    | _ => true
  | _ => true

/-! ## The invariant -/

/-- The slot of the device carries the session's id and lasts until `exp`. -/
def Carries (sid a d : String) (exp : Int) : Prop :=
  ∃ dev, s.manager.slot a d = some dev ∧ dev.sessionID = sid ∧ exp ≤ dev.expiresAt

def Gone (sid : String) : Prop :=
  s.sessions.get? sid = none ∧ ∀ r sess, s.requests.get? r ≠ some (.put sid sess)

def Covered (sid : String) (sess : Session) : Prop :=
  Carries s sid sess.accountID sess.deviceID sess.expiresAt ∨
    ∃ r h, s.requests.get? r = some (.refresh sid sess.accountID sess.deviceID h) ∧
      sess.expiresAt ≤ h

def Pc.Sound : Pc → Prop
  | .admitDevice _ _ _ now => now ≤ s.clock
  | .put sid sess =>
    s.drawn.get? sid = some (sess.accountID, sess.deviceID) ∧ s.sessions.get? sid = none ∧
      (Carries s sid sess.accountID sess.deviceID sess.expiresAt ∨ sess.expiresAt ≤ s.clock)
  | .extendOwner sid a d exp =>
    s.drawn.get? sid = some (a, d) ∧ (Carries s sid a d exp ∨ exp ≤ s.clock ∨ Gone s sid)
  | .extend sid a d _ | .refresh sid a d _ => s.drawn.get? sid = some (a, d)
  | .release sid a d => s.drawn.get? sid = some (a, d) ∧ Gone s sid
  | .get .. | .delete .. | .done _ => True

def Sweep.Sound : Sweep → Prop
  | .idle => True
  | .reapSessions now => now ≤ s.clock
  | .release now expired => now ≤ s.clock ∧ ∀ e ∈ expired,
    s.drawn.get? e.1 = some (e.2.accountID, e.2.deviceID) ∧ Gone s e.1

structure Consistent (limit : String → Nat) (s : State) : Prop where
  within : s.manager.Within limit
  slots : ∀ a d dev, s.manager.slot a d = some dev → s.drawn.get? dev.sessionID = some (a, d)
  sessions : ∀ sid sess, s.sessions.get? sid = some sess →
    s.drawn.get? sid = some (sess.accountID, sess.deviceID) ∧
      (s.clock < sess.expiresAt → Covered s sid sess)
  requests : ∀ r pc, s.requests.get? r = some pc → pc.Sound s
  puts : ∀ r r' sid sess sess', s.requests.get? r = some (.put sid sess) →
    s.requests.get? r' = some (.put sid sess') → r = r'
  sweeper : s.sweeper.Sound s

theorem consistent_initial (limit : String → Nat) : Consistent limit initial where
  within := nofun
  slots := nofun
  sessions := nofun
  requests := nofun
  puts := nofun
  sweeper := trivial

/-! ## What a change of the state leaves in force -/

/-- The facts about sessions that `s` had hold in `s'`, up to those that expired or
belong to a session that is gone. -/
structure Keeps (s s' : State) : Prop where
  clock : s.clock ≤ s'.clock
  drawn : ∀ sid x, s.drawn.get? sid = some x → s'.drawn.get? sid = some x
  carries : ∀ sid a d exp, s.drawn.get? sid = some (a, d) → Carries s sid a d exp →
    Carries s' sid a d exp ∨ exp ≤ s'.clock ∨ Gone s' sid
  gone : ∀ sid x, s.drawn.get? sid = some x → Gone s sid → Gone s' sid

section Keeps
variable {s s' : State}

theorem Keeps.sound (h : Keeps s s') {r : Nat} {pc : Pc} (hr : s'.requests.get? r = some pc)
    (habsent : ∀ sid sess, pc = .put sid sess → s.sessions.get? sid = none →
      s'.sessions.get? sid = none)
    (hpc : pc.Sound s) : pc.Sound s' := by
  cases pc with
  | admitDevice a d asset now => exact hpc.trans h.clock
  | put sid sess =>
    obtain ⟨hdrawn, hnone, hcarries⟩ := hpc
    refine ⟨h.drawn _ _ hdrawn, habsent sid sess rfl hnone, ?_⟩
    rcases hcarries with hcarries | hexp
    · rcases h.carries _ _ _ _ hdrawn hcarries with hcarries | hexp | hgone
      · exact .inl hcarries
      · exact .inr hexp
      · exact absurd hr (hgone.2 r sess)
    · exact .inr (hexp.trans h.clock)
  | extendOwner sid a d exp =>
    obtain ⟨hdrawn, hcarries⟩ := hpc
    refine ⟨h.drawn _ _ hdrawn, ?_⟩
    rcases hcarries with hcarries | hexp | hgone
    · exact h.carries _ _ _ _ hdrawn hcarries
    · exact .inr (.inl (hexp.trans h.clock))
    · exact .inr (.inr (h.gone _ _ hdrawn hgone))
  | extend sid a d exp | refresh sid a d exp => exact h.drawn _ _ hpc
  | release sid a d => exact ⟨h.drawn _ _ hpc.1, h.gone _ _ hpc.1 hpc.2⟩
  | get _ _ _ | delete _ _ | done _ => trivial

theorem Keeps.sweep (h : Keeps s s') {w : Sweep} (hw : w.Sound s) : w.Sound s' := by
  cases w with
  | idle => trivial
  | reapSessions now => exact hw.trans h.clock
  | release now expired =>
    refine ⟨hw.1.trans h.clock, fun e he => ?_⟩
    obtain ⟨hdrawn, hgone⟩ := hw.2 e he
    exact ⟨h.drawn _ _ hdrawn, h.gone _ _ hdrawn hgone⟩

theorem Keeps.covered (h : Keeps s s') {sid : String} {sess : Session}
    (hdrawn : s.drawn.get? sid = some (sess.accountID, sess.deviceID))
    (hsess : s'.sessions.get? sid = some sess) (hlive : s'.clock < sess.expiresAt)
    (hrefresh : ∀ r exp, s.requests.get? r = some (.refresh sid sess.accountID sess.deviceID exp) →
      sess.expiresAt ≤ exp → Covered s' sid sess)
    (hcovered : Covered s sid sess) : Covered s' sid sess := by
  rcases hcovered with hcarries | ⟨r, exp, hr, hle⟩
  · rcases h.carries _ _ _ _ hdrawn hcarries with hcarries | hexp | hgone
    · exact .inl hcarries
    · omega
    · rw [hgone.1] at hsess
      cases hsess
  · exact hrefresh r exp hr hle

end Keeps

section Consistent
variable {limit : String → Nat} {s s' : State}

theorem Consistent.of_keeps (hs : Consistent limit s) (hk : Keeps s s')
    (hwithin : s'.manager.Within limit)
    (hslots : ∀ a d dev, s'.manager.slot a d = some dev → s'.drawn.get? dev.sessionID = some (a, d))
    (hsessions : ∀ sid sess, s'.sessions.get? sid = some sess → s.sessions.get? sid = some sess ∨
      s'.drawn.get? sid = some (sess.accountID, sess.deviceID) ∧
        (s'.clock < sess.expiresAt → Covered s' sid sess))
    (hrefresh : ∀ sid sess, s'.sessions.get? sid = some sess → s'.clock < sess.expiresAt →
      ∀ r exp, s.requests.get? r = some (.refresh sid sess.accountID sess.deviceID exp) →
        sess.expiresAt ≤ exp → Covered s' sid sess)
    (hrequests : ∀ r pc, s'.requests.get? r = some pc → s.requests.get? r = some pc ∨ pc.Sound s')
    (habsent : ∀ r sid sess, s'.requests.get? r = some (.put sid sess) →
      s.sessions.get? sid = none → s'.sessions.get? sid = none)
    (hputs : ∀ r r' sid sess sess', s'.requests.get? r = some (.put sid sess) →
      s'.requests.get? r' = some (.put sid sess') → r = r')
    (hsweeper : s'.sweeper = s.sweeper ∨ s'.sweeper.Sound s') : Consistent limit s' where
  within := hwithin
  slots := hslots
  sessions := by
    intro sid sess h
    rcases hsessions sid sess h with hold | hnew
    · obtain ⟨hdrawn, hcovered⟩ := hs.sessions sid sess hold
      refine ⟨hk.drawn _ _ hdrawn, fun hlive => ?_⟩
      exact hk.covered hdrawn h hlive (hrefresh sid sess h hlive)
        (hcovered (hk.clock.trans_lt hlive))
    · exact hnew
  requests := by
    intro r pc h
    rcases hrequests r pc h with hold | hnew
    · refine hk.sound h (fun sid sess heq => ?_) (hs.requests r pc hold)
      exact habsent r sid sess (heq ▸ h)
    · exact hnew
  puts := hputs
  sweeper := by
    rcases hsweeper with hold | hnew
    · exact hold ▸ hk.sweep hs.sweeper
    · exact hnew

theorem Consistent.of_stores (hs : Consistent limit s) (hk : Keeps s s')
    (hreq : s'.requests = s.requests) (hwithin : s'.manager.Within limit)
    (hslots : ∀ a d dev, s'.manager.slot a d = some dev → s'.drawn.get? dev.sessionID = some (a, d))
    (hsessions : ∀ sid sess, s'.sessions.get? sid = some sess → s.sessions.get? sid = some sess)
    (hsweeper : s'.sweeper = s.sweeper ∨ s'.sweeper.Sound s') : Consistent limit s' := by
  refine hs.of_keeps hk hwithin hslots (fun sid sess h => .inl (hsessions sid sess h)) ?_ ?_ ?_ ?_
    hsweeper
  · exact fun sid sess _ _ r exp hr hle => .inr ⟨r, exp, hreq ▸ hr, hle⟩
  · exact fun r pc h => .inl (hreq ▸ h)
  · exact fun r sid sess _ hnone => get?_eq_none_of_sub (hsessions sid) hnone
  · exact hreq ▸ hs.puts

section
variable (hs : Consistent limit s) (hclock : s.clock ≤ s'.clock) (hmanager : s'.manager = s.manager)
  (hreq : s'.requests = s.requests) (hdrawn : s'.drawn = s.drawn)
  (hsessions : ∀ sid sess, s'.sessions.get? sid = some sess → s.sessions.get? sid = some sess)
include hclock hmanager hreq hdrawn hsessions

theorem Keeps.of_sessions : Keeps s s' where
  clock := hclock
  drawn := fun _ _ h => hdrawn ▸ h
  carries := by
    rintro sid a d exp - ⟨dev, hslot, hsid, hexp⟩
    exact .inl ⟨dev, hmanager ▸ hslot, hsid, hexp⟩
  gone := by
    rintro sid - - ⟨hnone, hput⟩
    exact ⟨get?_eq_none_of_sub (hsessions sid) hnone, hreq ▸ hput⟩

include hs

theorem Consistent.of_sessions
    (hsweeper : s'.sweeper = s.sweeper ∨ s'.sweeper.Sound s') : Consistent limit s' := by
  refine hs.of_stores (.of_sessions hclock hmanager hreq hdrawn hsessions) hreq
    (hmanager ▸ hs.within) (fun a d dev h => ?_) hsessions hsweeper
  rw [hdrawn]
  exact hs.slots a d dev (hmanager ▸ h)

end

structure SlotsKept (s : State) (m : Manager) : Prop where
  back : ∀ a d dev, m.slot a d = some dev →
    ∃ old, s.manager.slot a d = some old ∧ old.sessionID = dev.sessionID
  forth : ∀ a d old, s.manager.slot a d = some old →
    (∃ dev, m.slot a d = some dev ∧ dev.sessionID = old.sessionID ∧ old.expiresAt ≤ dev.expiresAt) ∨
      old.expiresAt ≤ s.clock ∨ Gone s old.sessionID

variable {m : Manager} {sid a d : String} {exp now : Int}

theorem SlotsKept.carries (h : SlotsKept s m) (hcarries : Carries s sid a d exp) :
    Carries { s with manager := m } sid a d exp ∨ exp ≤ s.clock ∨ Gone s sid := by
  obtain ⟨old, hold, rfl, hexp⟩ := hcarries
  rcases h.forth a d old hold with ⟨dev, hdev, hsid, hle⟩ | hle | hgone
  · exact .inl ⟨dev, hdev, hsid, hexp.trans hle⟩
  · exact .inr (.inl (hexp.trans hle))
  · exact .inr (.inr hgone)

theorem Consistent.setManager (hs : Consistent limit s) (h : SlotsKept s m)
    (hwithin : m.Within limit) : Consistent limit { s with manager := m } := by
  refine hs.of_stores ⟨le_refl _, fun _ _ h => h, ?_, fun _ _ _ h => h⟩ rfl hwithin ?_
    (fun _ _ h => h) (.inl rfl)
  · exact fun sid a d exp _ hcarries => h.carries hcarries
  intro a d dev hdev
  obtain ⟨old, hold, hsid⟩ := h.back a d dev hdev
  exact hsid ▸ hs.slots a d old hold

variable {candidate : String}

section
variable {x : String × String} (hfresh : s.drawn.get? candidate = none)
include hfresh

theorem ne_of_drawn (h : s.drawn.get? sid = some x) : sid ≠ candidate := by
  rintro rfl
  rw [hfresh] at h
  cases h

theorem get?_draw (y : String × String) (h : s.drawn.get? sid = some x) :
    (s.drawn.set candidate y).get? sid = some x := by
  rw [get?_set, if_neg (ne_of_drawn hfresh h), h]

end

theorem Consistent.draw (hs : Consistent limit s) (hfresh : s.drawn.get? candidate = none)
    (x : String × String) :
    Consistent limit { s with drawn := s.drawn.set candidate x } := by
  refine hs.of_stores ⟨le_refl _, fun _ _ => get?_draw hfresh x, fun _ _ _ _ _ h => .inl h,
    fun _ _ _ h => h⟩ rfl hs.within ?_ (fun _ _ h => h) (.inl rfl)
  exact fun a d dev h => get?_draw hfresh x (hs.slots a d dev h)

variable {r : Nat} {pc : Pc}

theorem gone_setPc (hput : ∀ sid sess, pc ≠ .put sid sess) (h : Gone s sid) :
    Gone (s.setPc r pc) sid := by
  refine ⟨h.1, fun r' sess hr' => ?_⟩
  rw [State.setPc, get?_set] at hr'
  split at hr'
  · exact hput sid sess (Option.some.inj hr')
  · exact h.2 r' sess hr'

theorem Keeps.setPc (hput : ∀ sid sess, pc ≠ .put sid sess) :
    Keeps s (s.setPc r pc) where
  clock := le_refl _
  drawn := fun _ _ h => h
  carries := fun _ _ _ _ _ h => .inl h
  gone := fun _ _ _ h => gone_setPc hput h

theorem Consistent.setPc (hs : Consistent limit s)
    (hput : ∀ sid sess, pc ≠ .put sid sess) (hsound : pc.Sound s)
    (hrefresh : ∀ sid a d exp, s.requests.get? r = some (.refresh sid a d exp) →
      s.playing sid → Carries s sid a d exp) :
    Consistent limit (s.setPc r pc) := by
  have hk : Keeps s (s.setPc r pc) := .setPc hput
  have hget (r' : Nat) :
      (s.setPc r pc).requests.get? r' = if r' = r then some pc else s.requests.get? r' :=
    get?_set _ _ _ _
  refine hs.of_keeps hk hs.within hs.slots (fun _ _ h => .inl h) ?_ ?_ (fun _ _ _ _ h => h) ?_
    (.inl rfl)
  · intro sid sess hsess hlive r' exp hr' hle
    by_cases hr : r' = r
    · subst hr
      have hplaying : s.playing sid = true := by
        rw [State.playing, show s.sessions.get? sid = some sess from hsess]
        exact decide_eq_true hlive
      obtain ⟨dev, hslot, hsid, hexp⟩ := hrefresh sid _ _ exp hr' hplaying
      exact .inl ⟨dev, hslot, hsid, hle.trans hexp⟩
    · exact .inr ⟨r', exp, by rw [hget, if_neg hr, hr'], hle⟩
  · intro r' pc' h
    rw [hget] at h
    split at h
    · cases h
      exact .inr (hk.sound (r := r) ((hget r).trans (if_pos rfl)) (fun _ _ _ h => h) hsound)
    · exact .inl h
  intro r₁ r₂ sid sess sess' h₁ h₂
  rw [hget] at h₁ h₂
  split at h₁
  · exact absurd (Option.some.inj h₁) (hput sid sess)
  split at h₂
  · exact absurd (Option.some.inj h₂) (hput sid sess')
  · exact hs.puts _ _ _ _ _ h₁ h₂

theorem Consistent.moveOn (hs : Consistent limit s)
    (hrefresh : ∀ sid a d exp, s.requests.get? r ≠ some (.refresh sid a d exp))
    (hput : ∀ sid sess, pc ≠ .put sid sess) (hsound : pc.Sound s) :
    Consistent limit (s.setPc r pc) :=
  hs.setPc hput hsound fun sid a d exp h => absurd h (hrefresh sid a d exp)

variable {sess : Session}

theorem Consistent.write (hs : Consistent limit s)
    (heq : s' = { s with sessions := s.sessions.set sid sess }.setPc r pc)
    (hput : ∀ sid sess, pc ≠ .put sid sess) (hsound : pc.Sound s')
    (hdrawn : s.drawn.get? sid = some (sess.accountID, sess.deviceID)) (hgone : ¬ Gone s sid)
    (hother : ∀ r' sess', s.requests.get? r' = some (.put sid sess') → r' = r)
    (hrefresh : ∀ sid a d exp, s.requests.get? r ≠ some (.refresh sid a d exp))
    (hcovered : s.clock < sess.expiresAt → Covered s' sid sess) : Consistent limit s' := by
  have hget (r' : Nat) : s'.requests.get? r' = if r' = r then some pc else s.requests.get? r' := by
    rw [heq]
    exact get?_set _ _ _ _
  have hsess (sid' : String) :
      s'.sessions.get? sid' = if sid' = sid then some sess else s.sessions.get? sid' := by
    rw [heq]
    exact get?_set _ _ _ _
  have hputs (r' : Nat) {sid' : String} {sess' : Session}
      (h : s'.requests.get? r' = some (.put sid' sess')) :
      r' ≠ r ∧ s.requests.get? r' = some (.put sid' sess') := by
    rw [hget] at h
    split at h
    · exact absurd (Option.some.inj h) (hput sid' sess')
    · rename_i hr
      exact ⟨hr, h⟩
  have hk : Keeps s s' := by
    subst heq
    refine ⟨le_refl _, fun _ _ h => h, fun _ _ _ _ _ h => .inl h, fun sid' _ _ h => ⟨?_, ?_⟩⟩
    · rw [hsess, if_neg (fun hsid : sid' = sid => hgone (hsid ▸ h)), h.1]
    · exact fun r' sess' h' => h.2 r' sess' (hputs r' h').2
  refine hs.of_keeps hk (heq ▸ hs.within) (heq ▸ hs.slots) ?_ ?_ ?_ ?_ ?_ (.inl (by rw [heq]; rfl))
  · intro sid' sess' h
    rw [hsess] at h
    split at h
    · rename_i hsid
      cases h
      subst hsid
      exact .inr ⟨hk.drawn _ _ hdrawn, fun hlive => hcovered (hk.clock.trans_lt hlive)⟩
    · exact .inl h
  · intro sid' sess' _ _ r' exp hr' hle
    have hne : r' ≠ r := fun h => hrefresh _ _ _ _ (h ▸ hr')
    exact .inr ⟨r', exp, by rw [hget, if_neg hne, hr'], hle⟩
  · intro r' pc' h
    rw [hget] at h
    split at h
    · cases h
      exact .inr hsound
    · exact .inl h
  · intro r' sid' sess' h hnone
    rw [hsess, if_neg, hnone]
    rintro rfl
    exact (hputs r' h).1 (hother r' sess' (hputs r' h).2)
  · exact fun r₁ r₂ _ _ _ h₁ h₂ => hs.puts _ _ _ _ _ (hputs r₁ h₁).2 (hputs r₂ h₂).2

theorem carries_fresh {dev : Device}
    (hnow : now ≤ s.clock) (hslot : Manager.unexpired now (s.manager.slot a d) = none)
    (hslots : ∀ a' d', m.slot a' d' =
      if a' = a ∧ d' = d then some dev else s.manager.reapedFor a now a' d')
    {a' d' : String} (h : Carries s sid a' d' exp) :
    Carries { s with manager := m } sid a' d' exp ∨ exp ≤ s.clock := by
  obtain ⟨old, hold, hsid, hexp⟩ := h
  by_cases had : a' = a ∧ d' = d
  · obtain ⟨rfl, rfl⟩ := had
    have hle : old.expiresAt ≤ now := by
      refine (Manager.unexpired_of_some hold).resolve_left ?_
      rw [hslot]
      exact nofun
    exact .inr (by omega)
  · rcases Manager.reapedFor_of_slot hold a now with hlive | hle
    · exact .inl ⟨old, by rw [hslots, if_neg had, hlive], hsid, hexp⟩
    · exact .inr (by omega)

theorem put_setPc {r' : Nat} {sess' : Session}
    (h : (s.setPc r (.put candidate sess)).requests.get? r' = some (.put sid sess')) :
    sid = candidate ∧ r' = r ∨ s.requests.get? r' = some (.put sid sess') := by
  rw [State.setPc, get?_set] at h
  split at h
  · rename_i hr
    cases h
    exact .inl ⟨rfl, hr⟩
  · exact .inr h

theorem Consistent.fresh (hs : Consistent limit s) (hsess : sess.accountID = a ∧ sess.deviceID = d)
    (hfresh : s.drawn.get? candidate = none) (hnow : now ≤ s.clock) (hwithin : m.Within limit)
    (hslot : Manager.unexpired now (s.manager.slot a d) = none) (hslots : ∀ a' d', m.slot a' d' =
      if a' = a ∧ d' = d then some { expiresAt := sess.expiresAt, sessionID := candidate }
      else s.manager.reapedFor a now a' d')
    (hrefresh : ∀ sid a d exp, s.requests.get? r ≠ some (.refresh sid a d exp)) :
    Consistent limit ({ s with
      manager := m, drawn := s.drawn.set candidate (a, d) }.setPc r (.put candidate sess)) := by
  have hcand : (s.drawn.set candidate (a, d)).get? candidate = some (a, d) := get?_set_self _ _ _
  have habsent : s.sessions.get? candidate = none := by
    rw [Option.eq_none_iff_forall_ne_some]
    exact fun sess' h => ne_of_drawn hfresh (hs.sessions _ _ h).1 rfl
  -- what was drawn before is not the new id
  have hold {r' : Nat} {sid : String} {x : String × String} {sess' : Session}
      (hsid : s.drawn.get? sid = some x)
      (h : (s.setPc r (.put candidate sess)).requests.get? r' = some (.put sid sess')) :
      s.requests.get? r' = some (.put sid sess') :=
    (put_setPc h).resolve_left fun hc => ne_of_drawn hfresh hsid hc.1
  have hget (r' : Nat) : (s.setPc r (.put candidate sess)).requests.get? r' =
      if r' = r then some (.put candidate sess) else s.requests.get? r' :=
    get?_set _ _ _ _
  refine hs.of_keeps ⟨le_refl _, fun _ _ => get?_draw hfresh (a, d), ?_, ?_⟩ hwithin ?_
    (fun _ _ h => .inl h) ?_ ?_ (fun _ _ _ _ h => h) ?_ (.inl rfl)
  · intro sid a' d' exp _ h
    rcases carries_fresh hnow hslot hslots h with hcarries | hexp
    · exact .inl hcarries
    · exact .inr (.inl hexp)
  · exact fun sid x hsid h => ⟨h.1, fun r' sess' h' => h.2 r' sess' (hold hsid h')⟩
  · intro a' d' dev hdev
    have hdev : m.slot a' d' = some dev := hdev
    rw [hslots] at hdev
    split at hdev
    · rename_i had
      cases hdev
      rw [had.1, had.2]
      exact hcand
    · exact get?_draw hfresh (a, d) (hs.slots a' d' dev (Manager.slot_of_reapedFor hdev))
  · intro sid sess' _ _ r' exp hr' hle
    have hne : r' ≠ r := fun h => hrefresh _ _ _ _ (h ▸ hr')
    exact .inr ⟨r', exp, (hget r').trans ((if_neg hne).trans hr'), hle⟩
  · intro r' pc h
    have h := (hget r').symm.trans h
    split at h
    · cases h
      refine .inr ⟨?_, habsent, .inl ?_⟩
      · rw [hsess.1, hsess.2]
        exact hcand
      · exact ⟨⟨sess.expiresAt, candidate⟩, (hslots _ _).trans (if_pos hsess), rfl, le_refl _⟩
    · exact .inl h
  · intro r₁ r₂ sid sess₁ sess₂ h₁ h₂
    rcases put_setPc h₁ with ⟨hc, hr₁⟩ | h₁'
    · rcases put_setPc h₂ with ⟨-, hr₂⟩ | h₂'
      · exact hr₁.trans hr₂.symm
      · exact absurd hc (ne_of_drawn hfresh (hs.requests _ _ h₂').1)
    · exact hs.puts _ _ _ _ _ h₁' (hold (hs.requests _ _ h₁').1 h₂)

end Consistent

end GoServices.Playback
