/-
Whole requests, and whether one account's requests affect another account.

Here a request runs to its end before the next one starts, so a request is one function of the
two stores.
-/
import GoServices.Base.Purge
import GoServices.Playback.Server

namespace GoServices.Playback.Isolation

open List Table Option Manager

/-- The two stores; `drawn` is history, the session ids that `newID` has returned. -/
structure Stores where
  manager : Manager
  sessions : Sessions
  drawn : List String

def Stores.new : Stores := { manager := .new, sessions := .empty, drawn := [] }

/-- A request with the account of its verified claims and the time it reads, or a tick of
the sweeper.  `candidate` is what `newID` returns. -/
inductive Request
  | authorize (accountID : String) (deviceLimit : Nat) (body : Option (String × String))
      (now : Int) (candidate : String)
  | heartbeat (accountID : String) (body : Option String) (now : Int)
  | stop (accountID : String) (body : Option String)
  | sweep (now : Int)

def Request.accountID : Request → Option String
  | .authorize accountID .. | .heartbeat accountID .. | .stop accountID _ => some accountID
  | .sweep _ => none

section
variable (ttl : Int) (s : Stores) (accountID : String)

def authorize (limit : Nat) (body : Option (String × String))
    (now : Int) (candidate : String) : Stores × Response :=
  match body with
  | none => (s, badRequest)
  | some (assetID, deviceID) =>
    if deviceID = "" then (s, badRequest)
    else
      let exp := now + ttl
      let drawn := candidate :: s.drawn
      match s.manager.admitDevice accountID deviceID limit now exp candidate with
      | (m, none) => ({ s with manager := m, drawn := drawn }, deviceLimit)
      | (m, some sid) =>
        let sess : Session :=
          { accountID := accountID, deviceID := deviceID, assetID := assetID, expiresAt := exp }
        let sessions :=
          if sid = candidate then s.sessions.put sid sess else s.sessions.extend sid exp
        ({ manager := m, sessions := sessions, drawn := drawn }, .authorized sid (expiresInSec ttl))

def heartbeat (body : Option String) (now : Int) :
    Stores × Response :=
  match body with
  | none => (s, badRequest)
  | some sessionID =>
    if sessionID = "" then (s, badRequest)
    else
      match s.sessions.get sessionID now with
      | none => (s, sessionExpired)
      | some sess =>
        if sess.accountID ≠ accountID then (s, sessionExpired)
        else
          let exp := now + ttl
          ({ s with
            manager := (s.manager.refresh accountID sess.deviceID exp).1
            sessions := s.sessions.extend sessionID exp }, .alive (expiresInSec ttl))

def stop (body : Option String) : Stores × Response :=
  match body with
  | none => (s, badRequest)
  | some sessionID =>
    if sessionID = "" then (s, badRequest)
    else
      match s.sessions.delete sessionID with
      | (sessions, none) => ({ s with sessions := sessions }, .stopped)
      | (sessions, some sess) =>
        if sess.accountID = accountID then
          ({ s with manager := s.manager.release accountID sess.deviceID, sessions := sessions },
            .stopped)
        else ({ s with sessions := sessions }, .stopped)

def releaseAll (m : Manager) (expired : List (String × Session)) : Manager :=
  expired.foldl (fun m e => m.release e.2.accountID e.2.deviceID) m

def sweep (now : Int) : Stores :=
  let (sessions, expired) := s.sessions.reapExpired now
  { s with manager := (releaseAll s.manager expired).reapExpired now, sessions := sessions }

def step : Request → Stores × Option Response
  | .authorize accountID limit body now candidate =>
    let r := authorize ttl s accountID limit body now candidate
    (r.1, some r.2)
  | .heartbeat accountID body now =>
    let r := heartbeat ttl s accountID body now
    (r.1, some r.2)
  | .stop accountID body =>
    let r := stop s accountID body
    (r.1, some r.2)
  | .sweep now => (sweep s now, none)

end

/-- An id that `newID` returns is new, and a `stop` of another account does not find a
session of the account. -/
def respects (account : String) (s : Stores) : Request → Prop
  | .authorize _ _ _ _ candidate => candidate ∉ s.drawn
  | .stop accountID (some sessionID) =>
    accountID = account ∨ ∀ sess ∈ s.sessions.get? sessionID, sess.accountID ≠ account
  | _ => True

instance (account : String) (s : Stores) : ∀ a, Decidable (respects account s a) := fun _ => by
  unfold respects
  split <;> infer_instance

/-! ## The same request at the server, with nothing between its calls

A body that does not decode, or names no device or session, is refused before the first call.
-/

section
variable (limit : String → Nat) (ttl : Int) (n : Nat)

def alone : Nat → State → State
  | 0, s => s
  | k + 1, s => ((Playback.step limit ttl s (.next n)).map (alone k)).getD s

/-- Request `n` has the response of `r` and has left its stores. -/
def Ends (s : State) (r : Stores × Response) : Prop :=
  s.manager = r.1.manager ∧ s.sessions = r.1.sessions ∧ s.requests.get? n = some (.done r.2)

variable (s : State) (drawn : List String) (a : String) {id : String} (hid : id ≠ "")
include hid

theorem authorize_alone (assetID candidate : String) :
    Ends n (alone limit ttl n 1 (s.admitDevice limit ttl n a id assetID s.clock candidate))
      (authorize ttl ⟨s.manager, s.sessions, drawn⟩ a (limit a) (some (assetID, id)) s.clock
        candidate) := by
  rcases hadmit : s.manager.admitDevice a id (limit a) s.clock (s.clock + ttl) candidate with
    ⟨m, _ | sid⟩
  · simp [Ends, alone, Playback.step, State.admitDevice, State.setPc, State.next, authorize, hid,
      hadmit]
  · by_cases hsid : sid = candidate <;>
      simp [Ends, alone, Playback.step, State.admitDevice, State.setPc, State.next, authorize, hid,
        hadmit, hsid]

theorem heartbeat_alone :
    Ends n (alone limit ttl n 3 (s.setPc n (startHeartbeat s.clock a (some id))))
      (heartbeat ttl ⟨s.manager, s.sessions, drawn⟩ a (some id) s.clock) := by
  cases hget : s.sessions.get id s.clock with
  | none =>
    simp [Ends, alone, Playback.step, startHeartbeat, State.setPc, State.next, heartbeat, hid, hget]
  | some sess =>
    by_cases hown : sess.accountID = a <;>
      simp [Ends, alone, Playback.step, startHeartbeat, State.setPc, State.next, heartbeat, hid,
        hget, hown]

theorem stop_alone :
    Ends n (alone limit ttl n 2 (s.setPc n (startStop a (some id))))
      (stop ⟨s.manager, s.sessions, drawn⟩ a (some id)) := by
  rcases hdelete : s.sessions.delete id with ⟨sessions, _ | sess⟩
  · simp [Ends, alone, Playback.step, startStop, State.setPc, State.next, stop, hid, hdelete]
  · by_cases hown : sess.accountID = a <;>
      simp [Ends, alone, Playback.step, startStop, State.setPc, State.next, stop, hid, hdelete,
        hown]

omit hid

theorem run_release {s : State} {now : Int} {expired : List (String × Session)}
    (hsweep : s.sweeper = .release now expired) :
    run (Playback.step limit ttl) s (replicate expired.length (.sweepRelease 0) ++ [.sweepSlots]) =
      some { s with
        manager := (releaseAll s.manager expired).reapExpired now
        sweeper := .idle } := by
  induction expired generalizing s with
  | nil =>
    rw [length_nil, replicate_zero, nil_append, run_cons, Playback.step, hsweep]
    rfl
  | cons e expired ih =>
    rw [length_cons, replicate_succ, cons_append, run_cons, Playback.step, hsweep]
    exact ih rfl

theorem sweep_alone (hidle : s.sweeper = .idle) :
    run (Playback.step limit ttl) s ([.sweep, .sweepSessions] ++
        (replicate (s.sessions.reapExpired s.clock).2.length (.sweepRelease 0) ++ [.sweepSlots])) =
      some { s with
        manager := (sweep ⟨s.manager, s.sessions, drawn⟩ s.clock).manager
        sessions := (sweep ⟨s.manager, s.sessions, drawn⟩ s.clock).sessions } := by
  rw [cons_append, run_cons, Playback.step, if_pos hidle]
  refine (run_release limit ttl (s := { s with
    sessions := (s.sessions.reapExpired s.clock).1
    sweeper := .release s.clock (s.sessions.reapExpired s.clock).2 }) rfl).trans ?_
  rw [← hidle]
  rfl

end

/-! ## What an account can see -/

def ownSession (account : String) (m : Sessions) (sid : String) : Option Session :=
  (m.get? sid).filter fun sess => sess.accountID = account

def Agree (account : String) (s t : Stores) : Prop :=
  (∀ sid, ownSession account s.sessions sid = ownSession account t.sessions sid) ∧
    ∀ d, s.manager.slot account d = t.manager.slot account d

section
variable {account : String} {m : Sessions} {sid : String}

theorem ownSession_eq_some {sess : Session} :
    ownSession account m sid = some sess ↔ m.get? sid = some sess ∧ sess.accountID = account := by
  rw [ownSession, filter_eq_some_iff, decide_eq_true_eq]

theorem ownSession_eq_none (h : ∀ sess, m.get? sid = some sess → sess.accountID ≠ account) :
    ownSession account m sid = none := by
  rw [eq_none_iff_forall_ne_some]
  intro sess hown
  obtain ⟨hget, hacct⟩ := ownSession_eq_some.mp hown
  exact h sess hget hacct

theorem ownSession_put (m : Sessions) (sid : String) (sess : Session) (j : String) :
    ownSession account (m.put sid sess) j =
      if j = sid then (if sess.accountID = account then some sess else none)
      else ownSession account m j := by
  rw [ownSession, Sessions.put, get?_set]
  split
  · rw [filter_some]
    simp only [decide_eq_true_eq]
  · rfl

theorem ownSession_extend (m : Sessions) (sid : String) (exp : Int) (j : String) :
    ownSession account (m.extend sid exp) j =
      if j = sid then (ownSession account m sid).map fun sess => { sess with expiresAt := exp }
      else ownSession account m j := by
  rw [Sessions.extend]
  cases hget : m.get? sid with
  | none =>
    by_cases hj : j = sid
    · simp [ownSession, hj, hget]
    · simp [hj]
  | some sess =>
    simp only [ownSession, get?_set, hget]
    by_cases hj : j = sid
    · by_cases hacct : sess.accountID = account
      all_goals simp [hj, hacct, filter_some]
    · simp [hj]

theorem ownSession_extend_other (h : ownSession account m sid = none) (exp : Int) (j : String) :
    ownSession account (m.extend sid exp) j = ownSession account m j := by
  rw [ownSession_extend]
  split
  · rename_i hj
    rw [hj, h]
    rfl
  · rfl

theorem ownSession_delete (m : Sessions) (sid j : String) :
    ownSession account (m.delete sid).1 j = if j = sid then none else ownSession account m j := by
  rw [ownSession, Sessions.delete, get?_erase]
  split
  · rfl
  · rfl

theorem ownSession_reapExpired (m : Sessions) (now : Int) (j : String) :
    ownSession account (m.reapExpired now).1 j =
      (ownSession account m j).filter fun sess => ¬ sess.expiresAt ≤ now := by
  rw [ownSession, Sessions.reapExpired, get?_filter, ownSession, Option.filter_filter,
    Option.filter_filter]
  congr 1
  funext sess
  exact Bool.and_comm _ _

theorem slot_admitDevice_other (m : Manager) {a : String} (ha : account ≠ a) (d : String)
    (limit : Nat) (now exp : Int) (candidate d' : String) :
    (m.admitDevice a d limit now exp candidate).1.slot account d' = m.slot account d' := by
  rw [admitDevice]
  split
  · rw [slot_setAccount, if_neg ha]
  · split <;> rw [slot_setAccount, if_neg ha]

theorem admitDevice_congr {m m' : Manager} {a : String} (h : ∀ d, m.slot a d = m'.slot a d)
    (d : String) (limit : Nat) (now exp : Int) (candidate : String) :
    (m.admitDevice a d limit now exp candidate).2 = (m'.admitDevice a d limit now exp candidate).2 ∧
      ∀ d', (m.admitDevice a d limit now exp candidate).1.slot a d' =
        (m'.admitDevice a d limit now exp candidate).1.slot a d' := by
  have hget : ∀ k, (m.prepared a limit now).devices.get? k =
      (m'.prepared a limit now).devices.get? k := by
    intro k
    rw [get?_prepared, get?_prepared, h]
  have hlen := len_congr hget
  have hput : ∀ dev d', (m.setAccount a { m.prepared a limit now with
      devices := (m.prepared a limit now).devices.set d dev }).slot a d' =
      (m'.setAccount a { m'.prepared a limit now with
        devices := (m'.prepared a limit now).devices.set d dev }).slot a d' := by
    intro dev d'
    rw [slot_setAccount, slot_setAccount, if_pos rfl, if_pos rfl, get?_set,
      get?_set, hget]
  have hlimit : (m.prepared a limit now).limit = (m'.prepared a limit now).limit := rfl
  simp only [admitDevice, hget d, hlen, hlimit]
  split
  · exact ⟨rfl, hput _⟩
  split
  · refine ⟨rfl, fun d' => ?_⟩
    rw [slot_setAccount, slot_setAccount, if_pos rfl, if_pos rfl, hget]
  · exact ⟨rfl, hput _⟩

theorem slot_releaseAll (expired : List (String × Session)) (m : Manager) (a d : String) :
    (releaseAll m expired).slot a d =
      if ∃ e ∈ expired, e.2.accountID = a ∧ e.2.deviceID = d then none else m.slot a d := by
  induction expired generalizing m with
  | nil => simp [releaseAll]
  | cons e expired ih =>
    show (releaseAll (m.release e.2.accountID e.2.deviceID) expired).slot a d = _
    rw [ih, slot_release]
    by_cases hrest : ∃ e ∈ expired, e.2.accountID = a ∧ e.2.deviceID = d
    · obtain ⟨e', he', hslot⟩ := hrest
      rw [if_pos ⟨e', he', hslot⟩, if_pos ⟨e', mem_cons_of_mem _ he', hslot⟩]
    rw [if_neg hrest]
    by_cases he : e.2.accountID = a ∧ e.2.deviceID = d
    · rw [if_pos ⟨he.1.symm, he.2.symm⟩, if_pos ⟨e, mem_cons_self, he⟩]
    have hnone : ¬ ∃ e' ∈ e :: expired, e'.2.accountID = a ∧ e'.2.deviceID = d := by
      rintro ⟨e', he', hslot⟩
      rcases mem_cons.mp he' with rfl | he'
      · exact he hslot
      · exact hrest ⟨e', he', hslot⟩
    rw [if_neg (fun h => he ⟨h.1.symm, h.2.symm⟩), if_neg hnone]

/-! ## The account's own requests -/

section
variable {s t : Stores}

theorem agree_authorize (h : Agree account s t) (ttl : Int) (limit : Nat)
    (body : Option (String × String)) (now : Int) (candidate : String) :
    Agree account (authorize ttl s account limit body now candidate).1
        (authorize ttl t account limit body now candidate).1 ∧
      (authorize ttl s account limit body now candidate).2 =
        (authorize ttl t account limit body now candidate).2 := by
  obtain ⟨hsess, hslot⟩ := h
  cases body with
  | none => exact ⟨⟨hsess, hslot⟩, rfl⟩
  | some body =>
    obtain ⟨assetID, deviceID⟩ := body
    simp only [authorize]
    split
    · exact ⟨⟨hsess, hslot⟩, rfl⟩
    obtain ⟨hans, hslot'⟩ := admitDevice_congr hslot deviceID limit now (now + ttl) candidate
    rcases hs : s.manager.admitDevice account deviceID limit now (now + ttl) candidate with ⟨m, r⟩
    rcases ht : t.manager.admitDevice account deviceID limit now (now + ttl) candidate with
      ⟨m', r'⟩
    rw [hs, ht] at hans hslot'
    cases hans
    cases r with
    | none => exact ⟨⟨hsess, hslot'⟩, rfl⟩
    | some sid =>
      refine ⟨⟨fun j => ?_, hslot'⟩, rfl⟩
      dsimp only
      split
      · rw [ownSession_put, ownSession_put, hsess]
      · rw [ownSession_extend, ownSession_extend, hsess, hsess]

theorem heartbeat_eq (s : Stores) {sid : String} (hsid : sid ≠ "") (now : Int) :
    heartbeat ttl s account (some sid) now =
      match (ownSession account s.sessions sid).filter fun sess => ¬ sess.expiresAt ≤ now with
      | none => (s, sessionExpired)
      | some sess =>
        ({ s with
          manager := (s.manager.refresh account sess.deviceID (now + ttl)).1
          sessions := s.sessions.extend sid (now + ttl) }, .alive (expiresInSec ttl)) := by
  rw [heartbeat, ownSession, Sessions.get]
  rw [if_neg hsid]
  cases s.sessions.get? sid with
  | none => rfl
  | some sess =>
    by_cases hacct : sess.accountID = account
    · by_cases hexp : sess.expiresAt ≤ now
      · have hdue : ¬ now < sess.expiresAt := Int.not_lt.mpr hexp
        simp [filter_some, hacct, hexp, hdue]
      · have hlive : now < sess.expiresAt := Int.not_le.mp hexp
        simp [filter_some, hacct, hexp, hlive]
    · by_cases hexp : sess.expiresAt ≤ now
      all_goals simp [filter_some, hacct, hexp]

theorem agree_heartbeat (h : Agree account s t) (ttl : Int) (body : Option String) (now : Int) :
    Agree account (heartbeat ttl s account body now).1 (heartbeat ttl t account body now).1 ∧
      (heartbeat ttl s account body now).2 = (heartbeat ttl t account body now).2 := by
  cases body with
  | none => exact ⟨h, rfl⟩
  | some sid =>
    obtain ⟨hsess, hslot⟩ := h
    by_cases hsid : sid = ""
    · rw [heartbeat, heartbeat, if_pos hsid, if_pos hsid]
      exact ⟨⟨hsess, hslot⟩, rfl⟩
    rw [heartbeat_eq s hsid, heartbeat_eq t hsid, hsess sid]
    split
    · exact ⟨⟨hsess, hslot⟩, rfl⟩
    refine ⟨⟨fun j => ?_, fun d => ?_⟩, rfl⟩
    · rw [ownSession_extend, ownSession_extend, hsess, hsess]
    · rw [slot_refresh, slot_refresh, hslot, hslot]

theorem stop_eq (s : Stores) (a : String) {sid : String} (hsid : sid ≠ "") :
    stop s a (some sid) = ({ s with
        manager := (ownSession a s.sessions sid).elim s.manager fun sess =>
          s.manager.release a sess.deviceID
        sessions := (s.sessions.delete sid).1 }, .stopped) := by
  rw [stop, ownSession, Sessions.delete]
  rw [if_neg hsid]
  cases s.sessions.get? sid with
  | none => rfl
  | some sess =>
    by_cases hacct : sess.accountID = a
    all_goals simp [filter_some, hacct]

theorem agree_stop (h : Agree account s t) (body : Option String) :
    Agree account (stop s account body).1 (stop t account body).1 ∧
      (stop s account body).2 = (stop t account body).2 := by
  cases body with
  | none => exact ⟨h, rfl⟩
  | some sid =>
    obtain ⟨hsess, hslot⟩ := h
    by_cases hsid : sid = ""
    · rw [stop, stop, if_pos hsid, if_pos hsid]
      exact ⟨⟨hsess, hslot⟩, rfl⟩
    rw [stop_eq s account hsid, stop_eq t account hsid, hsess sid]
    refine ⟨⟨fun j => ?_, fun d => ?_⟩, rfl⟩
    · rw [ownSession_delete, ownSession_delete, hsess]
    cases ownSession account t.sessions sid with
    | none => exact hslot d
    | some sess =>
      show (s.manager.release account sess.deviceID).slot account d =
        (t.manager.release account sess.deviceID).slot account d
      rw [slot_release, slot_release, hslot]

theorem expired_iff (m : Sessions) (now : Int) (d : String) :
    (∃ e ∈ (m.reapExpired now).2, e.2.accountID = account ∧ e.2.deviceID = d) ↔
      ∃ sid sess, ownSession account m sid = some sess ∧ sess.expiresAt ≤ now ∧
        sess.deviceID = d := by
  constructor
  · rintro ⟨⟨sid, sess⟩, he, hacct, hdev⟩
    obtain ⟨hmem, hexp⟩ := mem_filter.mp he
    exact ⟨sid, sess, ownSession_eq_some.mpr ⟨mem_toList.mp hmem, hacct⟩,
      of_decide_eq_true hexp, hdev⟩
  rintro ⟨sid, sess, hown, hexp, hdev⟩
  obtain ⟨hget, hacct⟩ := ownSession_eq_some.mp hown
  exact ⟨(sid, sess), mem_filter.mpr ⟨mem_toList.mpr hget, decide_eq_true hexp⟩, hacct, hdev⟩

theorem agree_sweep (h : Agree account s t) (now : Int) :
    Agree account (sweep s now) (sweep t now) := by
  obtain ⟨hsess, hslot⟩ := h
  refine ⟨fun j => ?_, fun d => ?_⟩
  · show ownSession account (s.sessions.reapExpired now).1 j =
      ownSession account (t.sessions.reapExpired now).1 j
    rw [ownSession_reapExpired, ownSession_reapExpired, hsess]
  show ((releaseAll s.manager (s.sessions.reapExpired now).2).reapExpired now).slot account d =
    ((releaseAll t.manager (t.sessions.reapExpired now).2).reapExpired now).slot account d
  have hiff : (∃ e ∈ (s.sessions.reapExpired now).2, e.2.accountID = account ∧ e.2.deviceID = d) ↔
      ∃ e ∈ (t.sessions.reapExpired now).2, e.2.accountID = account ∧ e.2.deviceID = d := by
    rw [expired_iff, expired_iff]
    simp only [hsess]
  rw [slot_reapExpired, slot_reapExpired, slot_releaseAll, slot_releaseAll, hslot,
    if_congr hiff rfl rfl]

end

/-! ## The requests of others -/

structure Owned (s : Stores) : Prop where
  session : ∀ sid sess, s.sessions.get? sid = some sess → sid ∈ s.drawn
  slot : ∀ a d dev, s.manager.slot a d = some dev → dev.sessionID ∈ s.drawn ∧
    ∀ sess, s.sessions.get? dev.sessionID = some sess → sess.accountID = a

/-- Every slot of `m'` is a slot of `m` with the same session. -/
def SlotsFrom (m m' : Manager) : Prop :=
  ∀ a d dev', m'.slot a d = some dev' →
    ∃ dev, m.slot a d = some dev ∧ dev.sessionID = dev'.sessionID

/-- Every session of `m'` is a session of `m` with the same account. -/
def SessionsFrom (m m' : Sessions) : Prop :=
  ∀ sid sess', m'.get? sid = some sess' →
    ∃ sess, m.get? sid = some sess ∧ sess.accountID = sess'.accountID

variable {s s' : Stores}

theorem Owned.shrinks (hs : Owned s) (hslots : SlotsFrom s.manager s'.manager)
    (hsessions : SessionsFrom s.sessions s'.sessions) (hdrawn : ∀ sid ∈ s.drawn, sid ∈ s'.drawn) :
    Owned s' where
  session sid sess' h := by
    obtain ⟨sess, hget, -⟩ := hsessions sid sess' h
    exact hdrawn sid (hs.session sid sess hget)
  slot a d dev' h := by
    obtain ⟨dev, hslot, hid⟩ := hslots a d dev' h
    obtain ⟨hmem, hacct⟩ := hs.slot a d dev hslot
    rw [← hid]
    refine ⟨hdrawn _ hmem, fun sess' hget => ?_⟩
    obtain ⟨sess, hget', heq⟩ := hsessions _ sess' hget
    rw [← heq]
    exact hacct sess hget'

theorem SlotsFrom.refl (m : Manager) : SlotsFrom m m := fun _ _ dev h => ⟨dev, h, rfl⟩

theorem SessionsFrom.refl (m : Sessions) : SessionsFrom m m := fun _ sess h => ⟨sess, h, rfl⟩

theorem sessionsFrom_extend (m : Sessions) (sid : String) (exp : Int) :
    SessionsFrom m (m.extend sid exp) := by
  intro j sess' h
  rw [Sessions.extend] at h
  split at h
  · exact ⟨sess', h, rfl⟩
  rename_i sess hget
  rcases set_cases h with ⟨rfl, rfl⟩ | ⟨-, h⟩
  · exact ⟨sess, hget, rfl⟩
  · exact ⟨sess', h, rfl⟩

theorem sessionsFrom_delete (m : Sessions) (sid : String) : SessionsFrom m (m.delete sid).1 := by
  intro j sess' h
  rw [Sessions.delete, get?_erase] at h
  split at h
  · cases h
  · exact ⟨sess', h, rfl⟩

theorem sessionsFrom_reapExpired (m : Sessions) (now : Int) :
    SessionsFrom m (m.reapExpired now).1 := by
  intro j sess' h
  rw [Sessions.reapExpired, get?_filter] at h
  exact ⟨sess', eq_some_of_filter_eq_some h, rfl⟩

theorem slotsFrom_refresh (m : Manager) (a d : String) (exp : Int) :
    SlotsFrom m (m.refresh a d exp).1 := by
  intro a' d' dev' h
  rw [slot_refresh] at h
  split at h
  · rename_i had
    obtain ⟨dev, hdev, rfl⟩ := map_eq_some_iff.mp h
    exact ⟨dev, by rw [had.1, had.2, hdev], rfl⟩
  · exact ⟨dev', h, rfl⟩

theorem slotsFrom_release (m : Manager) (a d : String) : SlotsFrom m (m.release a d) := by
  intro a' d' dev' h
  rw [slot_release] at h
  split at h
  · cases h
  · exact ⟨dev', h, rfl⟩

theorem slotsFrom_sweep (m : Manager) (expired : List (String × Session)) (now : Int) :
    SlotsFrom m ((releaseAll m expired).reapExpired now) := by
  intro a d dev' h
  rw [slot_reapExpired, slot_releaseAll] at h
  have h := (unexpired_eq_some.mp h).1
  split at h
  · cases h
  · exact ⟨dev', h, rfl⟩

/-- What an `authorize` with a new session id leaves of the stores. -/
inductive Authorizes (s : Stores) (a : String) (exp : Int) (candidate : String) : Stores → Prop
  | badRequest : Authorizes s a exp candidate s
  | denied {m : Manager} (hslots : SlotsFrom s.manager m) :
      Authorizes s a exp candidate { s with manager := m, drawn := candidate :: s.drawn }
  | existing {m : Manager} {d : String} {dev : Device} (hslot : s.manager.slot a d = some dev)
      (hslots : SlotsFrom s.manager m) :
      Authorizes s a exp candidate
        { manager := m, sessions := s.sessions.extend dev.sessionID exp,
          drawn := candidate :: s.drawn }
  | fresh {m : Manager} {sess : Session} (hacct : sess.accountID = a)
      (hslots : ∀ a' d' dev', m.slot a' d' = some dev' → (a' = a ∧ dev'.sessionID = candidate) ∨
          ∃ dev, s.manager.slot a' d' = some dev ∧ dev.sessionID = dev'.sessionID) :
      Authorizes s a exp candidate
        { manager := m, sessions := s.sessions.put candidate sess, drawn := candidate :: s.drawn }

variable {candidate : String}

theorem authorizes (hs : Owned s) (hnew : candidate ∉ s.drawn) (ttl : Int) (a : String)
    (limit : Nat) (body : Option (String × String)) (now : Int) :
    Authorizes s a (now + ttl) candidate (authorize ttl s a limit body now candidate).1 := by
  cases body with
  | none => exact .badRequest
  | some body =>
    obtain ⟨assetID, d⟩ := body
    simp only [authorize]
    split
    · exact .badRequest
    have hadmits := s.manager.admits a d limit now (now + ttl) candidate
    generalize s.manager.admitDevice a d limit now (now + ttl) candidate = r at hadmits ⊢
    obtain ⟨m, r⟩ := r
    cases hadmits with
    | existing hslot hlive hslots =>
      rename_i dev
      have hne : dev.sessionID ≠ candidate := fun heq => hnew (heq ▸ (hs.slot a d dev hslot).1)
      dsimp only
      rw [if_neg hne]
      refine .existing hslot fun a' d' dev' h => ?_
      rw [hslots] at h
      split at h
      · rename_i had
        cases h
        exact ⟨dev, by rw [had.1, had.2, hslot], rfl⟩
      · exact ⟨dev', slot_of_reapedFor h, rfl⟩
    | denied hslots =>
      refine .denied fun a' d' dev' h => ?_
      rw [hslots] at h
      exact ⟨dev', slot_of_reapedFor h, rfl⟩
    | fresh hslot hslots =>
      dsimp only
      rw [if_pos rfl]
      refine .fresh rfl fun a' d' dev' h => ?_
      rw [hslots] at h
      split at h
      · rename_i had
        cases h
        exact .inl ⟨had.1, rfl⟩
      · exact .inr ⟨dev', slot_of_reapedFor h, rfl⟩

variable {a : String}

theorem owned_authorizes (hs : Owned s) {exp : Int} (hnew : candidate ∉ s.drawn)
    (h : Authorizes s a exp candidate s') : Owned s' := by
  have hdrawn : ∀ sid ∈ s.drawn, sid ∈ candidate :: s.drawn := fun _ => mem_cons_of_mem _
  cases h with
  | badRequest => exact hs
  | denied hslots => exact hs.shrinks hslots (.refl _) hdrawn
  | existing hslot hslots => exact hs.shrinks hslots (sessionsFrom_extend _ _ _) hdrawn
  | fresh hacct hslots =>
    constructor
    · intro sid sess' h
      rcases set_cases h with ⟨rfl, -⟩ | ⟨-, h⟩
      · exact mem_cons_self
      · exact hdrawn sid (hs.session sid sess' h)
    intro a' d' dev' h
    rcases hslots a' d' dev' h with ⟨rfl, hid⟩ | ⟨dev, hslot, hid⟩
    · rw [hid]
      refine ⟨mem_cons_self, fun sess' h => ?_⟩
      rcases set_cases h with ⟨-, rfl⟩ | ⟨hne, -⟩
      · exact hacct
      · exact absurd rfl hne
    obtain ⟨hmem, hown⟩ := hs.slot a' d' dev hslot
    rw [← hid]
    refine ⟨hdrawn _ hmem, fun sess' h => ?_⟩
    rcases set_cases h with ⟨heq, -⟩ | ⟨-, h⟩
    · exact absurd (heq ▸ hmem) hnew
    · exact hown sess' h

theorem owned_step (hs : Owned s) {a : Request} (hok : respects account s a) (ttl : Int) :
    Owned (step ttl s a).1 := by
  cases a with
  | authorize a limit body now candidate =>
    exact owned_authorizes hs hok (authorizes hs hok ttl a limit body now)
  | heartbeat a body now =>
    show Owned (heartbeat ttl s a body now).1
    cases body with
    | none => exact hs
    | some sid =>
      by_cases hsid : sid = ""
      · rw [heartbeat, if_pos hsid]
        exact hs
      rw [heartbeat_eq s hsid]
      split
      · exact hs
      · exact hs.shrinks (slotsFrom_refresh _ _ _ _) (sessionsFrom_extend _ _ _) fun _ h => h
  | stop a body =>
    show Owned (stop s a body).1
    cases body with
    | none => exact hs
    | some sid =>
      by_cases hsid : sid = ""
      · rw [stop, if_pos hsid]
        exact hs
      rw [stop_eq s a hsid]
      refine hs.shrinks ?_ (sessionsFrom_delete _ _) fun _ h => h
      cases ownSession a s.sessions sid with
      | none => exact .refl _
      | some sess => exact slotsFrom_release _ _ _
  | sweep now =>
    exact hs.shrinks (slotsFrom_sweep _ _ _) (sessionsFrom_reapExpired _ _) fun _ h => h

theorem slot_authorize_other (s : Stores) (ha : account ≠ a) (ttl : Int) (limit : Nat)
    (body : Option (String × String)) (now : Int) (candidate d : String) :
    (authorize ttl s a limit body now candidate).1.manager.slot account d =
      s.manager.slot account d := by
  cases body with
  | none => rfl
  | some body =>
    obtain ⟨assetID, deviceID⟩ := body
    have hslot := slot_admitDevice_other s.manager ha deviceID limit now (now + ttl) candidate d
    simp only [authorize]
    split
    · rfl
    split
    · rename_i hresult
      rw [hresult] at hslot
      exact hslot
    rename_i hresult
    rw [hresult] at hslot
    exact hslot

theorem ownSession_authorizes_other (hs : Owned s) (ha : account ≠ a) (hnew : candidate ∉ s.drawn)
    {exp : Int} (h : Authorizes s a exp candidate s') (j : String) :
    ownSession account s'.sessions j = ownSession account s.sessions j := by
  cases h with
  | badRequest | denied hslots => rfl
  | existing hslot hslots =>
    -- the session of another account's slot is not this account's
    rename_i m d dev
    have hnone : ownSession account s.sessions dev.sessionID = none :=
      ownSession_eq_none fun sess hget hacct =>
        ha (hacct.symm.trans ((hs.slot a d dev hslot).2 sess hget))
    exact ownSession_extend_other hnone _ j
  | fresh hacct hslots =>
    have hnone : ownSession account s.sessions candidate = none :=
      ownSession_eq_none fun sess hget _ => hnew (hs.session candidate sess hget)
    rw [ownSession_put, hacct, if_neg (Ne.symm ha)]
    split
    · rename_i hj
      rw [hj, hnone]
    · rfl

variable {t : Stores}

theorem agree_authorize_other (hs : Owned s) (h : Agree account s t) (ha : account ≠ a)
    (hnew : candidate ∉ s.drawn) (ttl : Int) (limit : Nat) (body : Option (String × String))
    (now : Int) :
    Agree account (authorize ttl s a limit body now candidate).1 t := by
  obtain ⟨hsess, hslot⟩ := h
  refine ⟨fun j => ?_, fun d => ?_⟩
  · rw [← hsess j]
    exact ownSession_authorizes_other hs ha hnew (authorizes hs hnew ttl a limit body now) j
  · rw [← hslot d]
    exact slot_authorize_other s ha ttl limit body now candidate d

theorem agree_heartbeat_other (h : Agree account s t) (ha : account ≠ a) (ttl : Int)
    (body : Option String) (now : Int) :
    Agree account (heartbeat ttl s a body now).1 t := by
  cases body with
  | none => exact h
  | some sid =>
    by_cases hsid : sid = ""
    · rw [heartbeat, if_pos hsid]
      exact h
    rw [heartbeat_eq s hsid]
    split
    · exact h
    rename_i sess hfound
    have hown := eq_some_of_filter_eq_some hfound
    obtain ⟨hget, hacct⟩ := ownSession_eq_some.mp hown
    obtain ⟨hsess, hslot⟩ := h
    refine ⟨fun j => ?_, fun d => ?_⟩
    · have hnone : ownSession account s.sessions sid = none := by
        refine ownSession_eq_none fun sess' hget' hacct' => ha ?_
        cases hget.symm.trans hget'
        exact hacct'.symm.trans hacct
      rw [← hsess j]
      exact ownSession_extend_other hnone _ j
    · rw [← hslot d, slot_refresh, if_neg fun h => ha h.1]

theorem agree_stop_other (h : Agree account s t) (ha : account ≠ a) {body : Option String}
    (hok : respects account s (.stop a body)) :
    Agree account (stop s a body).1 t := by
  cases body with
  | none => exact h
  | some sid =>
    by_cases hsid : sid = ""
    · rw [stop, if_pos hsid]
      exact h
    obtain ⟨hsess, hslot⟩ := h
    have hother := hok.resolve_left fun heq => ha heq.symm
    have hnone : ownSession account s.sessions sid = none :=
      ownSession_eq_none fun sess hget hacct => hother sess hget hacct
    rw [stop_eq s a hsid]
    refine ⟨fun j => ?_, fun d => ?_⟩
    · rw [← hsess j, ownSession_delete]
      split
      · rename_i hj
        rw [hj, hnone]
      · rfl
    rw [← hslot d]
    cases ownSession a s.sessions sid with
    | none => rfl
    | some sess =>
      show (s.manager.release a sess.deviceID).slot account d = _
      rw [slot_release, if_neg fun h => ha h.1]

/-! ## Isolation -/

def concerns (account : String) (a : Request) : Bool :=
  a.accountID.all fun accountID => accountID = account

theorem unwinding (ttl : Int) (account : String) :
    Unwinding (step ttl) (concerns account) (respects account)
      (fun s t => Owned s ∧ Agree account s t) (fun r r' => r = r') where
  kept := by
    rintro s t a ⟨hs, hst⟩ hkeep hok
    have hs' := owned_step hs hok ttl
    cases a with
    | authorize a limit body now candidate =>
      cases of_decide_eq_true hkeep
      obtain ⟨hagree, hans⟩ := agree_authorize hst ttl limit body now candidate
      exact ⟨⟨hs', hagree⟩, congrArg some hans⟩
    | heartbeat a body now =>
      cases of_decide_eq_true hkeep
      obtain ⟨hagree, hans⟩ := agree_heartbeat hst ttl body now
      exact ⟨⟨hs', hagree⟩, congrArg some hans⟩
    | stop a body =>
      cases of_decide_eq_true hkeep
      obtain ⟨hagree, hans⟩ := agree_stop hst body
      exact ⟨⟨hs', hagree⟩, congrArg some hans⟩
    | sweep now => exact ⟨⟨hs', agree_sweep hst now⟩, rfl⟩
  purged := by
    rintro s t a ⟨hs, hst⟩ hkeep hok
    have hs' := owned_step hs hok ttl
    refine ⟨hs', ?_⟩
    cases a with
    | authorize a limit body now candidate =>
      have ha : account ≠ a := fun heq => of_decide_eq_false hkeep heq.symm
      exact agree_authorize_other hs hst ha hok ttl limit body now
    | heartbeat a body now =>
      have ha : account ≠ a := fun heq => of_decide_eq_false hkeep heq.symm
      exact agree_heartbeat_other hst ha ttl body now
    | stop a body =>
      have ha : account ≠ a := fun heq => of_decide_eq_false hkeep heq.symm
      exact agree_stop_other hst ha hok
    | sweep now => cases hkeep

end

/-- In every sequence of requests and sweeps in which no other account stops a session of
the account, leaving out the requests of all other accounts changes none of the account's
responses, and at the end none of its sessions and slots. -/
theorem account_isolated (ttl : Int) (account : String) (as : List Request)
    (hok : StepsMeet (step ttl) (respects account) .new as) :
    ((answers (step ttl) .new as).filter fun x => concerns account x.1) =
        answers (step ttl) .new (as.filter (concerns account)) ∧
      Agree account (after (step ttl) .new as)
        (after (step ttl) .new (as.filter (concerns account))) := by
  have hnew : Owned .new ∧ Agree account .new .new := ⟨⟨nofun, nofun⟩, fun _ => rfl, fun _ => rfl⟩
  have hanswers := (unwinding ttl account).answers hnew hok
  refine ⟨?_, ((unwinding ttl account).after hnew hok).2⟩
  rw [← forall₂_eq_eq_eq]
  exact hanswers.imp fun _ _ h => Prod.ext h.1 h.2

def demoRequests : List Request :=
  [.authorize "alice" 2 (some ("match-1", "phone")) 0 "s1",
    .authorize "bob" 1 (some ("match-1", "tv")) 1 "s2", .heartbeat "bob" (some "s1") 2,
    .stop "bob" (some "s2"), .heartbeat "alice" (some "s1") 3]

theorem account_isolated_demo :
    ((answers (step 100) .new demoRequests).filter fun x => concerns "alice" x.1) =
      answers (step 100) .new [.authorize "alice" 2 (some ("match-1", "phone")) 0 "s1",
        .heartbeat "alice" (some "s1") 3] :=
  (account_isolated 100 "alice" demoRequests (by decide)).1

/-- `bob` stops the session of `alice`, whose next heartbeat then fails. -/
theorem stop_ends_other_session :
    let as := [Request.authorize "alice" 2 (some ("match-1", "phone")) 0 "s1",
      .stop "bob" (some "s1"), .heartbeat "alice" (some "s1") 3]
    ((answers (step 100) .new as).filter fun x => concerns "alice" x.1).map Prod.snd =
        [some (.authorized "s1" 0), some sessionExpired] ∧
      (answers (step 100) .new (as.filter (concerns "alice"))).map Prod.snd =
        [some (.authorized "s1" 0), some (.alive 0)] := by
  decide

end GoServices.Playback.Isolation
