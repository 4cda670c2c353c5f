/-
The concurrency manager: the live device slots of each account.

A slot names the session that owns it.
-/
import GoServices.Base.Table

namespace GoServices.Playback

open Table Option

structure Device where
  expiresAt : Int
  sessionID : String

structure Account where
  limit : Nat
  devices : Table String Device

/-- `reapExpiredLocked`. -/
def Account.reapExpired (a : Account) (now : Int) : Account :=
  { a with devices := a.devices.filter fun _ d => ¬ d.expiresAt ≤ now }

structure Manager where
  acct : Table String Account

namespace Manager

def new : Manager := { acct := .empty }

def setAccount (m : Manager) (accountID : String) (a : Account) : Manager :=
  { acct := m.acct.set accountID a }

/-- The account as `Admit` finds or creates it, with the latest limit and without
the expired devices. -/
def prepared (m : Manager) (accountID : String) (limit : Nat) (now : Int) : Account :=
  let a := (m.acct.get? accountID).getD { limit := limit, devices := .empty }
  { a with limit := limit }.reapExpired now

/-- `Admit`: the session id that owns the slot, or `none` over the limit. -/
def admitDevice (m : Manager) (accountID deviceID : String) (limit : Nat) (now expiresAt : Int)
    (newSessionID : String) : Manager × Option String :=
  let a := m.prepared accountID limit now
  let put (devices : Table String Device) : Manager :=
    m.setAccount accountID { a with devices := devices }
  match a.devices.get? deviceID with
  | some d => (put (a.devices.set deviceID { d with expiresAt := expiresAt }), some d.sessionID)
  | none =>
    if a.devices.len ≥ a.limit then (put a.devices, none)
    else
      (put (a.devices.set deviceID { expiresAt := expiresAt, sessionID := newSessionID }),
        some newSessionID)

def refresh (m : Manager) (accountID deviceID : String) (expiresAt : Int) : Manager × Bool :=
  match m.acct.get? accountID with
  | none => (m, false)
  | some a =>
    match a.devices.get? deviceID with
    | none => (m, false)
    | some d =>
      let devices := a.devices.set deviceID { d with expiresAt := expiresAt }
      (m.setAccount accountID { a with devices := devices }, true)

def release (m : Manager) (accountID deviceID : String) : Manager :=
  match m.acct.get? accountID with
  | none => m
  | some a =>
    let devices := a.devices.erase deviceID
    if devices.len = 0 then { acct := m.acct.erase accountID }
    else m.setAccount accountID { a with devices := devices }

/-- `ReapExpired`, over all accounts; an account without devices is dropped. -/
def reapExpired (m : Manager) (now : Int) : Manager :=
  { acct := (m.acct.mapValues fun a => a.reapExpired now).filter fun _ a => a.devices.len ≠ 0 }

def slot (m : Manager) (accountID deviceID : String) : Option Device :=
  (m.acct.get? accountID).bind fun a => a.devices.get? deviceID

/-! ## What the operations do to the slots -/

def unexpired (now : Int) (d : Option Device) : Option Device :=
  d.filter fun d => ¬ d.expiresAt ≤ now

variable {now : Int} {o : Option Device} {a' d' : String}

theorem unexpired_eq_some {d : Device} :
    unexpired now o = some d ↔ o = some d ∧ now < d.expiresAt := by
  rw [unexpired, filter_eq_some_iff]
  simp only [not_le, decide_eq_true_eq]

theorem slot_setAccount (m : Manager) (a : String) (acc : Account) (a' d' : String) :
    (m.setAccount a acc).slot a' d' = if a' = a then acc.devices.get? d' else m.slot a' d' := by
  rw [slot, setAccount, get?_set]
  split
  · rfl
  · rfl

theorem get?_prepared (m : Manager) (a : String) (limit : Nat) (now : Int) (d : String) :
    (m.prepared a limit now).devices.get? d = unexpired now (m.slot a d) := by
  rw [prepared, Account.reapExpired, get?_filter, slot, unexpired]
  cases m.acct.get? a with
  | none | some acc => rfl

/-- What `Admit` on an account does to the slots of all accounts before it looks at
the device. -/
def reapedFor (m : Manager) (a : String) (now : Int) (a' d' : String) : Option Device :=
  if a' = a then unexpired now (m.slot a' d') else m.slot a' d'

variable {m : Manager} {a : String} {dev : Device}

theorem slot_of_reapedFor (h : m.reapedFor a now a' d' = some dev) :
    m.slot a' d' = some dev := by
  rw [reapedFor] at h
  split at h
  · exact (unexpired_eq_some.mp h).1
  · exact h

theorem unexpired_of_some (h : o = some dev) :
    unexpired now o = some dev ∨ dev.expiresAt ≤ now := by
  rcases lt_or_ge now dev.expiresAt with hlt | hle
  · exact .inl (unexpired_eq_some.mpr ⟨h, hlt⟩)
  · exact .inr hle

theorem reapedFor_of_slot (h : m.slot a' d' = some dev) (a : String) (now : Int) :
    m.reapedFor a now a' d' = some dev ∨ dev.expiresAt ≤ now := by
  rw [reapedFor]
  split
  · exact unexpired_of_some h
  · exact .inl h

/-- The three ways `Admit` ends. -/
inductive Admits (m : Manager) (a d : String) (now exp : Int) (candidate : String) :
    Manager → Option String → Prop
  | existing {m' : Manager} {dev : Device} (hslot : m.slot a d = some dev)
      (hlive : now < dev.expiresAt)
      (hslots : ∀ a' d', m'.slot a' d' = if a' = a ∧ d' = d then some { dev with expiresAt := exp }
        else m.reapedFor a now a' d') :
      Admits m a d now exp candidate m' (some dev.sessionID)
  | denied {m' : Manager} (hslots : ∀ a' d', m'.slot a' d' = m.reapedFor a now a' d') :
      Admits m a d now exp candidate m' none
  | fresh {m' : Manager} (hslot : unexpired now (m.slot a d) = none)
      (hslots : ∀ a' d', m'.slot a' d' =
        if a' = a ∧ d' = d then some { expiresAt := exp, sessionID := candidate }
        else m.reapedFor a now a' d') :
      Admits m a d now exp candidate m' (some candidate)

theorem slot_setAccount_set (m : Manager) (a d : String) (limit : Nat) (now : Int) (dev : Device)
    (a' d' : String) :
    (m.setAccount a { m.prepared a limit now with
      devices := (m.prepared a limit now).devices.set d dev }).slot a' d' =
      if a' = a ∧ d' = d then some dev else m.reapedFor a now a' d' := by
  rw [slot_setAccount, reapedFor]
  by_cases ha : a' = a
  · subst ha
    simp only [if_true, true_and, get?_set, get?_prepared]
  · simp only [ha, if_false, false_and]

theorem admits (m : Manager) (a d : String) (limit : Nat) (now exp : Int) (candidate : String) :
    Admits m a d now exp candidate (m.admitDevice a d limit now exp candidate).1
      (m.admitDevice a d limit now exp candidate).2 := by
  have hget := get?_prepared m a limit now d
  rw [admitDevice]
  split
  · rename_i dev hdev
    rw [hget] at hdev
    obtain ⟨hslot, hlive⟩ := unexpired_eq_some.mp hdev
    exact .existing hslot hlive (slot_setAccount_set m a d limit now _)
  rename_i hdev
  split
  · refine .denied fun a' d' => ?_
    rw [slot_setAccount, get?_prepared, reapedFor]
    by_cases ha : a' = a
    · rw [if_pos ha, if_pos ha, ha]
    · rw [if_neg ha, if_neg ha]
  · exact .fresh (hget ▸ hdev) (slot_setAccount_set m a d limit now _)

theorem slot_of_acct_none (h : m.acct.get? a = none) (d : String) :
    m.slot a d = none := by
  rw [slot, h]
  rfl

theorem slot_of_acct {acc : Account} (h : m.acct.get? a = some acc) (d : String) :
    m.slot a d = acc.devices.get? d := by
  rw [slot, h]
  rfl

theorem slot_refresh (m : Manager) (a d : String) (exp : Int) (a' d' : String) :
    (m.refresh a d exp).1.slot a' d' =
      if a' = a ∧ d' = d then (m.slot a d).map fun dev => { dev with expiresAt := exp }
      else m.slot a' d' := by
  -- without the account or the device nothing is written
  have hnone (h : m.slot a d = none) : m.slot a' d' =
      if a' = a ∧ d' = d then (m.slot a d).map fun dev => { dev with expiresAt := exp }
      else m.slot a' d' := by
    by_cases had : a' = a ∧ d' = d
    · rw [if_pos had, had.1, had.2, h]
      rfl
    · rw [if_neg had]
  rw [refresh]
  cases hacct : m.acct.get? a with
  | none => exact hnone (slot_of_acct_none hacct d)
  | some acc =>
    have hslot := slot_of_acct hacct
    cases hdev : acc.devices.get? d with
    | none =>
      simp only [hdev]
      exact hnone ((hslot d).trans hdev)
    | some dev =>
      simp only [hdev]
      rw [slot_setAccount]
      by_cases ha : a' = a
      · subst ha
        simp only [if_true, true_and, get?_set, hslot, hdev, map_some]
      · simp only [ha, if_false, false_and]

theorem slot_release (m : Manager) (a d a' d' : String) :
    (m.release a d).slot a' d' = if a' = a ∧ d' = d then none else m.slot a' d' := by
  rw [release]
  cases hacct : m.acct.get? a with
  | none =>
    by_cases h : a' = a ∧ d' = d
    · rw [if_pos h, h.1]
      exact slot_of_acct_none hacct d'
    · rw [if_neg h]
  | some acc =>
    have hdevices (k : String) :
        (acc.devices.erase d).get? k = if k = d then none else m.slot a k := by
      rw [get?_erase, slot_of_acct hacct]
    by_cases hlen : (acc.devices.erase d).len = 0
    · simp only [hlen, if_true]
      by_cases ha : a' = a
      · subst ha
        simp only [true_and]
        rw [← hdevices, get?_of_len_eq_zero hlen]
        exact slot_of_acct_none (by rw [get?_erase, if_pos rfl]) d'
      · simp only [ha, false_and, if_false, slot, get?_erase]
    · simp only [hlen, if_false]
      rw [slot_setAccount]
      by_cases ha : a' = a
      · subst ha
        simp only [if_true, true_and, hdevices]
      · simp only [ha, if_false, false_and]

theorem slot_reapExpired (m : Manager) (now : Int) (a d : String) :
    (m.reapExpired now).slot a d = unexpired now (m.slot a d) := by
  simp only [slot, reapExpired, get?_filter, get?_mapValues]
  cases m.acct.get? a with
  | none => rfl
  | some acc =>
    have hget : (acc.reapExpired now).devices.get? d = unexpired now (acc.devices.get? d) :=
      get?_filter _ _ _
    rw [map_some, bind_some, ← hget, filter_some]
    split
    · rfl
    rename_i hlen
    have hlen : (acc.reapExpired now).devices.len = 0 := by simpa using hlen
    rw [get?_of_len_eq_zero hlen]
    rfl

/-! ## The device limit -/

def Within (limit : String → Nat) (m : Manager) : Prop :=
  ∀ a acc, m.acct.get? a = some acc → acc.devices.len ≤ limit a

section Within
variable {limit : String → Nat} {m : Manager}

section
variable (hm : m.Within limit)
include hm

theorem Within.setAccount {a : String} {acc : Account} (hacc : acc.devices.len ≤ limit a) :
    (m.setAccount a acc).Within limit := by
  intro a' acc' h
  rw [Manager.setAccount, get?_set] at h
  split at h
  · rename_i ha
    cases h
    exact ha ▸ hacc
  · exact hm a' acc' h

theorem Within.prepared_len (a : String) (now : Int) :
    (m.prepared a (limit a) now).devices.len ≤ limit a := by
  refine (len_filter_le _ _).trans ?_
  cases h : m.acct.get? a with
  | none => exact Nat.zero_le _
  | some acc => exact hm a acc h

theorem Within.admitDevice (a d : String) (now exp : Int) (candidate : String) :
    (m.admitDevice a d (limit a) now exp candidate).1.Within limit := by
  have hlen := hm.prepared_len a now
  rw [Manager.admitDevice]
  split
  · rename_i dev hdev
    exact hm.setAccount ((len_set_of_some hdev _).trans hlen)
  split
  · exact hm.setAccount hlen
  rename_i hlt
  have hlt : (m.prepared a (limit a) now).devices.len < limit a := Nat.lt_of_not_le hlt
  exact hm.setAccount ((len_set_le _ _ _).trans hlt)

theorem Within.refresh (a d : String) (exp : Int) : (m.refresh a d exp).1.Within limit := by
  rw [Manager.refresh]
  split
  · exact hm
  rename_i acc hacct
  split
  · exact hm
  · rename_i dev hdev
    exact hm.setAccount ((len_set_of_some hdev _).trans (hm a acc hacct))

theorem Within.release (a d : String) : (m.release a d).Within limit := by
  rw [Manager.release]
  cases hacct : m.acct.get? a with
  | none => exact hm
  | some acc =>
    by_cases hlen : (acc.devices.erase d).len = 0
    · simp only [hlen, if_true]
      intro a' acc' h
      rw [get?_erase] at h
      split at h <;> try cases h
      exact hm a' acc' h
    · simp only [hlen, if_false]
      exact hm.setAccount ((len_erase_le _ _).trans (hm a acc hacct))

theorem Within.reapExpired (now : Int) : (m.reapExpired now).Within limit := by
  intro a acc h
  rw [Manager.reapExpired, get?_filter, get?_mapValues] at h
  obtain ⟨acc', hacc', rfl⟩ := map_eq_some_iff.mp (eq_some_of_filter_eq_some h)
  exact (len_filter_le _ _).trans (hm a acc' hacc')

end

end Within

end Manager

end GoServices.Playback
