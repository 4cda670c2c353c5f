/-
How exact the device limit is over whole sequences of manager calls.

What a caller can know of the slots follows from the calls and their answers: an admission that
was granted makes a slot or extends the live one, a refresh that was answered true extends, a
release ends.
-/
import GoServices.Base.Run
import GoServices.Playback.Manager

namespace GoServices.Playback.Admission

open Option

/-! ## Calls and what they tell -/

inductive Call
  | admitDevice (accountID deviceID : String) (limit : Nat) (now expiresAt : Int)
      (newSessionID : String)
  | refresh (accountID deviceID : String) (expiresAt : Int)
  | release (accountID deviceID : String)
  | reapExpired (now : Int)

inductive Answer
  | session (sid : Option String)
  | refreshed (present : Bool)
  | done

def call (m : Manager) : Call → Manager × Answer
  | .admitDevice a d limit now exp candidate =>
    let res := m.admitDevice a d limit now exp candidate
    (res.1, .session res.2)
  | .refresh a d exp => ((m.refresh a d exp).1, .refreshed (m.refresh a d exp).2)
  | .release a d => (m.release a d, .done)
  | .reapExpired now => (m.reapExpired now, .done)

def Call.time : Call → Option Int
  | .admitDevice _ _ _ now _ _ | .reapExpired now => some now
  | _ => none

abbrev Slots := String → String → Option Device

def Slots.set (slots : Slots) (a d : String) (dev : Option Device) : Slots :=
  fun a' d' => if a' = a ∧ d' = d then dev else slots a' d'

def observe (slots : Slots) : Call → Answer → Slots
  | .admitDevice a d _ now exp candidate, .session (some _) =>
    match Manager.unexpired now (slots a d) with
    | some dev => slots.set a d (some { dev with expiresAt := exp })
    | none => slots.set a d (some { expiresAt := exp, sessionID := candidate })
  | .refresh a d exp, .refreshed true =>
    slots.set a d ((slots a d).map fun dev => { dev with expiresAt := exp })
  | .release a d, _ => slots.set a d none
  | _, _ => slots

def live (slots : Slots) (account : String) (now : Int) : Set String :=
  {d | ∃ dev, slots account d = some dev ∧ now < dev.expiresAt}

structure State where
  manager : Manager
  slots : Slots
  clock : Option Int

def State.initial : State := { manager := .new, slots := fun _ _ => none, clock := none }

def step (s : State) (c : Call) : Option State :=
  if ∀ now ∈ c.time, ∀ t ∈ s.clock, t ≤ now then
    some
      { manager := (call s.manager c).1
        slots := observe s.slots c (call s.manager c).2
        clock := c.time.or s.clock }
  else none

/-! ## The manager holds the observed slots -/

def Holds (clock : Option Int) (held seen : Option Device) : Prop :=
  held = seen ∨ held = none ∧ ∃ dev, seen = some dev ∧ ∃ t ∈ clock, dev.expiresAt ≤ t

theorem unexpired_of_le {now : Int} {dev : Device} (h : dev.expiresAt ≤ now) :
    Manager.unexpired now (some dev) = none := by
  rw [Manager.unexpired, filter_some, if_neg]
  simpa using h

section Holds
variable {clock : Option Int} {held seen : Option Device} {now : Int}

section
variable (h : Holds clock held seen) (hnow : ∀ t ∈ clock, t ≤ now)
include h hnow

theorem Holds.later : Holds (some now) held seen := by
  rcases h with heq | ⟨hnone, dev, hseen, t, ht, hexp⟩
  · exact Or.inl heq
  · exact Or.inr ⟨hnone, dev, hseen, now, rfl, hexp.trans (hnow t ht)⟩

theorem Holds.reaped : Holds (some now) (Manager.unexpired now held) seen := by
  rcases h.later hnow with heq | ⟨hnone, hexp⟩
  · cases held with
    | none => exact Or.inl heq
    | some dev =>
      rcases le_or_gt dev.expiresAt now with hexp | hlive
      · exact Or.inr ⟨unexpired_of_le hexp, dev, heq.symm, now, rfl, hexp⟩
      · exact Or.inl ((Manager.unexpired_eq_some.mpr ⟨rfl, hlive⟩).trans heq)
  · rw [hnone]
    exact Or.inr ⟨rfl, hexp⟩

theorem Holds.unexpired_eq : Manager.unexpired now held = Manager.unexpired now seen := by
  rcases h.later hnow with heq | ⟨hnone, dev, hseen, t, ht, hexp⟩
  · rw [heq]
  cases ht
  rw [hnone, hseen, unexpired_of_le hexp]
  rfl

end

end Holds

def Tracks (s : State) : Prop := ∀ a d, Holds s.clock (s.manager.slot a d) (s.slots a d)

theorem tracks_initial : Tracks .initial := fun _ _ => Or.inl rfl

section Step
variable {s : State} {now : Int}

theorem Tracks.reapedFor (hs : Tracks s) (hnow : ∀ t ∈ s.clock, t ≤ now) (a a' d' : String) :
    Holds (some now) (s.manager.reapedFor a now a' d') (s.slots a' d') := by
  rw [Manager.reapedFor]
  split
  · exact (hs a' d').reaped hnow
  · exact (hs a' d').later hnow

theorem holds_set {clock : Option Int} {m : Manager} {slots : Slots} {a d : String}
    {dev : Option Device} {others : Slots}
    (hm : ∀ a' d', m.slot a' d' = if a' = a ∧ d' = d then dev else others a' d')
    (hothers : ∀ a' d', Holds clock (others a' d') (slots a' d')) (a' d' : String) :
    Holds clock (m.slot a' d') (slots.set a d dev a' d') := by
  rw [hm, Slots.set]
  split
  · exact Or.inl rfl
  · exact hothers a' d'

theorem Tracks.admitDevice (hs : Tracks s) (hnow : ∀ t ∈ s.clock, t ≤ now) (a d : String)
    (limit : Nat) (exp : Int) (candidate : String) (a' d' : String) :
    Holds (some now) ((s.manager.admitDevice a d limit now exp candidate).1.slot a' d')
      (observe s.slots (.admitDevice a d limit now exp candidate)
        (.session (s.manager.admitDevice a d limit now exp candidate).2) a' d') := by
  have hothers := hs.reapedFor hnow a
  have hsame := (hs a d).unexpired_eq hnow
  have hadmits := s.manager.admits a d limit now exp candidate
  generalize s.manager.admitDevice a d limit now exp candidate = res at hadmits ⊢
  obtain ⟨m, sid⟩ := res
  cases hadmits with
  | existing hslot hlive hslots =>
    rename_i dev
    have hdev : Manager.unexpired now (s.slots a d) = some dev :=
      hsame ▸ Manager.unexpired_eq_some.mpr ⟨hslot, hlive⟩
    simp only [observe, hdev]
    exact holds_set hslots hothers a' d'
  | denied hslots =>
    simp only [observe, hslots]
    exact hothers a' d'
  | fresh hslot hslots =>
    have hdev : Manager.unexpired now (s.slots a d) = none := hsame ▸ hslot
    simp only [observe, hdev]
    exact holds_set hslots hothers a' d'

theorem refresh_answer (m : Manager) (a d : String) (exp : Int) :
    (m.refresh a d exp).2 = (m.slot a d).isSome := by
  rw [Manager.refresh, Manager.slot]
  cases m.acct.get? a with
  | none => rfl
  | some acc =>
    simp only [bind_some]
    cases acc.devices.get? d <;> rfl

theorem Tracks.refresh (hs : Tracks s) (a d : String) (exp : Int) (a' d' : String) :
    Holds s.clock ((s.manager.refresh a d exp).1.slot a' d')
      (observe s.slots (.refresh a d exp) (.refreshed (s.manager.refresh a d exp).2) a' d') := by
  rw [refresh_answer]
  cases hslot : s.manager.slot a d with
  | none =>
    -- Nothing is written, and nothing is observed.
    rw [Manager.slot_refresh, hslot]
    show Holds s.clock _ (s.slots a' d')
    split
    · rename_i had
      rw [had.1, had.2, map_none, ← hslot]
      exact hs a d
    · exact hs a' d'
  | some dev =>
    have hseen : s.slots a d = some dev := by
      rcases hs a d with heq | ⟨hnone, _⟩
      · rw [← heq, hslot]
      · rw [hslot] at hnone
        cases hnone
    simp only [isSome_some, observe, hseen]
    refine holds_set (fun a' d' => ?_) hs a' d'
    rw [Manager.slot_refresh, hslot]

theorem Tracks.step {s' : State} {c : Call} (hs : Tracks s) (h : Admission.step s c = some s') :
    Tracks s' := by
  rw [Admission.step] at h
  split at h <;> cases h
  rename_i htime
  intro a' d'
  cases c with
  | admitDevice a d limit now exp candidate =>
    exact hs.admitDevice (htime now rfl) a d limit exp candidate a' d'
  | refresh a d exp => exact hs.refresh a d exp a' d'
  | release a d => exact holds_set (s.manager.slot_release a d) hs a' d'
  | reapExpired now =>
    show Holds (some now) ((s.manager.reapExpired now).slot a' d') (s.slots a' d')
    rw [Manager.slot_reapExpired]
    exact (hs a' d').reaped (htime now rfl)

end Step

/-! ## What an admission is decided on -/

section Decision
variable {s : State} {now : Int}

theorem Tracks.encard_live (hs : Tracks s) (hnow : ∀ t ∈ s.clock, t ≤ now) (a : String)
    (limit : Nat) :
    (live s.slots a now).encard = (s.manager.prepared a limit now).devices.len := by
  rw [← Table.encard_keys]
  congr 1
  ext d
  refine exists_congr fun dev => ?_
  rw [Manager.get?_prepared, (hs a d).unexpired_eq hnow, Manager.unexpired_eq_some]

variable {m : Manager} {a d : String}

theorem admitDevice_of_live {dev : Device}
    (h : Manager.unexpired now (m.slot a d) = some dev) (limit : Nat) (exp : Int)
    (candidate : String) :
    (m.admitDevice a d limit now exp candidate).2 = some dev.sessionID := by
  rw [← Manager.get?_prepared m a limit now d] at h
  simp only [Manager.admitDevice, h]

theorem admitDevice_of_not_live
    (h : Manager.unexpired now (m.slot a d) = none) (limit : Nat) (exp : Int) (candidate : String) :
    (m.admitDevice a d limit now exp candidate).2 =
      if (m.prepared a limit now).devices.len < limit then some candidate else none := by
  rw [← Manager.get?_prepared m a limit now d] at h
  have hlimit : (m.prepared a limit now).limit = limit := rfl
  simp only [Manager.admitDevice, h, hlimit]
  by_cases hlt : (m.prepared a limit now).devices.len < limit
  · rw [if_pos hlt, if_neg (not_le.mpr hlt)]
  · rw [if_neg hlt, if_pos (not_lt.mp hlt)]

theorem live_observe_subset (slots : Slots) (a d : String) (limit : Nat) (exp : Int)
    (candidate : String) (sid : Option String) :
    live (observe slots (.admitDevice a d limit now exp candidate) (.session sid)) a now ⊆
      insert d (live slots a now) := by
  rintro d' ⟨dev, hdev, hlive⟩
  by_cases hd : d' = d
  · exact Or.inl hd
  refine Or.inr ⟨dev, ?_, hlive⟩
  have hsame (dev' : Option Device) : slots.set a d dev' a d' = slots a d' := by
    rw [Slots.set, if_neg fun h => hd h.2]
  cases sid with
  | none => exact hdev
  | some sid =>
    cases hold : Manager.unexpired now (slots a d) with
    | none | some old =>
      rw [observe, hold] at hdev
      exact (hsame _).symm.trans hdev

end Decision

/-- After every sequence of calls whose times do not go back, and for every next `Admit`: a
device that is not live is admitted exactly when fewer than `limit` devices of the account
are live, and then at most `limit` are live afterwards; a live device is always admitted,
under the session id its slot was created with. -/
theorem admission_exact (calls : List Call) (s s' : State) (a d : String) (limit : Nat)
    (now exp : Int) (candidate : String) (hrun : run step .initial calls = some s)
    (hstep : step s (.admitDevice a d limit now exp candidate) = some s') :
    (d ∉ live s.slots a now → (s.manager.admitDevice a d limit now exp candidate).2 =
          (if (live s.slots a now).encard < limit then some candidate else none) ∧
        ((live s.slots a now).encard < limit → (live s'.slots a now).encard ≤ limit)) ∧
    ∀ dev, s.slots a d = some dev → now < dev.expiresAt →
      (s.manager.admitDevice a d limit now exp candidate).2 = some dev.sessionID := by
  have hs : Tracks s :=
    run_invariant (I := Tracks) (fun _ _ _ hs h => hs.step h) tracks_initial hrun
  rw [step] at hstep
  split at hstep
  · rename_i htime
    have hnow : ∀ t ∈ s.clock, t ≤ now := htime now rfl
    have hcount := hs.encard_live hnow a limit
    have hsame := (hs a d).unexpired_eq hnow
    constructor
    · intro hdead
      have hnone : Manager.unexpired now (s.slots a d) = none := by
        by_contra hne
        obtain ⟨dev, hdev⟩ := ne_none_iff_exists'.mp hne
        exact hdead ⟨dev, Manager.unexpired_eq_some.mp hdev⟩
      constructor
      · rw [admitDevice_of_not_live (hsame.trans hnone), hcount]
        simp only [Nat.cast_lt]
      intro hlt
      cases hstep
      calc (live (observe s.slots _ _) a now).encard
        _ ≤ (insert d (live s.slots a now)).encard :=
          Set.encard_le_encard (live_observe_subset ..)
        _ ≤ (live s.slots a now).encard + 1 := Set.encard_insert_le _ _
        _ ≤ limit := Order.add_one_le_of_lt hlt
    · intro dev hdev hlive
      exact admitDevice_of_live
        (hsame.trans (Manager.unexpired_eq_some.mpr ⟨hdev, hlive⟩)) limit exp candidate
  · cases hstep

theorem admission_exact_expired :
    ∃ s s', run step .initial [.admitDevice "acc" "tv" 1 0 10 "s1"] = some s ∧
      step s (.admitDevice "acc" "phone" 1 10 30 "s2") = some s' ∧
      (s.manager.slot "acc" "tv").isSome ∧
      (s.manager.admitDevice "acc" "phone" 1 10 30 "s2").2 = some "s2" ∧
      (s.manager.admitDevice "acc" "phone" 1 10 30 "s2").2 =
        (if (live s.slots "acc" 10).encard < (1 : Nat) then some "s2" else none) := by
  refine ⟨_, _, rfl, rfl, by decide +kernel, by decide +kernel, ?_⟩
  refine ((admission_exact [.admitDevice "acc" "tv" 1 0 10 "s1"] _ _ "acc" "phone" 1 10 30 "s2"
    rfl rfl).1 ?_).1
  rintro ⟨dev, hdev, -⟩
  cases (show none = some dev from hdev)

end GoServices.Playback.Admission
