/-
The search queries of RailCache: normalization, validation, cache keys and freshness.

A request is validated before it becomes a key: its stations are known, its class is allowed and
its date is a day within the booking window.
-/
import GoServices.Base.Separator
import GoServices.Base.Trim

namespace GoServices.RailCache.Search

open List

/-! ## Texts -/

/-- The tables of the package `unicode`: `ToUpper` and `IsSpace`. -/
structure Runes where
  upper : Char → Char
  isSpace : Char → Bool
  upper_upper : ∀ c, upper (upper c) = upper c
  isSpace_upper : ∀ c, isSpace (upper c) = isSpace c

theorem toUpper_cases (c : Char) :
    c.toUpper = c ∨ 97 ≤ c.toNat ∧ c.toNat ≤ 122 ∧ c.toUpper.toNat + 32 = c.toNat := by
  unfold Char.toUpper
  split
  · rename_i hlower
    obtain ⟨hle, hge⟩ := hlower
    change 97 ≤ c.val.toNat at hle
    change c.val.toNat ≤ 122 at hge
    refine .inr ⟨hle, hge, ?_⟩
    change (c.val + ('A'.val - 'a'.val)).toNat + 32 = c.val.toNat
    have hshift : ('A'.val - 'a'.val).toNat = 2 ^ 32 - 32 := by decide
    rw [UInt32.toNat_add, hshift]
    omega
  · exact .inl rfl

/-- The tables up to `U+007F`. -/
def Runes.ascii : Runes where
  upper := Char.toUpper
  isSpace c := c.toNat = 32 || (9 ≤ c.toNat && c.toNat ≤ 13)
  upper_upper c := by
    rcases toUpper_cases c with hsame | ⟨_, _, hc⟩
    · rw [hsame, hsame]
    rcases toUpper_cases c.toUpper with hsame | ⟨_, _, _⟩
    · exact hsame
    · omega
  isSpace_upper c := by
    rcases toUpper_cases c with hsame | ⟨_, _, hc⟩
    · rw [hsame]
    rw [Bool.eq_iff_iff]
    simp only [Bool.or_eq_true, Bool.and_eq_true, decide_eq_true_eq]
    omega

section
variable (u : Runes) (s : String)

def toUpper : String := String.ofList (s.toList.map u.upper)

def trimSpace : String := String.ofList (trim u.isSpace s.toList)

theorem toUpper_toUpper : toUpper u (toUpper u s) = toUpper u s := by
  simp only [toUpper, String.toList_ofList, map_map]
  rw [show u.upper ∘ u.upper = u.upper from funext u.upper_upper]

theorem trimSpace_trimSpace : trimSpace u (trimSpace u s) = trimSpace u s := by
  simp only [trimSpace, String.toList_ofList, trim_trim]

theorem trimSpace_toUpper :
    trimSpace u (toUpper u s) = toUpper u (trimSpace u s) := by
  simp only [trimSpace, toUpper, String.toList_ofList, trim_map]
  rw [show u.isSpace ∘ u.upper = u.isSpace from funext u.isSpace_upper]

end

/-! ## Queries and keys -/

structure Query where
  fromStation : String
  toStation : String
  date : String
  coachClass : String
  deriving DecidableEq

def keyVersion : String := "v1"

section
variable (u : Runes)

def Query.normalize (q : Query) : Query :=
  { fromStation := toUpper u (trimSpace u q.fromStation)
    toStation := toUpper u (trimSpace u q.toStation)
    date := trimSpace u q.date
    coachClass := toUpper u (trimSpace u q.coachClass) }

def cacheKey (q : Query) : String :=
  ":".intercalate ["avail", keyVersion, toUpper u q.fromStation, toUpper u q.toStation, q.date,
    toUpper u q.coachClass]

def lockKey (key : String) : String := "lock:" ++ key

theorem normalize_normalize (q : Query) : (q.normalize u).normalize u = q.normalize u := by
  simp only [Query.normalize, trimSpace_toUpper, trimSpace_trimSpace, toUpper_toUpper]

structure Query.Plain (q : Query) : Prop where
  normal : q.normalize u = q
  fromStation : ':' ∉ q.fromStation.toList
  toStation : ':' ∉ q.toStation.toList
  date : ':' ∉ q.date.toList

variable {u} {q q' : Query}

theorem toUpper_of_normal (h : q.normalize u = q) :
    toUpper u q.fromStation = q.fromStation ∧ toUpper u q.toStation = q.toStation ∧
      toUpper u q.coachClass = q.coachClass := by
  rw [← h]
  simp only [Query.normalize, toUpper_toUpper, and_self]

theorem cacheKey_toList (h : q.normalize u = q) :
    (cacheKey u q).toList = "avail:v1:".toList ++ (q.fromStation.toList ++ ':' ::
      (q.toStation.toList ++ ':' :: (q.date.toList ++ ':' :: q.coachClass.toList))) := by
  obtain ⟨hfrom, hto, hclass⟩ := toUpper_of_normal h
  rw [cacheKey, hfrom, hto, hclass]
  simp [String.intercalate_cons_cons, keyVersion]

theorem cacheKey_inj (h : q.Plain u) (h' : q'.Plain u) (hkey : cacheKey u q = cacheKey u q') :
    q = q' := by
  have hlist := congrArg String.toList hkey
  rw [cacheKey_toList h.normal, cacheKey_toList h'.normal, append_cancel_left_eq] at hlist
  obtain ⟨hfrom, hlist⟩ := separator_append_inj h.fromStation h'.fromStation hlist
  obtain ⟨hto, hlist⟩ := separator_append_inj h.toStation h'.toStation hlist
  obtain ⟨hdate, hclass⟩ := separator_append_inj h.date h'.date hlist
  cases q
  cases q'
  simp only [Query.mk.injEq]
  exact ⟨String.toList_inj.mp hfrom, String.toList_inj.mp hto, String.toList_inj.mp hdate,
    String.toList_inj.mp hclass⟩

end

/-! ## Dates -/

def daysIn (year month : Nat) : Nat :=
  match month with
  | 2 => if year % 4 = 0 ∧ (year % 100 ≠ 0 ∨ year % 400 = 0) then 29 else 28
  | 4 | 6 | 9 | 11 => 30
  | _ => 31

def dayNumber (year month day : Nat) : Int :=
  let y : Int := year - 1
  365 * y + y / 4 - y / 100 + y / 400 +
    ((List.range (month - 1)).map fun m => (daysIn year (m + 1) : Int)).sum + day - 1 - 719162

def digits? (l : List Char) : Option Nat :=
  l.foldlM (fun n c => if c.isDigit then some (10 * n + (c.toNat - '0'.toNat)) else none) 0

/-- `time.Parse` with the layout `2006-01-02`, as a number of days. -/
def parseDate (date : String) : Option Int :=
  match date.toList with
  | [y₁, y₂, y₃, y₄, '-', m₁, m₂, '-', d₁, d₂] => do
    let year ← digits? [y₁, y₂, y₃, y₄]
    let month ← digits? [m₁, m₂]
    let day ← digits? [d₁, d₂]
    if 1 ≤ month ∧ month ≤ 12 ∧ 1 ≤ day ∧ day ≤ daysIn year month then
      some (dayNumber year month day)
    else none
  | _ => none

def day : Int := 24 * 3600 * 1000000000

/-- The day of a time in UTC, `Truncate(24 * time.Hour)`. -/
def dayOf (now : Int) : Int := now.fdiv day

theorem digits?_isDigit {l : List Char} {n : Nat} (h : digits? l = some n) :
    ∀ c ∈ l, c.isDigit = true := by
  unfold digits? at h
  generalize 0 = acc at h
  induction l generalizing acc with
  | nil => exact nofun
  | cons c l ih =>
    rw [foldlM_cons] at h
    split at h <;> try cases h
    rename_i hdigit
    exact forall_mem_cons.mpr ⟨hdigit, ih _ h⟩

theorem colon_notMem_of_parseDate {date : String} {d : Int} (h : parseDate date = some d) :
    ':' ∉ date.toList := by
  unfold parseDate at h
  split at h <;> try cases h
  rename_i y₁ y₂ y₃ y₄ m₁ m₂ d₁ d₂ hlist
  obtain ⟨year, hyear, h⟩ := Option.bind_eq_some_iff.mp h
  obtain ⟨month, hmonth, h⟩ := Option.bind_eq_some_iff.mp h
  obtain ⟨dayOfMonth, hday, -⟩ := Option.bind_eq_some_iff.mp h
  have hdigit {l : List Char} {n : Nat} (hl : digits? l = some n) : ':' ∉ l :=
    fun hmem => absurd (digits?_isDigit hl ':' hmem) (by decide)
  have hyear := hdigit hyear
  have hmonth := hdigit hmonth
  have hday := hdigit hday
  simp only [mem_cons, not_mem_nil, or_false, not_or] at hyear hmonth hday
  rw [hlist]
  simp [hyear, hmonth, hday]

/-! ## Validation -/

inductive Reason
  | sameStations
  | unknownOrigin (code : String)
  | unknownDestination (code : String)
  | unsupportedClass (coachClass : String)
  | dateFormat
  | past
  | beyondWindow (days : Int)

/-- `Validator`, with the station codes that its cache holds. -/
structure Validator where
  stations : List String
  classes : List String
  windowDays : Int

/-- The checks of `Validate` on a normalized query. -/
def Validator.check (v : Validator) (now : Int) (q : Query) : Option Reason :=
  if q.fromStation = q.toStation then some .sameStations
  else if q.fromStation ∉ v.stations then some (.unknownOrigin q.fromStation)
  else if q.toStation ∉ v.stations then some (.unknownDestination q.toStation)
  else if q.coachClass ∉ v.classes then some (.unsupportedClass q.coachClass)
  else
    match parseDate q.date with
    | none => some .dateFormat
    | some d =>
      if d < dayOf now then some .past
      else if d > dayOf now + v.windowDays then some (.beyondWindow v.windowDays)
      else none

def Validator.validate (u : Runes) (v : Validator) (now : Int) (q : Query) :
    Query × Option Reason :=
  (q.normalize u, v.check now (q.normalize u))

variable {v : Validator} {now : Int} {q : Query}

theorem check_none (h : v.check now q = none) :
    q.fromStation ∈ v.stations ∧ q.toStation ∈ v.stations ∧ (parseDate q.date).isSome := by
  unfold Validator.check at h
  split at h
  · cases h
  split at h
  · cases h
  rename_i hfrom
  split at h
  · cases h
  rename_i hto
  split at h
  · cases h
  split at h <;> try cases h
  rename_i hdate
  exact ⟨not_not.mp hfrom, not_not.mp hto, Option.isSome_of_eq_some hdate⟩

theorem plain_of_check {u : Runes} (hcodes : ∀ code ∈ v.stations, ':' ∉ code.toList)
    (h : v.check now (q.normalize u) = none) :
    (q.normalize u).Plain u := by
  obtain ⟨hfrom, hto, hdate⟩ := check_none h
  obtain ⟨d, hdate⟩ := Option.isSome_iff_exists.mp hdate
  exact ⟨normalize_normalize u q, hcodes _ hfrom, hcodes _ hto, colon_notMem_of_parseDate hdate⟩

/-! ## Freshness -/

structure Params where
  ttl : Int
  tatkalTTL : Int
  jitter : Rat
  negativeTTL : Int
  waitTries : Int

def daysAhead (date : String) (now : Int) : Int :=
  match parseDate date with
  | none => -1
  | some d => d - dayOf now

def Params.freshnessFor (p : Params) (q : Query) (now : Int) : Int :=
  let d := daysAhead q.date now
  if d < 0 then p.ttl
  else if d ≤ 1 then p.tatkalTTL
  else if d ≤ 7 then p.ttl.tdiv 2
  else p.ttl

/-- `jitterTTL` with the offset that it draws. -/
def jitterTTL (base : Int) (fraction : Rat) (offset : Int) : Int :=
  if fraction ≤ 0 then base else base + offset

end GoServices.RailCache.Search
