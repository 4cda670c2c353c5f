/-
The Redis client's wire protocol.

`Do` writes a command as an array of bulk strings, and `readRESP` reads one reply.  A bulk string
is read by its length, so it may contain the line terminator.
-/
import GoServices.Base.Decimal
import GoServices.Base.FixedWidth

namespace GoServices.HoldQueue.Resp

open List

/-- What `readRESP` returns as `any`; a character stands for a byte. -/
inductive Value where
  | str (s : List Char)
  | int (n : Int)
  | null
  | array (vs : List Value)

inductive ReadError where
  | eof
  | reply (line : List Char)
  | number (line : List Char)
  | bulkLength (line : List Char)
  | arrayLength (line : List Char)
  | unsupported (tag : Char)

/-- A read that does not return a value.  `fuel` bounds the nesting of the model only. -/
inductive Fault where
  | err (e : ReadError)
  | panicked
  | fuel

abbrev Read := Except Fault

/-- `ReadString('\n')` without the line terminator. -/
def readLine (bs : List Char) : Read (List Char × List Char) :=
  match bs.dropWhile (· ≠ '\n') with
  | [] => .error (.err .eof)
  | _ :: rest =>
    let line := bs.takeWhile (· ≠ '\n')
    .ok (if line.getLast? = some '\r' then line.dropLast else line, rest)

/-- The loop over the elements of an array. -/
def readAll (read : List Char → Read (Value × List Char)) : Nat → List Char →
  Read (List Value × List Char)
  | 0, bs => .ok ([], bs)
  | n + 1, bs => do
    let (v, bs) ← read bs
    let (vs, bs) ← readAll read n bs
    .ok (v :: vs, bs)

section
variable (maxAlloc : Nat)

/-- The lengths that `make` accepts for elements of the given size; `maxAlloc` is the most memory
that the runtime allocates at once, 2^48 bytes on a 64-bit machine. -/
def Fits (size : Nat) (length : Int) : Prop := 0 ≤ length ∧ size * length ≤ maxAlloc
  deriving Decidable

/-- `make([]byte, length+2)`, whose sum is an `int` and may wrap, and `io.ReadFull`. -/
def readBulk (length : Nat) (bs : List Char) : Read (Value × List Char) :=
  if ¬ Fits maxAlloc 1 (int64 (length + 2)) then .error .panicked
  else if bs.length < length + 2 then .error (.err .eof)
  else .ok (.str (bs.take length), bs.drop (length + 2))

variable (read : List Char → Read (Value × List Char))

/-- `make([]any, length)`, where an `any` has 16 bytes, and the loop. -/
def readArray (length : Nat) (bs : List Char) :
    Read (Value × List Char) :=
  if ¬ Fits maxAlloc 16 length then .error .panicked
  else (readAll read length bs).map fun p => (.array p.1, p.2)

/-- The switch on the first byte. -/
def readReply (tag : Char) (line rest : List Char) :
    Read (Value × List Char) :=
  match tag with
  | '+' => .ok (.str line, rest)
  | '-' => .error (.err (.reply line))
  | ':' =>
    match parseInt line with
    | some n => .ok (.int n, rest)
    | none => .error (.err (.number line))
  | '$' =>
    match parseInt line with
    | some (.ofNat length) => readBulk maxAlloc length rest
    | some (-1) => .ok (.null, rest)
    | _ => .error (.err (.bulkLength line))
  | '*' =>
    match parseInt line with
    | some (.ofNat length) => readArray maxAlloc read length rest
    | some (-1) => .ok (.null, rest)
    | _ => .error (.err (.arrayLength line))
  | tag => .error (.err (.unsupported tag))

def readRESP : Nat → List Char → Read (Value × List Char)
  | 0, _ => .error .fuel
  | _ + 1, [] => .error (.err .eof)
  | fuel + 1, tag :: bs =>
    (readLine bs).bind fun p => readReply maxAlloc (readRESP fuel) tag p.1 p.2

end

/-! ## The bytes of a reply -/

def crlf : List Char := ['\r', '\n']

/-- The bytes of a line: its text, and a terminator of one or two bytes. -/
def Line (text bs : List Char) : Prop :=
  '\n' ∉ text ∧ (bs = text ++ crlf ∨ bs = text ++ ['\n'] ∧ text.getLast? ≠ some '\r')

section
variable (maxAlloc : Nat)

mutual
/-- The bytes of a whole reply that is not an error and fits in memory. -/
inductive Reply : Value → List Char → Prop
  | simple {s b} : Line s b → Reply (.str s) ('+' :: b)
  | int {t b n} : Line t b → parseInt t = some n → Reply (.int n) (':' :: b)
  | bulk {t b s e} : Line t b → parseInt t = some (.ofNat s.length) → e.length = 2 →
    Fits maxAlloc 1 (int64 (s.length + 2)) → Reply (.str s) ('$' :: b ++ (s ++ e))
  | nullBulk {t b} : Line t b → parseInt t = some (-1) → Reply .null ('$' :: b)
  | nullArray {t b} : Line t b → parseInt t = some (-1) → Reply .null ('*' :: b)
  | array {t b vs bs} : Line t b → parseInt t = some (.ofNat vs.length) →
    Fits maxAlloc 16 vs.length → Replies vs bs → Reply (.array vs) ('*' :: b ++ bs)
inductive Replies : List Value → List Char → Prop
  | nil : Replies [] []
  | cons {v b vs bs} : Reply v b → Replies vs bs → Replies (v :: vs) (b ++ bs)
end

/-- The stream announces a length that does not fit: at once, or in an element of an array after
other elements that are whole replies. -/
inductive Oversized : List Char → Prop
  | bulk {t b n rest} : Line t b → parseInt t = some (.ofNat n) →
    ¬ Fits maxAlloc 1 (int64 (n + 2)) → Oversized ('$' :: b ++ rest)
  | array {t b n rest} : Line t b → parseInt t = some (.ofNat n) → ¬ Fits maxAlloc 16 n →
    Oversized ('*' :: b ++ rest)
  | element {t b n vs bs rest} : Line t b → parseInt t = some (.ofNat n) →
    Replies maxAlloc vs bs → vs.length < n → Oversized rest → Oversized ('*' :: b ++ (bs ++ rest))

end

theorem readLine_append {text b : List Char} (h : Line text b) (rest : List Char) :
    readLine (b ++ rest) = .ok (text, rest) := by
  have hread : ∀ line : List Char, '\n' ∉ line → readLine (line ++ '\n' :: rest) =
      .ok (if line.getLast? = some '\r' then line.dropLast else line, rest) := by
    intro line hline
    have hall : ∀ c ∈ line, decide (c ≠ '\n') = true := fun c hc =>
      decide_eq_true fun h => hline (h ▸ hc)
    rw [readLine, dropWhile_append_of_pos hall, takeWhile_append_of_pos hall]
    simp
  obtain ⟨hn, rfl | ⟨rfl, hlast⟩⟩ := h
  · have hcr := hread (text ++ ['\r']) (by simp [hn])
    simpa [crlf] using hcr
  · have hlf := hread text hn
    rw [if_neg hlast] at hlf
    simpa using hlf

theorem readLine_cases (bs : List Char) : readLine bs = .error (.err .eof) ∨
    ∃ text b rest, bs = b ++ rest ∧ Line text b := by
  have hsplit := takeWhile_append_dropWhile (p := (· ≠ '\n')) (l := bs)
  have htext : '\n' ∉ bs.takeWhile (· ≠ '\n') := fun h => by
    simpa using all_eq_true.mp all_takeWhile _ h
  rw [readLine]
  generalize bs.takeWhile (· ≠ '\n') = line at hsplit htext
  cases hdrop : bs.dropWhile (· ≠ '\n') with
  | nil => exact .inl rfl
  | cons c rest =>
    obtain rfl : c = '\n' := by
      have hc := head?_dropWhile_not (· ≠ '\n') bs
      rw [hdrop] at hc
      simpa using hc
    rw [hdrop] at hsplit
    have hbytes : bs = line ++ ['\n'] ++ rest := by rw [← hsplit, append_assoc]; rfl
    by_cases hlast : line.getLast? = some '\r'
    · obtain ⟨text, rfl⟩ := getLast?_eq_some_iff.mp hlast
      have hn : '\n' ∉ text := fun h => htext (mem_append_left _ h)
      exact .inr ⟨text, _, rest, hbytes, hn, .inl (by simp [crlf])⟩
    · exact .inr ⟨line, _, rest, hbytes, htext, .inr ⟨rfl, hlast⟩⟩

variable {maxAlloc : Nat}

theorem readRESP_line {text b : List Char} (h : Line text b) (fuel : Nat) (tag : Char)
    (rest : List Char) : readRESP maxAlloc (fuel + 1) (tag :: b ++ rest) =
      readReply maxAlloc (readRESP maxAlloc fuel) tag text rest := by
  rw [cons_append, readRESP, readLine_append h]
  rfl

/-! ## Whole replies are read -/

mutual
theorem Reply.read {v bs} : Reply maxAlloc v bs → ∀ (fuel : Nat) (rest : List Char),
    bs.length ≤ fuel → readRESP maxAlloc (fuel + 1) (bs ++ rest) = .ok (v, rest)
  | .simple hline, fuel, rest, _ => by rw [readRESP_line hline, readReply]
  | .int hline hn, fuel, rest, _ => by simp only [readRESP_line hline, readReply, hn]
  | @Reply.bulk _ _ _ s e hline hlen htwo hfits, fuel, rest, _ => by
    rw [append_assoc, readRESP_line hline]
    have hlong : ¬ (s ++ (e ++ rest)).length < s.length + 2 := by simp; omega
    have hdrop : (s ++ (e ++ rest)).drop (s.length + 2) = rest := by simp [drop_append, htwo]
    simp only [readReply, hlen, readBulk, hfits, not_true, if_false, append_assoc, if_neg hlong,
      hdrop, take_left]
  | .nullBulk hline hn, fuel, rest, _ | .nullArray hline hn, fuel, rest, _ =>
    by simp only [readRESP_line hline, readReply, hn]
  | .array hline hlen hfits hall, fuel, rest, hfuel => by
    simp only [cons_append, length_cons, length_append] at hfuel
    obtain _ | fuel := fuel
    · omega
    rw [append_assoc, readRESP_line hline]
    simp [readReply, hlen, readArray, hfits, hall.read fuel rest (by omega), Except.map]
theorem Replies.read {vs bs} : Replies maxAlloc vs bs → ∀ (fuel : Nat) (rest : List Char),
    bs.length ≤ fuel →
    readAll (readRESP maxAlloc (fuel + 1)) vs.length (bs ++ rest) = .ok (vs, rest)
  | .nil, _, _, _ => by
    simp [readAll]
  | @Replies.cons _ _ _ _ bs hv hvs, fuel, rest, hfuel => by
    simp only [List.length_append] at hfuel
    have hhead := hv.read fuel (bs ++ rest) (by omega)
    have htail := hvs.read fuel rest (by omega)
    simp [readAll, hhead, htail, bind, Except.bind]
end

/-! ## Malformed replies -/

/-- What is known of a read: what it returns is what the bytes it took stand for, and it panics
only under the condition. -/
inductive Settles {α : Type} (stands : α → List Char → Prop) (big : Prop) (bs : List Char) :
    Read (α × List Char) → Prop
  | ok {v b rest} : bs = b ++ rest → stands v b → Settles stands big bs (.ok (v, rest))
  | err (e : ReadError) : Settles stands big bs (.error (.err e))
  | panicked : big → Settles stands big bs (.error .panicked)

theorem readAll_settles {fuel : Nat} (hread : ∀ bs : List Char, bs.length < fuel →
      Settles (Reply maxAlloc) (Oversized maxAlloc bs) bs (readRESP maxAlloc fuel bs))
    (n : Nat) {bs : List Char} (hfuel : bs.length < fuel) :
    Settles (fun vs b => vs.length = n ∧ Replies maxAlloc vs b)
      (∃ vs b rest, bs = b ++ rest ∧ vs.length < n ∧ Replies maxAlloc vs b ∧
        Oversized maxAlloc rest) bs (readAll (readRESP maxAlloc fuel) n bs) := by
  induction n generalizing bs with
  | zero => exact .ok (b := []) rfl ⟨rfl, .nil⟩
  | succ n ih =>
    have hbs := hread bs hfuel
    rw [readAll]
    generalize readRESP maxAlloc fuel bs = first at hbs ⊢
    cases hbs with
    | err e => exact .err e
    | panicked hbig => exact .panicked ⟨[], [], bs, rfl, n.succ_pos, .nil, hbig⟩
    | @ok v b rest hsplit hv =>
      subst hsplit
      rw [length_append] at hfuel
      have hrest := @ih rest (by omega)
      simp only [bind, Except.bind]
      generalize readAll (readRESP maxAlloc fuel) n rest = others at hrest ⊢
      cases hrest with
      | err e => exact .err e
      | panicked hbig =>
        obtain ⟨vs, b', rest', rfl, hlt, hvs, hbig⟩ := hbig
        exact .panicked
          ⟨v :: vs, b ++ b', rest', by simp, Nat.succ_lt_succ hlt, .cons hv hvs, hbig⟩
      | ok hsplit hvs =>
        subst hsplit
        exact .ok (append_assoc ..).symm ⟨congrArg (· + 1) hvs.1, .cons hv hvs.2⟩

section
variable {text b rest : List Char} (hline : Line text b)
include hline

theorem readBulk_settles {n : Nat} (hn : parseInt text = some (.ofNat n)) :
    Settles (Reply maxAlloc) (Oversized maxAlloc ('$' :: b ++ rest)) ('$' :: b ++ rest)
      (readBulk maxAlloc n rest) := by
  rw [readBulk]
  split
  · exact .panicked (.bulk hline hn ‹_›)
  split
  · exact .err _
  rename_i hfits hlong
  have htake : (rest.take n).length = n := by simp; omega
  refine .ok (b := '$' :: b ++ (rest.take n ++ (rest.drop n).take 2)) ?_ ?_
  · simp
  · exact .bulk hline (by rwa [htake]) (by simp; omega) (by rw [htake]; exact not_not.mp hfits)

theorem readArray_settles {fuel n : Nat} (hn : parseInt text = some (.ofNat n))
    (hall : Settles (fun vs b => vs.length = n ∧ Replies maxAlloc vs b)
      (∃ vs b rest', rest = b ++ rest' ∧ vs.length < n ∧ Replies maxAlloc vs b ∧
        Oversized maxAlloc rest') rest (readAll (readRESP maxAlloc fuel) n rest)) :
    Settles (Reply maxAlloc) (Oversized maxAlloc ('*' :: b ++ rest)) ('*' :: b ++ rest)
      (readArray maxAlloc (readRESP maxAlloc fuel) n rest) := by
  rw [readArray]
  split
  · exact .panicked (.array hline hn ‹_›)
  rename_i hfits
  generalize readAll (readRESP maxAlloc fuel) n rest = all at hall ⊢
  cases hall with
  | err e => exact .err e
  | panicked hbig =>
    obtain ⟨vs, b', rest', rfl, hlt, hvs, hbig⟩ := hbig
    exact .panicked (.element hline hn hvs hlt hbig)
  | ok hsplit hvs =>
    obtain ⟨rfl, hvs⟩ := hvs
    subst hsplit
    exact .ok (append_assoc ..).symm (.array hline hn (not_not.mp hfits) hvs)

end

theorem readRESP_settles {fuel : Nat} {bs : List Char} (hfuel : bs.length < fuel) :
    Settles (Reply maxAlloc) (Oversized maxAlloc bs) bs (readRESP maxAlloc fuel bs) := by
  induction fuel generalizing bs with
  | zero => omega
  | succ fuel ih =>
    cases bs with
    | nil => exact .err _
    | cons tag bs =>
      rw [length_cons] at hfuel
      rcases readLine_cases bs with hend | ⟨text, b, rest, rfl, hline⟩
      · rw [readRESP, hend]
        exact .err _
      rw [length_append] at hfuel
      have hall := fun n => @readAll_settles _ _ (fun _ => ih) n rest (by omega)
      rw [← cons_append, readRESP_line hline]
      fun_cases readReply maxAlloc (readRESP maxAlloc fuel) tag text rest
      case case1 => exact .ok rfl (.simple hline)
      case case3 n hn => exact .ok rfl (.int hline hn)
      case case5 n hn => exact readBulk_settles hline hn
      case case6 hn => exact .ok rfl (.nullBulk hline hn)
      case case8 n hn => exact readArray_settles hline hn (hall n)
      case case9 hn => exact .ok rfl (.nullArray hline hn)
      all_goals exact .err _

theorem readAll_panics {fuel : Nat} {vs : List Value} {bs rest : List Char} {n : Nat}
    (hvs : Replies maxAlloc vs bs) (hfuel : bs.length ≤ fuel) (hlt : vs.length < n)
    (hbig : readRESP maxAlloc (fuel + 1) rest = .error .panicked) :
    readAll (readRESP maxAlloc (fuel + 1)) n (bs ++ rest) = .error .panicked := by
  obtain ⟨n, rfl⟩ := Nat.exists_eq_succ_of_ne_zero (show n ≠ 0 by omega)
  induction vs generalizing bs n with
  | nil =>
    cases hvs
    rw [nil_append, readAll, hbig]
    rfl
  | cons v vs ih =>
    cases hvs with
    | @cons _ b _ bs hv hvs =>
      rw [length_append] at hfuel
      rw [length_cons] at hlt
      obtain _ | n := n
      · omega
      rw [append_assoc, readAll, hv.read fuel _ (by omega)]
      simp only [bind, Except.bind]
      rw [ih hvs (by omega) n (by omega)]

theorem Oversized.panics {bs : List Char} (h : Oversized maxAlloc bs) :
    ∀ fuel, bs.length < fuel → readRESP maxAlloc fuel bs = .error .panicked := by
  induction h with
  | bulk hline hn hbig =>
    rintro (_ | fuel) hfuel
    · omega
    rw [readRESP_line hline]
    simp [readReply, hn, readBulk, hbig]
  | array hline hn hbig =>
    rintro (_ | fuel) hfuel
    · omega
    rw [readRESP_line hline]
    simp [readReply, hn, readArray, hbig]
  | element hline hn hvs hlt _ ih =>
    rintro (_ | _ | fuel) hfuel
    · omega
    · simp at hfuel
    simp only [cons_append, length_cons, length_append] at hfuel
    rw [readRESP_line hline]
    have hall := readAll_panics hvs (by omega) hlt (ih (fuel + 1) (by omega))
    simp [readReply, hn, readArray, hall, Except.map]

/-- A stream gives a value or an error exactly when it does not announce a length that does not
fit where the reader comes to it. -/
theorem readRESP_safe_iff (maxAlloc : Nat) (bs : List Char) :
    ((∃ r, readRESP maxAlloc (bs.length + 1) bs = .ok r) ∨
      ∃ e, readRESP maxAlloc (bs.length + 1) bs = .error (.err e)) ↔ ¬ Oversized maxAlloc bs := by
  have hsettles := @readRESP_settles maxAlloc _ bs bs.length.lt_succ_self
  constructor
  · intro hread hbig
    rw [hbig.panics _ bs.length.lt_succ_self] at hread
    simp at hread
  · intro hbig
    generalize readRESP maxAlloc (bs.length + 1) bs = result at hsettles ⊢
    cases hsettles with
    | ok => exact .inl ⟨_, rfl⟩
    | err e => exact .inr ⟨e, rfl⟩
    | panicked h => exact absurd h hbig

/-- The bulk length wraps, whatever can be allocated; the array is of 2^64 bytes. -/
theorem lengths_panic :
    (∀ maxAlloc, readRESP maxAlloc 23 "$9223372036854775807\r\n".toList = .error .panicked) ∧
      readRESP (2 ^ 48) 23 "*1152921504606846976\r\n".toList = .error .panicked := by
  have hbulk : ∀ maxAlloc, Oversized maxAlloc "$9223372036854775807\r\n".toList := fun _ =>
    @Oversized.bulk _ "9223372036854775807".toList _ _ [] ⟨by decide, .inl rfl⟩ rfl
      fun hfits => absurd hfits.1 (by decide)
  have harray : Oversized (2 ^ 48) "*1152921504606846976\r\n".toList :=
    @Oversized.array _ "1152921504606846976".toList _ _ [] ⟨by decide, .inl rfl⟩ rfl (by decide)
  exact ⟨fun maxAlloc => (hbulk maxAlloc).panics 23 (by decide), harray.panics 23 (by decide)⟩

/-! ## Replies and commands on the wire -/

def digits (n : Int) : List Char := (toString n).toList

def number (n : Int) : List Char := digits n ++ crlf

/-- The part that `Do` writes for one argument. -/
def bulk (s : List Char) : List Char := '$' :: number s.length ++ s ++ crlf

/-- What `Do` writes. -/
def request (parts : List (List Char)) : List Char :=
  '*' :: number parts.length ++ parts.flatMap bulk

section
variable (maxAlloc : Nat)

mutual
/-- The bytes of a reply that is not an error.  A simple string stays on its line, numbers and
lengths are those of a 64-bit `int`, and the reply can be allocated. -/
inductive Encodes : Value → List Char → Prop
  | simple {s} : '\r' ∉ s → '\n' ∉ s → Encodes (.str s) ('+' :: s ++ crlf)
  | int {n} : -2 ^ 63 ≤ n ∧ n < 2 ^ 63 → Encodes (.int n) (':' :: number n)
  | bulk {s} : s.length + 2 < 2 ^ 63 → s.length + 2 ≤ maxAlloc → Encodes (.str s) (bulk s)
  | nullBulk : Encodes .null ('$' :: number (-1))
  | nullArray : Encodes .null ('*' :: number (-1))
  | array {vs bs} : vs.length < 2 ^ 63 → 16 * vs.length ≤ maxAlloc → EncodesAll vs bs →
    Encodes (.array vs) ('*' :: number vs.length ++ bs)
inductive EncodesAll : List Value → List Char → Prop
  | nil : EncodesAll [] []
  | cons {v b vs bs} : Encodes v b → EncodesAll vs bs → EncodesAll (v :: vs) (b ++ bs)
end

end

theorem line_number (n : Int) : Line (digits n) (number n) :=
  ⟨notMem_toString (by decide) (by decide) n, .inl rfl⟩

theorem parseInt_digits {n : Int} (h : -2 ^ 63 ≤ n ∧ n < 2 ^ 63) : parseInt (digits n) = some n :=
  parseInt_toString h

theorem parseInt_length {n : Nat} (h : n < 2 ^ 63) : parseInt (digits n) = some (.ofNat n) :=
  parseInt_digits (by omega)

theorem reply_bulk {s : List Char} (hint : s.length + 2 < 2 ^ 63)
    (hfits : s.length + 2 ≤ maxAlloc) :
    Reply maxAlloc (.str s) (bulk s) := by
  have hbytes : bulk s = '$' :: number s.length ++ (s ++ crlf) := by simp [bulk]
  rw [hbytes]
  refine .bulk (line_number _) (parseInt_length (by omega)) rfl ?_
  rw [int64_eq (by omega) (by omega)]
  exact ⟨by omega, by omega⟩

mutual
theorem Encodes.reply {v bs} : Encodes maxAlloc v bs → Reply maxAlloc v bs
  | .simple _ hn => .simple ⟨hn, .inl rfl⟩
  | .int h => .int (line_number _) (parseInt_digits h)
  | .bulk hint hfits => reply_bulk hint hfits
  | .nullBulk => .nullBulk (line_number _) (parseInt_digits (by decide))
  | .nullArray => .nullArray (line_number _) (parseInt_digits (by decide))
  | .array hint hfits hall =>
    .array (line_number _) (parseInt_length hint) ⟨by omega, by omega⟩ hall.replies
theorem EncodesAll.replies {vs bs} : EncodesAll maxAlloc vs bs → Replies maxAlloc vs bs
  | .nil => .nil
  | .cons hv hvs => .cons hv.reply hvs.replies
end

/-- A reply, and a command, is read back and nothing after it. -/
theorem readRESP_returns (maxAlloc : Nat) :
    (∀ (parts : List (List Char)) (rest : List Char), parts.length < 2 ^ 63 →
      16 * parts.length ≤ maxAlloc →
      (∀ p ∈ parts, p.length + 2 < 2 ^ 63 ∧ p.length + 2 ≤ maxAlloc) →
      readRESP maxAlloc ((request parts ++ rest).length + 1) (request parts ++ rest) =
        .ok (.array (parts.map .str), rest)) ∧
    ∀ (v : Value) (bs rest : List Char), Encodes maxAlloc v bs →
      readRESP maxAlloc ((bs ++ rest).length + 1) (bs ++ rest) = .ok (v, rest) := by
  have hread : ∀ (v : Value) (bs rest : List Char), Encodes maxAlloc v bs →
      readRESP maxAlloc ((bs ++ rest).length + 1) (bs ++ rest) = .ok (v, rest) :=
    fun v bs rest h => h.reply.read _ rest (by simp)
  refine ⟨fun parts rest hlen hfits hparts => hread _ _ rest ?_, hread⟩
  have hall : EncodesAll maxAlloc (parts.map .str) (parts.flatMap bulk) := by
    clear hlen hfits
    induction parts with
    | nil => exact .nil
    | cons p parts ih =>
      obtain ⟨hint, hfits⟩ := hparts p mem_cons_self
      exact .cons (.bulk hint hfits) (ih fun q hq => hparts q (mem_cons_of_mem p hq))
  have h := Encodes.array (by simpa using hlen) (by simpa using hfits) hall
  rwa [length_map] at h

/-- A command whose argument has the line terminator in it. -/
theorem readRESP_returns_command :
    readRESP (2 ^ 48) 29 (request ["GET".toList, "a\r\n".toList]) =
      .ok (.array [.str "GET".toList, .str "a\r\n".toList], []) := by
  have h := (readRESP_returns (2 ^ 48)).1 ["GET".toList, "a\r\n".toList] [] (by decide) (by decide)
    (by decide)
  rwa [append_nil] at h

end GoServices.HoldQueue.Resp
