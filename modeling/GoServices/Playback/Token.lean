/-
Playback tokens.

A token is the dot-joined claims, a dot and a signature.
-/
import GoServices.Base.Decimal
import GoServices.Base.Separator

namespace GoServices.Playback.Token

open List

inductive TokenError
  | malformed
  | badSig
  | expired
  deriving DecidableEq

structure Claims where
  accountID : String
  deviceLimit : Int
  exp : Int
  assetScope : String
  deriving DecidableEq

def Claims.Fits (c : Claims) : Prop :=
  (-2 ^ 63 ≤ c.deviceLimit ∧ c.deviceLimit < 2 ^ 63) ∧ -2 ^ 63 ≤ c.exp ∧ c.exp < 2 ^ 63

def Claims.payload (c : Claims) : String :=
  c.accountID ++ "." ++ toString c.deviceLimit ++ "." ++ toString c.exp ++ "." ++ c.assetScope

def sign (mac : String → String) (c : Claims) : String := c.payload ++ "." ++ mac c.payload

/-- The checks of `Verify` after the signature. -/
def parseClaims (payload : List Char) (now : Int) : Except TokenError Claims :=
  match payload.splitOn '.' with
  | [account, limit, exp, scope] =>
    match parseInt limit, parseInt exp with
    | some limit, some exp =>
      if account = [] ∨ limit < 1 then .error .malformed
      else if now ≥ exp then .error .expired
      else .ok ⟨.ofList account, limit, exp, .ofList scope⟩
    | _, _ => .error .malformed
  | _ => .error .malformed

def verify (mac : String → String) (token : String) (now : Int) : Except TokenError Claims :=
  let sig := (token.toList.reverse.takeWhile (· ≠ '.')).reverse
  match token.toList.reverse.dropWhile (· ≠ '.') with
  | [] => .error .malformed
  | _ :: before =>
    if before = [] ∨ sig = [] then .error .malformed
    else if sig ≠ (mac (.ofList before.reverse)).toList then .error .badSig
    else parseClaims before.reverse now

def IsHex (s : String) : Prop := s ≠ "" ∧ ∀ c ∈ s.toList, c.isDigit ∨ c ∈ "abcdef".toList

theorem dot_notMem_toString (n : Int) : '.' ∉ (toString n).toList :=
  notMem_toString (by decide) (by decide) n

/-! ## Signed tokens -/

section
variable {mac : String → String} {c : Claims} {now : Int}

theorem dot_notMem_of_isHex {s : String} (h : IsHex s) : '.' ∉ s.toList := by
  intro hmem
  obtain hdigit | hletter := h.2 _ hmem
  · cases hdigit
  · revert hletter
    decide

theorem payload_toList (c : Claims) : c.payload.toList =
    c.accountID.toList ++ '.' :: ((toString c.deviceLimit).toList ++ '.' ::
      ((toString c.exp).toList ++ '.' :: c.assetScope.toList)) := by
  simp [Claims.payload]

theorem verify_sign (hmac : ∀ p, IsHex (mac p)) :
    verify mac (sign mac c) now = parseClaims c.payload.toList now := by
  have hdot := dot_notMem_of_isHex (hmac c.payload)
  have hreverse : (sign mac c).toList.reverse =
      (mac c.payload).toList.reverse ++ '.' :: c.payload.toList.reverse := by
    simp [sign]
  have hall : ∀ x ∈ (mac c.payload).toList.reverse, decide (x ≠ '.') = true := by
    intro x hx
    refine decide_eq_true ?_
    rintro rfl
    exact hdot (mem_reverse.mp hx)
  have hne : c.payload.toList.reverse ≠ [] := by
    rw [payload_toList]
    simp
  have hsig : (mac c.payload).toList ≠ [] := mt String.toList_eq_nil_iff.mp (hmac c.payload).1
  rw [verify, hreverse, takeWhile_append_of_pos hall, dropWhile_append_of_pos hall,
    takeWhile_cons_of_neg (by decide), dropWhile_cons_of_neg (by decide)]
  simp only [append_nil, reverse_reverse, hne, hsig, or_self, if_false,
    String.ofList_toList, ne_eq, not_true_eq_false]

theorem splitOn_payload (c : Claims) : c.payload.toList.splitOn '.' =
    c.accountID.toList.splitOn '.' ++ [(toString c.deviceLimit).toList, (toString c.exp).toList] ++
      c.assetScope.toList.splitOn '.' := by
  rw [payload_toList, splitOn_separator, splitOn_separator, splitOn_separator,
    splitOn_of_notMem (dot_notMem_toString _), splitOn_of_notMem (dot_notMem_toString _)]
  simp

theorem two_le_splitOn {l : List Char} (h : '.' ∈ l) : 2 ≤ (l.splitOn '.').length := by
  obtain ⟨a, b, rfl, -⟩ := exists_last_separator h
  have ha := length_pos_iff.mpr (splitOn_ne_nil '.' a)
  have hb := length_pos_iff.mpr (splitOn_ne_nil '.' b)
  rw [splitOn_separator, length_append]
  omega

theorem parseClaims_of_dot (h : '.' ∈ c.accountID.toList ∨ '.' ∈ c.assetScope.toList) :
    parseClaims c.payload.toList now = .error .malformed := by
  have hlength : 5 ≤ (c.payload.toList.splitOn '.').length := by
    have ha := length_pos_iff.mpr (splitOn_ne_nil '.' c.accountID.toList)
    have hs := length_pos_iff.mpr (splitOn_ne_nil '.' c.assetScope.toList)
    rw [splitOn_payload]
    simp only [length_append, length_cons, length_nil]
    obtain hdot | hdot := h
    all_goals
      have htwo := two_le_splitOn hdot
      omega
  rw [parseClaims]
  split
  · rename_i heq
    rw [heq] at hlength
    simp at hlength
  · rfl

theorem parseClaims_of_notMem (hfits : c.Fits) (haccount : '.' ∉ c.accountID.toList)
    (hscope : '.' ∉ c.assetScope.toList) :
    parseClaims c.payload.toList now =
      if c.accountID = "" ∨ c.deviceLimit < 1 then .error .malformed
      else if now ≥ c.exp then .error .expired else .ok c := by
  rw [parseClaims, splitOn_payload, splitOn_of_notMem haccount, splitOn_of_notMem hscope]
  simp only [cons_append, nil_append, parseInt_toString hfits.1,
    parseInt_toString hfits.2, String.toList_eq_nil_iff, String.ofList_toList]

end

/-- A signed token is read back exactly when neither the account nor the scope has a dot, and it
is never read as other claims. -/
theorem token_read_back {mac : String → String} (hmac : ∀ p, IsHex (mac p)) {c : Claims}
    (hfits : c.Fits) (now : Int) :
    (c.accountID ≠ "" → 1 ≤ c.deviceLimit → now < c.exp → (verify mac (sign mac c) now = .ok c ↔
        '.' ∉ c.accountID.toList ∧ '.' ∉ c.assetScope.toList)) ∧
    ∀ c', verify mac (sign mac c) now = .ok c' → c' = c := by
  rw [verify_sign hmac]
  by_cases hdot : '.' ∈ c.accountID.toList ∨ '.' ∈ c.assetScope.toList
  · rw [parseClaims_of_dot hdot]
    refine ⟨fun _ _ _ => ⟨fun h => ?_, fun h => absurd hdot (not_or.mpr h)⟩, fun c' h => ?_⟩
    · cases h
    · cases h
  obtain ⟨haccount, hscope⟩ := not_or.mp hdot
  rw [parseClaims_of_notMem hfits haccount hscope]
  refine ⟨fun hne hlimit hnow => ⟨fun _ => ⟨haccount, hscope⟩, fun _ => ?_⟩, fun c' h => ?_⟩
  · rw [if_neg (by simp [hne, hlimit]), if_neg (not_le.mpr hnow)]
  split at h
  · cases h
  split at h <;> cases h
  rfl

def demoClaims (accountID : String) : Claims := ⟨accountID, 3, 1900000000, "asset-7"⟩

theorem token_read_back_plain :
    verify (fun _ => "0f") (sign (fun _ => "0f") (demoClaims "acct-1")) 1800000000 =
      .ok (demoClaims "acct-1") := by
  have hfits : (demoClaims "acct-1").Fits := ⟨by decide, by decide⟩
  have hhex : IsHex "0f" := ⟨by decide, by simp⟩
  exact ((token_read_back (fun _ => hhex) hfits 1800000000).1 (by decide) (by decide)
    (by decide)).mpr (by decide)

/-- An account id with a dot is signed, and its token is malformed. -/
theorem dotted_account_malformed :
    sign (fun _ => "0f") (demoClaims "acct.1") = "acct.1.3.1900000000.asset-7.0f" ∧
      verify (fun _ => "0f") (sign (fun _ => "0f") (demoClaims "acct.1")) 1800000000 =
        .error .malformed := by
  decide +kernel

end GoServices.Playback.Token
