import UrlShortener.PatternDelete

/-! JavaScript strings as sequences of UTF-16 code units, with the white space that
`trim` and `\s` know and the character classes of regular expression literals. -/
namespace UrlShortener

abbrev CodeUnit := UInt16

abbrev JsString := List CodeUnit

namespace Js

def unit (c : Char) : CodeUnit := c.toNat.toUInt16

/-- String literals of the source; all of them are ASCII. -/
def js (s : String) : JsString := s.toList.map unit

/-- The white space and line terminators of the language. -/
def isWhiteSpace (c : CodeUnit) : Bool :=
  (0x09 ≤ c && c ≤ 0x0D) || c = 0x20 || c = 0xA0 || c = 0x1680 ||
    (0x2000 ≤ c && c ≤ 0x200A) || c = 0x2028 || c = 0x2029 || c = 0x202F || c = 0x205F ||
    c = 0x3000 || c = 0xFEFF

def isHighSurrogate (c : CodeUnit) : Bool := 0xD800 ≤ c && c ≤ 0xDBFF

def isLowSurrogate (c : CodeUnit) : Bool := 0xDC00 ≤ c && c ≤ 0xDFFF

def isDigit (c : CodeUnit) : Bool := unit '0' ≤ c && c ≤ unit '9'

def isLower (c : CodeUnit) : Bool := unit 'a' ≤ c && c ≤ unit 'z'

def isUpper (c : CodeUnit) : Bool := unit 'A' ≤ c && c ≤ unit 'Z'

def isAlphanumeric (c : CodeUnit) : Bool := isDigit c || isLower c || isUpper c

/-- The class `\w`. -/
def isWord (c : CodeUnit) : Bool := isAlphanumeric c || c = unit '_'

/-- Case folding of the `i` flag. No unit outside ASCII folds into ASCII. -/
def canonicalize (c : CodeUnit) : CodeUnit := if isLower c then c - 32 else c

/-- A literal character of a pattern with the `i` flag. -/
def charI (c : Char) (u : CodeUnit) : Bool := canonicalize u = canonicalize (unit c)

def oneOf (cs : String) (u : CodeUnit) : Bool := (js cs).contains u

def noneOf (cs : String) (u : CodeUnit) : Bool := !(js cs).contains u

/-- A literal word of a pattern with the `i` flag. -/
def literalI (word : String) : Pattern CodeUnit := word.toList.map fun c => .one (charI c)

lemma isDigit_iff {c : CodeUnit} : isDigit c = true ↔ 48 ≤ c.toNat ∧ c.toNat ≤ 57 := by
  simp only [isDigit, Bool.and_eq_true, decide_eq_true_eq, UInt16.le_iff_toNat_le]
  exact Iff.rfl

/-- Visible ASCII characters are not white space. -/
lemma isWhiteSpace_of_visible {c : CodeUnit} (h : 33 ≤ c.toNat ∧ c.toNat ≤ 126) :
    isWhiteSpace c = false := by
  simp only [isWhiteSpace, Bool.or_eq_false_iff, Bool.and_eq_false_iff, decide_eq_false_iff_not,
    UInt16.le_iff_toNat_le, ← UInt16.toNat_inj]
  simp only [UInt16.reduceToNat]
  omega

/-- A character that folds to a visible one is visible. -/
lemma visible_of_charI {ch : Char} {c : CodeUnit} (h : charI ch c = true)
    (hch : 33 ≤ (canonicalize (unit ch)).toNat ∧ (canonicalize (unit ch)).toNat ≤ 126) :
    33 ≤ c.toNat ∧ c.toNat ≤ 126 := by
  simp only [charI, decide_eq_true_eq] at h
  rw [← h, canonicalize] at hch
  split_ifs at hch with hl
  · simp only [isLower, Bool.and_eq_true, decide_eq_true_eq, UInt16.le_iff_toNat_le] at hl
    obtain ⟨h₁, h₂⟩ := hl
    change 97 ≤ c.toNat at h₁
    change c.toNat ≤ 122 at h₂
    omega
  · exact hch

variable {α β : Type*}

/-- Drop the elements of a class from both ends. -/
def trimBy (p : α → Bool) (s : List α) : List α := (s.dropWhile p).rdropWhile p

def trim (s : JsString) : JsString := trimBy isWhiteSpace s

theorem infix_trimBy (p : α → Bool) (s : List α) : trimBy p s <:+: s :=
  (List.rdropWhile_prefix p _).isInfix.trans (List.dropWhile_suffix p).isInfix

theorem trimBy_eq_self {p : α → Bool} {s : List α} (hh : ∀ c, s.head? = some c → p c = false)
    (hl : ∀ c, s.getLast? = some c → p c = false) : trimBy p s = s := by
  have hd : s.dropWhile p = s := by
    cases s with
    | nil => rfl
    | cons c s => simp [hh c rfl]
  rw [trimBy, hd, List.rdropWhile_eq_self_iff]
  intro hne
  rw [hl _ (List.getLast?_eq_some_getLast hne)]
  exact Bool.false_ne_true

theorem trimBy_head {p : α → Bool} {s : List α} {c : α} (h : (trimBy p s).head? = some c) :
    p c = false := by
  have hpre : trimBy p s <+: s.dropWhile p := List.rdropWhile_prefix p _
  obtain ⟨t, ht⟩ := hpre
  have hd : (s.dropWhile p).head? = some c := by
    rw [← ht, List.head?_append, h]
    rfl
  have hn := List.head?_dropWhile_not p s
  rw [hd] at hn
  simpa using hn

theorem trimBy_last {p : α → Bool} {s : List α} {c : α} (h : (trimBy p s).getLast? = some c) :
    p c = false := by
  have hne : trimBy p s ≠ [] := by
    intro he
    simp [he] at h
  have hn := List.rdropWhile_last_not p (s.dropWhile p) hne
  obtain rfl : (trimBy p s).getLast hne = c := by
    rw [List.getLast?_eq_some_getLast hne] at h
    exact Option.some.inj h
  exact (Bool.not_eq_true _).mp hn

@[simp] theorem trimBy_idem (p : α → Bool) (s : List α) :
    trimBy p (trimBy p s) = trimBy p s :=
  trimBy_eq_self (fun _ h => trimBy_head h) (fun _ h => trimBy_last h)

@[simp] theorem trim_trim (s : JsString) : trim (trim s) = trim s := trimBy_idem _ s

/-- Trimming keeps every element outside the class. -/
theorem countP_trimBy (p : α → Bool) (s : List α) :
    (trimBy p s).countP (fun c => !p c) = s.countP fun c => !p c := by
  have hd : ∀ t : List α, (t.dropWhile p).countP (fun c => !p c) = t.countP fun c => !p c := by
    intro t
    induction t with
    | nil => rfl
    | cons c t ih =>
      by_cases hc : p c
      · rw [List.dropWhile_cons_of_pos hc, ih, List.countP_cons_of_neg (by simp [hc])]
      · rw [List.dropWhile_cons_of_neg hc]
  rw [trimBy, List.rdropWhile, List.countP_reverse, hd, List.countP_reverse, hd]

end Js

/-! Errors as the drivers report them, and their SQLSTATE codes. -/

section Errors
open Js

/-- An error of the database or the cache. -/
structure DbError where
  code : Option JsString
  message : JsString
  deriving DecidableEq

/-- `codes.includes(err.code)` -/
def DbError.hasCode (err : DbError) (codes : List String) : Bool :=
  codes.any fun code => err.code = some (js code)

/-- The class of an SQLSTATE is its first two characters. -/
def DbError.inClass (err : DbError) (cls : String) : Bool :=
  err.code.any fun code => (js cls).isPrefixOf code

lemma DbError.not_inClass_of_hasCode {err : DbError} {codes : List String} {cls : String}
    (hcls : ∀ code ∈ codes, (js cls).isPrefixOf (js code) = false)
    (h : err.hasCode codes = true) : err.inClass cls = false := by
  obtain ⟨code, hc, he⟩ := List.any_eq_true.mp h
  have he : err.code = some (js code) := by simpa using he
  simp [DbError.inClass, he, hcls code hc]

end Errors

end UrlShortener
