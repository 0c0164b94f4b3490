import UrlShortener.JsonText

/-! Integers as text: decimal numerals, the strings that `BigInt` accepts, and the
ISO form of a date. -/
namespace UrlShortener.Js
open Json

def decimalDigit (d : ℕ) : CodeUnit := (48 + d).toUInt16

def decimal (n : ℕ) : JsString :=
  if n = 0 then [unit '0'] else ((Nat.digits 10 n).reverse).map decimalDigit

def readDigits (radix : ℕ) : JsString → ℕ → Option ℕ
  | [], n => some n
  | c :: s, n =>
    match hexValue c with
    | none => none
    | some d => if d < radix then readDigits radix s (n * radix + d) else none

/-- At least one digit. -/
def readNumeral (radix : ℕ) (s : JsString) : Option ℕ :=
  if s.isEmpty then none else readDigits radix s 0

/-- Does the text start with one of the two prefixes? -/
def hasRadixPrefix (lower upper : String) (s : JsString) : Bool :=
  (js lower).isPrefixOf s || (js upper).isPrefixOf s

/-- `BigInt` of a string; `none` stands for a thrown `SyntaxError`. -/
def bigIntOfString (s : JsString) : Option ℤ :=
  let t := trim s
  if t.isEmpty then some 0
  else if hasRadixPrefix "0x" "0X" t then (readNumeral 16 (t.drop 2)).map Int.ofNat
  else if hasRadixPrefix "0o" "0O" t then (readNumeral 8 (t.drop 2)).map Int.ofNat
  else if hasRadixPrefix "0b" "0B" t then (readNumeral 2 (t.drop 2)).map Int.ofNat
  else if t.head? = some (unit '-') then (readNumeral 10 t.tail).map fun n => -(n : ℤ)
  else if t.head? = some (unit '+') then (readNumeral 10 t.tail).map Int.ofNat
  else (readNumeral 10 t).map Int.ofNat

/-- The text behind a sign. -/
def unsigned (s : JsString) : JsString :=
  match s with
  | c :: t => if c = unit '+' || c = unit '-' then t else s
  | [] => []

def isUnsignedDecimal (s : JsString) : Bool :=
  let whole := s.takeWhile isDigit
  match s.dropWhile isDigit with
  | [] => !whole.isEmpty
  | c :: t =>
    if c = unit '.' then
      !(whole.isEmpty && (t.takeWhile isDigit).isEmpty) && isExponent (t.dropWhile isDigit)
    else !whole.isEmpty && isExponent (c :: t)

/-- `!isNaN(Number(s))` -/
def isNumericText (s : JsString) : Bool :=
  let t := trim s
  if t.isEmpty then true
  else if hasRadixPrefix "0x" "0X" t then (readNumeral 16 (t.drop 2)).isSome
  else if hasRadixPrefix "0o" "0O" t then (readNumeral 8 (t.drop 2)).isSome
  else if hasRadixPrefix "0b" "0B" t then (readNumeral 2 (t.drop 2)).isSome
  else unsigned t = js "Infinity" || isUnsignedDecimal (unsigned t)

lemma hexValue_decimalDigit : ∀ d < 10, hexValue (decimalDigit d) = some d := by decide

lemma decimalDigit_toNat : ∀ d < 10, (decimalDigit d).toNat = 48 + d := by decide

/-- A decimal numeral is not empty and consists of digits. -/
theorem decimal_digits (n : ℕ) :
    decimal n ≠ [] ∧ ∀ c ∈ decimal n, 48 ≤ c.toNat ∧ c.toNat ≤ 57 := by
  rw [decimal]
  split_ifs with hn
  · exact ⟨by simp, by intro c hc; obtain rfl := List.mem_singleton.mp hc; decide⟩
  · refine ⟨by simp [Nat.digits_ne_nil_iff_ne_zero.mpr hn], fun c hc => ?_⟩
    obtain ⟨d, hd, rfl⟩ := List.mem_map.mp hc
    have hlt : d < 10 := Nat.digits_lt_base (by norm_num) (List.mem_reverse.mp hd)
    have hv := decimalDigit_toNat d hlt
    omega

lemma isDigit_of_mem_decimal {n : ℕ} {c : CodeUnit} (h : c ∈ decimal n) : isDigit c = true :=
  isDigit_iff.mpr ((decimal_digits n).2 c h)

lemma readDigits_decimal {ds : List ℕ} (h : ∀ d ∈ ds, d < 10) (n : ℕ) :
    readDigits 10 (ds.map decimalDigit) n = some (ds.foldl (fun n d => n * 10 + d) n) := by
  induction ds generalizing n with
  | nil => rfl
  | cons d ds ih =>
    have hd := h d (by simp)
    rw [List.map_cons, readDigits, hexValue_decimalDigit d hd]
    simp only [hd, if_true]
    exact ih (fun e he => h e (by simp [he])) _

theorem readNumeral_decimal (n : ℕ) : readNumeral 10 (decimal n) = some n := by
  rw [readNumeral, if_neg (by simpa using (decimal_digits n).1), decimal]
  split_ifs with hn
  · subst hn
    rfl
  · have hd : ∀ d ∈ (Nat.digits 10 n).reverse, d < 10 := fun d hd =>
      Nat.digits_lt_base (by norm_num) (List.mem_reverse.mp hd)
    have hv := Nat.ofDigits_digits 10 n
    rw [readDigits_decimal hd, List.foldl_reverse]
    rw [Nat.ofDigits_eq_foldr] at hv
    refine congrArg some (Eq.trans ?_ hv)
    congr 1
    funext d m
    simp only [Nat.cast_id]
    ring

/-- A numeral of decimal digits; it may start with zeros. -/
def IsNumeral (s : JsString) : Prop := s ≠ [] ∧ ∀ c ∈ s, 48 ≤ c.toNat ∧ c.toNat ≤ 57

namespace IsNumeral
variable {s : JsString} (h : IsNumeral s)
include h

lemma trim_eq : trim s = s := by
  have hsp : ∀ c ∈ s, isWhiteSpace c = false := fun c hc =>
    isWhiteSpace_of_visible (by have := h.2 c hc; omega)
  exact trimBy_eq_self (fun c hc => hsp c (List.mem_of_mem_head? hc))
    (fun c hc => hsp c (List.mem_of_mem_getLast? hc))

lemma not_prefix {p : String} (hp : ∃ c ∈ js p, 57 < c.toNat) : (js p).isPrefixOf s = false := by
  obtain ⟨c, hc, hlt⟩ := hp
  rw [Bool.eq_false_iff]
  intro hpre
  have := h.2 c ((List.isPrefixOf_iff_prefix.mp hpre).subset hc)
  omega

lemma no_radix_prefix : hasRadixPrefix "0x" "0X" s = false ∧ hasRadixPrefix "0o" "0O" s = false ∧
    hasRadixPrefix "0b" "0B" s = false := by
  simp only [hasRadixPrefix]
  rw [h.not_prefix (by decide), h.not_prefix (by decide), h.not_prefix (by decide),
    h.not_prefix (by decide), h.not_prefix (by decide), h.not_prefix (by decide)]
  exact ⟨rfl, rfl, rfl⟩

lemma head_ne {c : CodeUnit} (hc : c.toNat < 48) : s.head? ≠ some c := by
  intro hh
  have := h.2 c (List.mem_of_mem_head? hh)
  omega

lemma unsigned_eq : unsigned s = s := by
  obtain ⟨hne, hd⟩ := h
  cases s with
  | nil => rfl
  | cons c t =>
    have hc := hd c (by simp)
    have hplus : c ≠ unit '+' := by
      rintro rfl
      exact absurd hc (by decide)
    have hminus : c ≠ unit '-' := by
      rintro rfl
      exact absurd hc (by decide)
    simp [unsigned, hplus, hminus]

/-- `Number` reads it as a number. -/
theorem isNumericText : Js.isNumericText s = true := by
  obtain ⟨hx, ho, hb⟩ := h.no_radix_prefix
  have hdigit : ∀ c ∈ s, isDigit c = true := fun c hc => isDigit_iff.mpr (h.2 c hc)
  have hrest : s.dropWhile isDigit = [] := List.dropWhile_eq_nil_iff.mpr hdigit
  have hwhole : s.takeWhile isDigit = s := List.takeWhile_eq_self_iff.mpr hdigit
  have hne : s.isEmpty = false := by simpa using h.1
  simp [Js.isNumericText, h.trim_eq, hne, hx, ho, hb, h.unsigned_eq, isUnsignedDecimal, hrest,
    hwhole]

end IsNumeral

/-- `BigInt` reads a decimal numeral back. -/
theorem bigIntOfString_decimal (n : ℕ) : bigIntOfString (decimal n) = some (n : ℤ) := by
  have h : IsNumeral (decimal n) := decimal_digits n
  obtain ⟨hx, ho, hb⟩ := h.no_radix_prefix
  simp only [bigIntOfString, h.trim_eq]
  rw [if_neg (by simpa using h.1), hx, ho, hb, if_neg (h.head_ne (by decide)),
    if_neg (h.head_ne (by decide)), readNumeral_decimal]
  rfl

/-! Dates: milliseconds since the epoch, in UTC. -/

/-- Year, month and day of a day number of the proleptic Gregorian calendar. -/
def civil (days : ℤ) : ℤ × ℕ × ℕ :=
  let z := days + 719468
  let era := z / 146097
  let doe := (z % 146097).toNat
  let yoe := (doe - doe / 1460 + doe / 36524 - doe / 146096) / 365
  let doy := doe - (365 * yoe + yoe / 4 - yoe / 100)
  let mp := (5 * doy + 2) / 153
  let month := if mp < 10 then mp + 3 else mp - 9
  (yoe + era * 400 + (if month ≤ 2 then 1 else 0), month, doy - (153 * mp + 2) / 5 + 1)

def pad (width n : ℕ) : JsString :=
  List.replicate (width - (decimal n).length) (unit '0') ++ decimal n

def isoYear (year : ℤ) : JsString :=
  if 0 ≤ year ∧ year ≤ 9999 then pad 4 year.toNat
  else (if year < 0 then unit '-' else unit '+') :: pad 6 year.natAbs

/-- `Date.prototype.toISOString`. -/
def toISOString (t : ℤ) : JsString :=
  let date := civil (t / 86400000)
  let ms := (t % 86400000).toNat
  isoYear date.1 ++ unit '-' :: pad 2 date.2.1 ++ unit '-' :: pad 2 date.2.2 ++
    unit 'T' :: pad 2 (ms / 3600000) ++ unit ':' :: pad 2 (ms / 60000 % 60) ++
    unit ':' :: pad 2 (ms / 1000 % 60) ++ unit '.' :: pad 3 (ms % 1000) ++ [unit 'Z']

example : toISOString 1709210096789 = js "2024-02-29T12:34:56.789Z" := by decide +kernel

end UrlShortener.Js
