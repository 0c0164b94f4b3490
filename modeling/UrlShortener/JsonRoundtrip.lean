import UrlShortener.JsonText

/-! `JSON.parse` reads back what `JSON.stringify` writes: strings with any code
units, and values whose objects have distinct keys and whose numbers are literals. -/
namespace UrlShortener.Json
open Js

lemma hexValue_hexDigit : ∀ d < 16, hexValue (hexDigit d) = some d := by decide

theorem hexUnit_hexDigits (c : CodeUnit) :
    hexUnit (hexDigit (c.toNat / 4096)) (hexDigit (c.toNat / 256 % 16))
      (hexDigit (c.toNat / 16 % 16)) (hexDigit (c.toNat % 16)) = some c := by
  have hlt : c.toNat < 65536 := c.toNat_lt
  have hval : ((c.toNat / 4096 * 16 + c.toNat / 256 % 16) * 16 + c.toNat / 16 % 16) * 16 +
      c.toNat % 16 = c.toNat := by omega
  rw [hexUnit, hexValue_hexDigit _ (by omega), hexValue_hexDigit _ (by omega),
    hexValue_hexDigit _ (by omega), hexValue_hexDigit _ (by omega)]
  simp only [Option.bind_eq_bind, Option.bind_some, hval]
  exact congrArg some UInt16.ofNat_toNat

/-- Reading continues after a unit that stands for itself. -/
lemma readString_raw {c : CodeUnit} (hq : c ≠ unit '"') (hb : c ≠ unit '\\')
    (hs : ¬ c < 0x20) (s : JsString) :
    readString (c :: s) = (readString s).map fun r => (c :: r.1, r.2) := by
  rw [readString.eq_def]
  simp only [hq, hb, hs, if_false]

lemma readString_unicode (a b c d : CodeUnit) (s : JsString) :
    readString (unit '\\' :: unit 'u' :: a :: b :: c :: d :: s) =
      (hexUnit a b c d).bind fun x => (readString s).map fun r => (x :: r.1, r.2) := by
  rw [readString.eq_def]
  have h : unit '\\' ≠ unit '"' := by decide
  simp only [h, if_false, if_true]

lemma readString_escape {e : CodeUnit} (he : e ≠ unit 'u') (s : JsString) :
    readString (unit '\\' :: e :: s) =
      (simpleEscape e).bind fun x => (readString s).map fun r => (x :: r.1, r.2) := by
  rw [readString.eq_def]
  have h : unit '\\' ≠ unit '"' := by decide
  simp only [h, if_false, if_true, he]

lemma readString_quote (s : JsString) : readString (unit '"' :: s) = some ([], s) := by
  rw [readString.eq_def]
  simp only [if_true]

lemma readString_unicodeEscape (c : CodeUnit) (s : JsString) :
    readString (unicodeEscape c ++ s) = (readString s).map fun r => (c :: r.1, r.2) := by
  simp only [unicodeEscape, List.cons_append, List.nil_append]
  rw [readString_unicode, hexUnit_hexDigits, Option.bind_some]

lemma readString_escapeUnit (c : CodeUnit) (s : JsString) :
    readString (escapeUnit c ++ s) = (readString s).map fun r => (c :: r.1, r.2) := by
  unfold escapeUnit
  split_ifs with h₁ h₂ h₃ h₄ h₅ h₆ h₇ h₈
  · subst h₁; exact readString_escape (by decide) s
  · subst h₂; exact readString_escape (by decide) s
  · subst h₃; exact readString_escape (by decide) s
  · subst h₄; exact readString_escape (by decide) s
  · subst h₅; exact readString_escape (by decide) s
  · subst h₆; exact readString_escape (by decide) s
  · subst h₇; exact readString_escape (by decide) s
  · exact readString_unicodeEscape c s
  · simp only [Bool.or_eq_true, decide_eq_true_eq, not_or] at h₈
    exact readString_raw h₁ h₂ h₈.1.1 s

/-- Units beyond ASCII, surrogates among them, stand for themselves. -/
lemma readString_beyond {c : CodeUnit} (h : 128 ≤ c.toNat) (s : JsString) :
    readString (c :: s) = (readString s).map fun r => (c :: r.1, r.2) := by
  have hne : ∀ d : CodeUnit, d.toNat < 128 → c ≠ d := by
    intro d hd hcd
    rw [hcd] at h
    omega
  have hlt : ¬ c < 0x20 := by
    rw [UInt16.lt_iff_toNat_lt, not_lt]
    exact le_trans (by decide) h
  exact readString_raw (hne _ (by decide)) (hne _ (by decide)) hlt s

lemma toNat_of_isHighSurrogate {c : CodeUnit} (h : isHighSurrogate c = true) :
    128 ≤ c.toNat := by
  simp only [isHighSurrogate, Bool.and_eq_true, decide_eq_true_eq, UInt16.le_iff_toNat_le] at h
  exact le_trans (by decide) h.1

lemma toNat_of_isLowSurrogate {c : CodeUnit} (h : isLowSurrogate c = true) :
    128 ≤ c.toNat := by
  simp only [isLowSurrogate, Bool.and_eq_true, decide_eq_true_eq, UInt16.le_iff_toNat_le] at h
  exact le_trans (by decide) h.1

/-- A string literal is read back exactly. -/
theorem readString_escapeUnits (s rest : JsString) :
    readString (escapeUnits s ++ unit '"' :: rest) = some (s, rest) := by
  fun_induction escapeUnits s with
  | case1 => exact readString_quote rest
  | case2 c =>
    rw [readString_escapeUnit, readString_quote]
    rfl
  | case3 c d s h ih =>
    obtain ⟨hc, hd⟩ := Bool.and_eq_true_iff.mp h
    rw [List.cons_append, List.cons_append, readString_beyond (toNat_of_isHighSurrogate hc),
      readString_beyond (toNat_of_isLowSurrogate hd), ih]
    rfl
  | case4 c d s h ih =>
    rw [List.append_assoc, readString_escapeUnit, ih]
    rfl

mutual
/-- Objects have distinct keys and numbers are number literals, as in every value
that `JSON.parse` returns. -/
def WellFormed : Json → Prop
  | .num literal => isNumberLiteral literal = true ∧ ∀ c ∈ literal, isNumberUnit c = true
  | .arr items => WellFormedItems items
  | .obj fields => (fields.map Prod.fst).Nodup ∧ WellFormedFields fields
  | _ => True

def WellFormedItems : List Json → Prop
  | [] => True
  | v :: vs => WellFormed v ∧ WellFormedItems vs

def WellFormedFields : List (JsString × Json) → Prop
  | [] => True
  | (_, v) :: fs => WellFormed v ∧ WellFormedFields fs
end

lemma skipSpace_cons {c : CodeUnit} (h : isJsonSpace c = false) (s : JsString) :
    skipSpace (c :: s) = c :: s := by
  simp [skipSpace, h]

lemma expect_hit {c : Char} (h : isJsonSpace (unit c) = false) (s : JsString) :
    expect c (unit c :: s) = some s := by
  simp [expect, skipSpace_cons h]

lemma expect_miss {c : Char} {d : CodeUnit} (h : isJsonSpace d = false) (hd : d ≠ unit c)
    (s : JsString) : expect c (d :: s) = none := by
  simp [expect, skipSpace_cons h, hd]

/-- The text of a value starts with a character that is neither white space nor a
closing bracket. -/
def StartsValue (s : JsString) : Prop :=
  ∃ c t, s = c :: t ∧ isJsonSpace c = false ∧ c ≠ unit ']' ∧ c ≠ unit '}'

lemma StartsValue.expect_miss {s : JsString} (h : StartsValue s) (rest : JsString) :
    expect ']' (s ++ rest) = none ∧ expect '}' (s ++ rest) = none := by
  obtain ⟨c, t, rfl, hs, h₁, h₂⟩ := h
  exact ⟨Json.expect_miss hs h₁ _, Json.expect_miss hs h₂ _⟩

lemma ne_of_toNat_ne {c d : CodeUnit} (h : c.toNat ≠ d.toNat) : c ≠ d := by
  rintro rfl
  exact h rfl

/-- A number literal starts with a minus sign or a digit, so with no character that
another kind of value starts with. -/
lemma isNumberLiteral_start {s : JsString} (h : isNumberLiteral s = true) :
    ∃ c t, s = c :: t ∧ (c.toNat = 45 ∨ 48 ≤ c.toNat ∧ c.toNat ≤ 57) := by
  cases s with
  | nil => simp [isNumberLiteral] at h
  | cons c t =>
    refine ⟨c, t, rfl, ?_⟩
    by_cases hm : c = unit '-'
    · subst hm; exact Or.inl (by decide)
    · right
      simp only [isNumberLiteral, List.head?_cons, Option.some.injEq, hm, if_false] at h
      split_ifs at h with hz
      · subst hz; exact (by decide)
      · exact isDigit_iff.mp (Bool.and_eq_true_iff.mp h).1

lemma numberStart_not {c : CodeUnit} (h : c.toNat = 45 ∨ 48 ≤ c.toNat ∧ c.toNat ≤ 57)
    {d : CodeUnit} (hd : d.toNat < 45 ∨ 57 < d.toNat) : c ≠ d :=
  ne_of_toNat_ne (by omega)

lemma numberStart_not_space {c : CodeUnit}
    (h : c.toNat = 45 ∨ 48 ≤ c.toNat ∧ c.toNat ≤ 57) : isJsonSpace c = false := by
  simp only [isJsonSpace, Bool.or_eq_false_iff, decide_eq_false_iff_not]
  exact ⟨⟨⟨numberStart_not h (by decide), numberStart_not h (by decide)⟩,
    numberStart_not h (by decide)⟩, numberStart_not h (by decide)⟩

lemma stringify_startsValue {v : Json} (h : WellFormed v) : StartsValue (stringify v) := by
  cases v with
  | null => exact ⟨unit 'n', js "ull", rfl, by decide, by decide, by decide⟩
  | bool b =>
    cases b
    · exact ⟨unit 'f', js "alse", rfl, by decide, by decide, by decide⟩
    · exact ⟨unit 't', js "rue", rfl, by decide, by decide, by decide⟩
  | num literal =>
    obtain ⟨c, t, rfl, hc⟩ := isNumberLiteral_start h.1
    exact ⟨c, t, rfl, numberStart_not_space hc, numberStart_not hc (by decide),
      numberStart_not hc (by decide)⟩
  | str s => exact ⟨unit '"', _, rfl, by decide, by decide, by decide⟩
  | arr items => exact ⟨unit '[', _, rfl, by decide, by decide, by decide⟩
  | obj fields => exact ⟨unit '{', _, rfl, by decide, by decide, by decide⟩

/-- What follows a value in a text does not continue a number. -/
def EndsNumber (s : JsString) : Prop := ∀ c, s.head? = some c → isNumberUnit c = false

lemma endsNumber_cons {c : CodeUnit} (h : isNumberUnit c = false) (s : JsString) :
    EndsNumber (c :: s) := by
  intro d hd
  obtain rfl : c = d := by simpa using hd
  exact h

lemma span_literal {literal rest : JsString} (h : ∀ c ∈ literal, isNumberUnit c = true)
    (hr : EndsNumber rest) :
    (literal ++ rest).takeWhile isNumberUnit = literal ∧
      (literal ++ rest).dropWhile isNumberUnit = rest := by
  induction literal with
  | nil =>
    cases rest with
    | nil => exact ⟨rfl, rfl⟩
    | cons c t => simp [hr c rfl]
  | cons c t ih =>
    obtain ⟨ht, hd⟩ := ih fun d hm => h d (by simp [hm])
    simp [h c (by simp), ht, hd]

lemma setField_append {fields : List (JsString × Json)} {key : JsString}
    (h : key ∉ fields.map Prod.fst) (v : Json) :
    setField fields key v = fields ++ [(key, v)] := by
  have hn : fields.any (fun f => f.1 = key) = false := by
    rw [List.any_eq_false]
    intro f hf
    simp only [decide_eq_true_eq]
    rintro rfl
    exact h (List.mem_map_of_mem hf)
  rw [setField, hn]
  rfl

lemma parseValue_cons {c : CodeUnit} (hs : isJsonSpace c = false) (fuel : ℕ) (t : JsString) :
    parseValue (fuel + 1) (c :: t) =
      if c = unit '"' then (readString t).map fun r => (.str r.1, r.2)
      else if c = unit '[' then
        match expect ']' t with
        | some u => some (.arr [], u)
        | none => parseItems fuel [] t
      else if c = unit '{' then
        match expect '}' t with
        | some u => some (.obj [], u)
        | none => parseFields fuel [] t
      else if c = unit 'n' then readWord "null" .null (c :: t)
      else if c = unit 't' then readWord "true" (.bool true) (c :: t)
      else if c = unit 'f' then readWord "false" (.bool false) (c :: t)
      else readNumber (c :: t) := by
  rewrite [parseValue, skipSpace_cons hs]
  rfl

lemma parseValue_null (fuel : ℕ) (rest : JsString) : parseValue (fuel + 1) (js "null" ++ rest) =
    readWord "null" .null (js "null" ++ rest) := parseValue_cons rfl fuel _

lemma parseValue_true (fuel : ℕ) (rest : JsString) : parseValue (fuel + 1) (js "true" ++ rest) =
    readWord "true" (.bool true) (js "true" ++ rest) := parseValue_cons rfl fuel _

lemma parseValue_false (fuel : ℕ) (rest : JsString) : parseValue (fuel + 1) (js "false" ++ rest) =
    readWord "false" (.bool false) (js "false" ++ rest) := parseValue_cons rfl fuel _

lemma parseValue_quote (fuel : ℕ) (s : JsString) : parseValue (fuel + 1) (unit '"' :: s) =
    (readString s).map fun r => (.str r.1, r.2) := parseValue_cons rfl fuel s

/-- A character that a number starts with starts no other value. -/
lemma parseValue_number {c : CodeUnit} (h : c.toNat = 45 ∨ 48 ≤ c.toNat ∧ c.toNat ≤ 57)
    (fuel : ℕ) (s : JsString) : parseValue (fuel + 1) (c :: s) = readNumber (c :: s) := by
  have hne : ∀ d : CodeUnit, d.toNat < 45 ∨ 57 < d.toNat → c ≠ d := fun _ => numberStart_not h
  rw [parseValue_cons (numberStart_not_space h), if_neg (hne _ (by decide)),
    if_neg (hne _ (by decide)), if_neg (hne _ (by decide)), if_neg (hne _ (by decide)),
    if_neg (hne _ (by decide)), if_neg (hne _ (by decide))]

lemma readWord_append (word : String) (v : Json) (rest : JsString) :
    readWord word v (js word ++ rest) = some (v, rest) := by
  have hp : (js word).isPrefixOf (js word ++ rest) = true :=
    List.isPrefixOf_iff_prefix.mpr (List.prefix_append _ _)
  rw [readWord, if_pos hp, List.drop_left]

/-- A field's key and colon are read back. -/
lemma readKey (k rest : JsString) :
    ((expect '"' (quote k ++ unit ':' :: rest)).bind readString).bind
      (fun r => (expect ':' r.2).map (Prod.mk r.1)) = some (k, rest) := by
  have hq : quote k ++ unit ':' :: rest =
      unit '"' :: (escapeUnits k ++ unit '"' :: unit ':' :: rest) := by simp [quote]
  rw [hq, expect_hit rfl, Option.bind_some, readString_escapeUnits, Option.bind_some,
    expect_hit rfl]
  rfl

mutual
/-- A value is read back whatever follows it in the text. -/
theorem parseValue_stringify (v : Json) (h : WellFormed v) (fuel : ℕ) (rest : JsString)
    (hf : (stringify v).length ≤ fuel) (hr : EndsNumber rest) :
    parseValue fuel (stringify v ++ rest) = some (v, rest) := by
  obtain ⟨fuel, rfl⟩ : ∃ k, fuel = k + 1 := by
    obtain ⟨c, t, hc, -⟩ := stringify_startsValue h
    rw [hc, List.length_cons] at hf
    exact ⟨fuel - 1, by omega⟩
  cases v with
  | null =>
    exact (parseValue_null fuel rest).trans (readWord_append "null" .null rest)
  | bool b =>
    cases b
    · exact (parseValue_false fuel rest).trans (readWord_append "false" (.bool false) rest)
    · exact (parseValue_true fuel rest).trans (readWord_append "true" (.bool true) rest)
  | num literal =>
    obtain ⟨hl, hu⟩ := h
    obtain ⟨c, t, rfl, hc⟩ := isNumberLiteral_start hl
    obtain ⟨ht, hd⟩ := span_literal hu hr
    change parseValue (fuel + 1) (c :: (t ++ rest)) = _
    rw [parseValue_number hc, readNumber, ← List.cons_append, ht, hd, if_pos hl]
  | str s =>
    have hq : stringify (.str s) ++ rest =
        unit '"' :: (escapeUnits s ++ unit '"' :: rest) := by simp [stringify, quote]
    rw [hq, parseValue_quote, readString_escapeUnits]
    rfl
  | arr items =>
    have hq : stringify (.arr items) ++ rest =
        unit '[' :: (stringifyItems items ++ unit ']' :: rest) := by simp [stringify]
    rw [hq, parseValue_cons rfl, if_neg (by decide), if_pos rfl]
    cases items with
    | nil =>
      rw [show expect ']' (stringifyItems [] ++ unit ']' :: rest) = some rest from
        expect_hit rfl rest]
    | cons v vs =>
      have hm := ((stringify_startsValue h.1).expect_miss
        (stringifyMoreItems vs ++ unit ']' :: rest)).1
      rw [stringifyItems, List.append_assoc, hm]
      simp only [stringify, stringifyItems, List.length_cons, List.length_append] at hf
      exact parseItems_stringify vs v h.1 h.2 fuel [] rest
        (by rw [List.length_append]; simp at hf; omega)
  | obj fields =>
    have hq : stringify (.obj fields) ++ rest =
        unit '{' :: (stringifyFields fields ++ unit '}' :: rest) := by simp [stringify]
    rw [hq, parseValue_cons rfl, if_neg (by decide), if_neg (by decide), if_pos rfl]
    cases fields with
    | nil =>
      rw [show expect '}' (stringifyFields [] ++ unit '}' :: rest) = some rest from
        expect_hit rfl rest]
    | cons f fs =>
      obtain ⟨k, v⟩ := f
      have hm : expect '}' (stringifyFields ((k, v) :: fs) ++ unit '}' :: rest) = none :=
        expect_miss (by decide) (by decide) _
      rw [hm]
      simp only [stringify, List.length_cons, List.length_append] at hf
      exact parseFields_stringify fs k v [] h.1 h.2.1 h.2.2 fuel rest (by simp at hf; omega)
termination_by fuel

theorem parseItems_stringify (vs : List Json) (v : Json) (hv : WellFormed v)
    (h : WellFormedItems vs) (fuel : ℕ) (acc : List Json) (rest : JsString)
    (hf : (stringify v ++ stringifyMoreItems vs).length < fuel) :
    parseItems fuel acc (stringify v ++ (stringifyMoreItems vs ++ unit ']' :: rest)) =
      some (.arr (acc ++ v :: vs), rest) := by
  obtain ⟨fuel, rfl⟩ : ∃ k, fuel = k + 1 := ⟨fuel - 1, by omega⟩
  rw [List.length_append] at hf
  cases vs with
  | nil =>
    have hp := parseValue_stringify v hv fuel (unit ']' :: rest) (by omega)
      (endsNumber_cons rfl rest)
    change parseItems (fuel + 1) acc (stringify v ++ (unit ']' :: rest)) = _
    rw [parseItems, hp]
    simp only [expect_miss (c := ',') (by decide : isJsonSpace (unit ']') = false) (by decide),
      expect_hit (c := ']') rfl, Option.map_some]
  | cons w ws =>
    have hp := parseValue_stringify v hv fuel
      (stringifyMoreItems (w :: ws) ++ unit ']' :: rest) (by omega)
      (endsNumber_cons rfl _)
    rw [parseItems, hp]
    simp only [stringifyMoreItems, List.cons_append, List.append_assoc,
      expect_hit (c := ',') rfl]
    simp only [stringifyMoreItems, List.length_cons, List.length_append] at hf
    have hi := parseItems_stringify ws w h.1 h.2 fuel (acc ++ [v]) rest
      (by rw [List.length_append]; omega)
    rw [hi]
    simp
termination_by fuel

theorem parseFields_stringify (fs : List (JsString × Json)) (k : JsString) (v : Json)
    (acc : List (JsString × Json)) (hk : (acc.map Prod.fst ++ k :: fs.map Prod.fst).Nodup)
    (hv : WellFormed v) (h : WellFormedFields fs) (fuel : ℕ) (rest : JsString)
    (hf : (stringifyFields ((k, v) :: fs)).length < fuel) :
    parseFields fuel acc (stringifyFields ((k, v) :: fs) ++ unit '}' :: rest) =
      some (.obj (acc ++ (k, v) :: fs), rest) := by
  obtain ⟨fuel, rfl⟩ : ∃ k, fuel = k + 1 := ⟨fuel - 1, by omega⟩
  have hset : setField acc k v = acc ++ [(k, v)] := by
    refine setField_append (fun hm => ?_) v
    exact (List.nodup_append.mp hk).2.2 k hm k (by simp) rfl
  simp only [stringifyFields, List.length_append, List.length_cons] at hf
  have hq : stringifyFields ((k, v) :: fs) ++ unit '}' :: rest =
      quote k ++ unit ':' :: (stringify v ++ (stringifyMoreFields fs ++ unit '}' :: rest)) := by
    simp [stringifyFields]
  rw [hq, parseFields, readKey]
  cases fs with
  | nil =>
    have hp := parseValue_stringify v hv fuel (unit '}' :: rest) (by omega)
      (endsNumber_cons rfl rest)
    simp only [stringifyMoreFields, List.nil_append, hp, hset,
      expect_miss (c := ',') (by decide : isJsonSpace (unit '}') = false) (by decide),
      expect_hit (c := '}') rfl, Option.map_some]
  | cons f fs =>
    obtain ⟨k', v'⟩ := f
    have hp := parseValue_stringify v hv fuel
      (stringifyMoreFields ((k', v') :: fs) ++ unit '}' :: rest) (by omega)
      (endsNumber_cons rfl _)
    have hmore : stringifyMoreFields ((k', v') :: fs) ++ unit '}' :: rest =
        unit ',' :: (stringifyFields ((k', v') :: fs) ++ unit '}' :: rest) := by
      simp [stringifyMoreFields, stringifyFields]
    have hlen : (stringifyMoreFields ((k', v') :: fs)).length =
        (stringifyFields ((k', v') :: fs)).length + 1 := by
      simp [stringifyMoreFields, stringifyFields]
    have hi := parseFields_stringify fs k' v' (acc ++ [(k, v)]) (by simpa using hk) h.1 h.2
      fuel rest (by omega)
    simp only [hp]
    simp only [hmore, expect_hit (c := ',') rfl, hset, hi]
    simp
termination_by fuel
end

lemma parse_nil : parse [] = none := by
  simp [parse, parseValue, skipSpace]

/-- `JSON.parse` inverts `JSON.stringify`. -/
theorem parse_stringify {v : Json} (h : WellFormed v) : parse (stringify v) = some v := by
  have hp := parseValue_stringify v h ((stringify v).length + 1) [] (by omega)
    (by intro c hc; simp at hc)
  rw [List.append_nil] at hp
  rw [parse, hp]
  rfl

end UrlShortener.Json
