import UrlShortener.JsString

/-! JSON values, `JSON.stringify` and `JSON.parse` on code units. A number is kept
as its literal; an object is the list of its own keys in order of insertion. -/
namespace UrlShortener

inductive Json
  | null
  | bool (b : Bool)
  | num (literal : JsString)
  | str (s : JsString)
  | arr (items : List Json)
  | obj (fields : List (JsString × Json))

namespace Json
open Js

/-- The value of an own key; `none` stands for `undefined`. -/
def lookup (fields : List (JsString × Json)) (key : JsString) : Option Json :=
  (fields.find? fun f => f.1 = key).map Prod.snd

/-- Reading a property of a value that is not `null`. -/
def prop (v : Json) (key : String) : Option Json :=
  match v with
  | .obj fields => lookup fields (js key)
  | _ => none

@[simp] lemma prop_head (key : String) (v : Json) (fs : List (JsString × Json)) :
    prop (.obj ((js key, v) :: fs)) key = some v := by
  simp [prop, lookup]

lemma prop_tail {k key : String} (h : js k ≠ js key) (v : Json) (fs : List (JsString × Json)) :
    prop (.obj ((js k, v) :: fs)) key = prop (.obj fs) key := by
  simp [prop, lookup, h]

/-- Where the keys are distinct, every field is found under its key. -/
lemma prop_of_mem {fields : List (JsString × Json)} {key : String} {v : Json}
    (hkeys : (fields.map Prod.fst).Nodup) (h : (js key, v) ∈ fields) :
    prop (.obj fields) key = some v := by
  induction fields with
  | nil => cases h
  | cons f fields ih =>
    obtain ⟨k, w⟩ := f
    obtain ⟨hk, hkeys⟩ := List.nodup_cons.mp hkeys
    rcases List.mem_cons.mp h with heq | hmem
    · obtain ⟨rfl, rfl⟩ := Prod.mk.inj heq
      exact prop_head key v fields
    · have hne : k ≠ js key := by
        rintro rfl
        exact hk (List.mem_map.mpr ⟨_, hmem, rfl⟩)
      have hrest : prop (.obj fields) key = some v := ih hkeys hmem
      simpa [prop, lookup, hne] using hrest

/-- Assignment to an own key: an existing key keeps its place. -/
def setField (fields : List (JsString × Json)) (key : JsString) (v : Json) :
    List (JsString × Json) :=
  if fields.any (fun f => f.1 = key) then fields.map fun f => if f.1 = key then (key, v) else f
  else fields ++ [(key, v)]

def hexDigit (n : ℕ) : CodeUnit :=
  (if n < 10 then 48 + n else 87 + n).toUInt16

def hexValue (c : CodeUnit) : Option ℕ :=
  if isDigit c then some (c.toNat - 48)
  else if unit 'a' ≤ c && c ≤ unit 'f' then some (c.toNat - 87)
  else if unit 'A' ≤ c && c ≤ unit 'F' then some (c.toNat - 55)
  else none

def unicodeEscape (c : CodeUnit) : JsString :=
  [unit '\\', unit 'u', hexDigit (c.toNat / 4096), hexDigit (c.toNat / 256 % 16),
    hexDigit (c.toNat / 16 % 16), hexDigit (c.toNat % 16)]

def escapeUnit (c : CodeUnit) : JsString :=
  if c = unit '"' then js "\\\""
  else if c = unit '\\' then js "\\\\"
  else if c = 0x08 then js "\\b"
  else if c = 0x09 then js "\\t"
  else if c = 0x0A then js "\\n"
  else if c = 0x0C then js "\\f"
  else if c = 0x0D then js "\\r"
  else if c < 0x20 || isHighSurrogate c || isLowSurrogate c then unicodeEscape c
  else [c]

/-- Surrogate pairs are written as they are, lone surrogates are escaped. -/
def escapeUnits : JsString → JsString
  | [] => []
  | [c] => escapeUnit c
  | c :: d :: s =>
    if isHighSurrogate c && isLowSurrogate d then c :: d :: escapeUnits s
    else escapeUnit c ++ escapeUnits (d :: s)

def quote (s : JsString) : JsString := unit '"' :: escapeUnits s ++ [unit '"']

mutual
def stringify : Json → JsString
  | .null => js "null"
  | .bool b => if b then js "true" else js "false"
  | .num literal => literal
  | .str s => quote s
  | .arr items => unit '[' :: stringifyItems items ++ [unit ']']
  | .obj fields => unit '{' :: stringifyFields fields ++ [unit '}']

def stringifyItems : List Json → JsString
  | [] => []
  | v :: vs => stringify v ++ stringifyMoreItems vs

def stringifyMoreItems : List Json → JsString
  | [] => []
  | v :: vs => unit ',' :: stringify v ++ stringifyMoreItems vs

def stringifyFields : List (JsString × Json) → JsString
  | [] => []
  | (k, v) :: fs => quote k ++ unit ':' :: stringify v ++ stringifyMoreFields fs

def stringifyMoreFields : List (JsString × Json) → JsString
  | [] => []
  | (k, v) :: fs =>
    unit ',' :: quote k ++ unit ':' :: stringify v ++ stringifyMoreFields fs
end

def isJsonSpace (c : CodeUnit) : Bool := c = 0x20 || c = 0x09 || c = 0x0A || c = 0x0D

def skipSpace (s : JsString) : JsString := s.dropWhile isJsonSpace

/-- Skip white space and one given character. -/
def expect (c : Char) (s : JsString) : Option JsString :=
  match skipSpace s with
  | [] => none
  | d :: t => if d = unit c then some t else none

def simpleEscape (c : CodeUnit) : Option CodeUnit :=
  if c = unit '"' || c = unit '\\' || c = unit '/' then some c
  else if c = unit 'b' then some 0x08
  else if c = unit 't' then some 0x09
  else if c = unit 'n' then some 0x0A
  else if c = unit 'f' then some 0x0C
  else if c = unit 'r' then some 0x0D
  else none

def hexUnit (a b c d : CodeUnit) : Option CodeUnit := do
  let a ← hexValue a
  let b ← hexValue b
  let c ← hexValue c
  let d ← hexValue d
  some (((a * 16 + b) * 16 + c) * 16 + d).toUInt16

/-- Read the rest of a string literal after its opening quote. -/
def readString : JsString → Option (JsString × JsString)
  | [] => none
  | c :: s =>
    if c = unit '"' then some ([], s)
    else if c = unit '\\' then
      match s with
      | [] => none
      | e :: s =>
        if e = unit 'u' then
          match s with
          | h₁ :: h₂ :: h₃ :: h₄ :: s =>
            (hexUnit h₁ h₂ h₃ h₄).bind fun x => (readString s).map fun r => (x :: r.1, r.2)
          | _ => none
        else (simpleEscape e).bind fun x => (readString s).map fun r => (x :: r.1, r.2)
    else if c < 0x20 then none
    else (readString s).map fun r => (c :: r.1, r.2)

def isNumberUnit (c : CodeUnit) : Bool :=
  isDigit c || oneOf "+-.eE" c

/-- Drop at least one digit. -/
def dropDigits (s : JsString) : Option JsString :=
  if (s.takeWhile isDigit).isEmpty then none else some (s.dropWhile isDigit)

def isExponent : JsString → Bool
  | [] => true
  | e :: s =>
    oneOf "eE" e && dropDigits (if s.head?.any (oneOf "+-") then s.tail else s) = some []

def isFraction : JsString → Bool
  | [] => true
  | c :: s => if c = unit '.' then (dropDigits s).any isExponent else isExponent (c :: s)

/-- The number grammar of JSON. -/
def isNumberLiteral (s : JsString) : Bool :=
  match if s.head? = some (unit '-') then s.tail else s with
  | [] => false
  | c :: t =>
    if c = unit '0' then isFraction t else isDigit c && isFraction (t.dropWhile isDigit)

/-- A number extends as far as its characters do. -/
def readNumber (s : JsString) : Option (Json × JsString) :=
  let literal := s.takeWhile isNumberUnit
  if isNumberLiteral literal then some (.num literal, s.dropWhile isNumberUnit) else none

def readWord (word : String) (v : Json) (s : JsString) : Option (Json × JsString) :=
  if (js word).isPrefixOf s then some (v, s.drop (js word).length) else none

mutual
def parseValue : ℕ → JsString → Option (Json × JsString)
  | 0, _ => none
  | fuel + 1, s =>
    match skipSpace s with
    | [] => none
    | c :: t =>
      if c = unit '"' then (readString t).map fun r => (.str r.1, r.2)
      else if c = unit '[' then
        match expect ']' t with
        | some u => some (.arr [], u)
        | none => parseItems fuel [] t
      else if c = unit '{' then
        match expect '}' t with
        | some u => some (.obj [], u)
        | none => parseFields fuel [] t
      else if c = unit 'n' then readWord "null" .null (c :: t)
      else if c = unit 't' then readWord "true" (.bool true) (c :: t)
      else if c = unit 'f' then readWord "false" (.bool false) (c :: t)
      else readNumber (c :: t)

/-- Read the remaining items of an array, at least one. -/
def parseItems : ℕ → List Json → JsString → Option (Json × JsString)
  | 0, _, _ => none
  | fuel + 1, acc, s =>
    match parseValue fuel s with
    | none => none
    | some (v, t) =>
      match expect ',' t with
      | some u => parseItems fuel (acc ++ [v]) u
      | none => (expect ']' t).map fun u => (.arr (acc ++ [v]), u)

/-- Read the remaining fields of an object, at least one; a repeated key wins. -/
def parseFields : ℕ → List (JsString × Json) → JsString → Option (Json × JsString)
  | 0, _, _ => none
  | fuel + 1, acc, s =>
    match ((expect '"' s).bind readString).bind fun r => (expect ':' r.2).map (Prod.mk r.1) with
    | none => none
    | some (k, t) =>
      match parseValue fuel t with
      | none => none
      | some (v, u) =>
        match expect ',' u with
        | some w => parseFields fuel (setField acc k v) w
        | none => (expect '}' u).map fun w => (.obj (setField acc k v), w)
end

/-- `JSON.parse`; `none` stands for a thrown `SyntaxError`. Every call below
consumes a character, so the length of the text is fuel enough. -/
def parse (s : JsString) : Option Json :=
  (parseValue (s.length + 1) s).bind fun r => if (skipSpace r.2).isEmpty then some r.1 else none

end Json

end UrlShortener
