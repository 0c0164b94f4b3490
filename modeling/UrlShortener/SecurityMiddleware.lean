import UrlShortener.JsonText
import UrlShortener.PatternNesting

/-! Request sanitisation: the five XSS patterns, their deletion from every string of
a request, and what a single pass can leave behind. -/
namespace UrlShortener.Security
open Js Pattern Json

/-- `/<script\b[^>]*>([\s\S]*?)<\/script>/gim` -/
def scriptElement : Pattern CodeUnit :=
  literalI "<script" ++ .boundary isWord :: .star (noneOf ">") :: literalI ">" ++
    .reluctant (fun _ => true) :: literalI "</script>"

/-- `/on\w+\s*=\s*['"]?([^'"]+)['"]?/gim` -/
def eventHandler : Pattern CodeUnit :=
  literalI "on" ++ plus isWord ++ .star isWhiteSpace :: literalI "=" ++
    .star isWhiteSpace :: .opt (oneOf "'\"") :: plus (noneOf "'\"") ++ [.opt (oneOf "'\"")]

/-- `/javascript:/gim` -/
def javascriptProtocol : Pattern CodeUnit := literalI "javascript:"

/-- `/vbscript:/gim` -/
def vbscriptProtocol : Pattern CodeUnit := literalI "vbscript:"

/-- `/data:[^,]+base64/gim` -/
def dataUrl : Pattern CodeUnit := literalI "data:" ++ plus (noneOf ",") ++ literalI "base64"

def XSS_PATTERNS : List (Pattern CodeUnit) :=
  [scriptElement, eventHandler, javascriptProtocol, vbscriptProtocol, dataUrl]

/-- The string branch of `sanitizeValue`: delete each pattern in turn, then trim. -/
def sanitized (value : JsString) : JsString := trim (deletePasses XSS_PATTERNS value)

def sanitizeValue (value : Json) : Json :=
  match value with
  | .str s => .str (sanitized s)
  | v => v

def MAX_DEPTH : ℕ := 10

/-- Assignment to a key of a plain object. `__proto__` is an accessor there: it sets
the prototype or is ignored, and makes no own key. -/
def assignField (fields : List (JsString × Json)) (key : JsString) (v : Json) :
    List (JsString × Json) :=
  if key = js "__proto__" then fields else setField fields key v

mutual
def sanitizeInput (input : Json) (depth : ℕ) : Except JsString Json :=
  if depth > MAX_DEPTH then
    .error (js "Maximum recursion depth exceeded during sanitization")
  else
    match input with
    | .arr items => (sanitizeItems items (depth + 1)).map .arr
    | .obj fields => (sanitizeEntries fields (depth + 1) []).map .obj
    | .null => .ok (sanitizeValue .null)
    | .bool b => .ok (sanitizeValue (.bool b))
    | .num literal => .ok (sanitizeValue (.num literal))
    | .str s => .ok (sanitizeValue (.str s))

def sanitizeItems : List Json → ℕ → Except JsString (List Json)
  | [], _ => .ok []
  | item :: items, depth =>
    match sanitizeInput item depth with
    | .error e => .error e
    | .ok v => (sanitizeItems items depth).map (v :: ·)

def sanitizeEntries : List (JsString × Json) → ℕ → List (JsString × Json) →
    Except JsString (List (JsString × Json))
  | [], _, sanitizedObject => .ok sanitizedObject
  | (key, value) :: entries, depth, sanitizedObject =>
    match sanitizeInput value depth with
    | .error e => .error e
    | .ok v => sanitizeEntries entries depth (assignField sanitizedObject key v)
end

/-- The parts of a request that the middleware rewrites; `none` where express leaves
them undefined. -/
structure Request where
  body : Option Json
  query : Option Json
  params : Option Json

/-- What a middleware does with a request: hand it on or answer it. -/
inductive Handled (α : Type)
  | next (req : α)
  | respond (status : ℕ) (body : Json)

def sanitizePart : Option Json → Except JsString (Option Json)
  | none => .ok none
  | some v => (sanitizeInput v 0).map some

def requestSanitizationMiddleware (req : Request) : Handled Request :=
  let sanitizedRequest : Except JsString Request := do
    let body ← sanitizePart req.body
    let query ← sanitizePart req.query
    let params ← sanitizePart req.params
    return ⟨body, query, params⟩
  match sanitizedRequest with
  | .ok req => .next req
  | .error _ =>
    .respond 400 (.obj [(js "error", .str (js "Invalid input sequence detected"))])

/-- A request that passes has every part sanitised. -/
lemma requestSanitizationMiddleware_next {req req' : Request}
    (h : requestSanitizationMiddleware req = .next req') :
    sanitizePart req.body = .ok req'.body ∧ sanitizePart req.query = .ok req'.query ∧
      sanitizePart req.params = .ok req'.params := by
  revert h
  rw [requestSanitizationMiddleware]
  cases sanitizePart req.body with
  | error e => nofun
  | ok body =>
  cases sanitizePart req.query with
  | error e => nofun
  | ok query =>
  cases sanitizePart req.params with
  | error e => nofun
  | ok params =>
    rintro ⟨⟩
    exact ⟨rfl, rfl, rfl⟩

/-! What the deletions leave. -/

lemma xss_selfContained : ∀ p ∈ XSS_PATTERNS, selfContained p = true := by decide

/-- The characters that the patterns start with. -/
def openers : List Char := ['<', 'o', 'j', 'v', 'd']

lemma xss_head {p : Pattern CodeUnit} (hp : p ∈ XSS_PATTERNS) :
    ∃ ch ∈ openers, ∃ r, p = .one (charI ch) :: r := by
  simp only [XSS_PATTERNS, List.mem_cons, List.not_mem_nil, or_false] at hp
  rcases hp with rfl | rfl | rfl | rfl | rfl
  · exact ⟨'<', by decide, _, rfl⟩
  · exact ⟨'o', by decide, _, rfl⟩
  · exact ⟨'j', by decide, _, rfl⟩
  · exact ⟨'v', by decide, _, rfl⟩
  · exact ⟨'d', by decide, _, rfl⟩

lemma openers_visible : ∀ ch ∈ openers, 33 ≤ (canonicalize (unit ch)).toNat ∧
    (canonicalize (unit ch)).toNat ≤ 126 := by
  intro ch hch
  simp only [openers, List.mem_cons, List.not_mem_nil, or_false] at hch
  rcases hch with rfl | rfl | rfl | rfl | rfl <;> decide

/-- Every match starts with a letter or an angle bracket. -/
lemma xss_starts {p : Pattern CodeUnit} (hp : p ∈ XSS_PATTERNS) {before : Option CodeUnit}
    {c : CodeUnit} {s : JsString} {n : ℕ} (h : run p before (c :: s) = some (n + 1)) :
    isWhiteSpace c = false := by
  obtain ⟨ch, hch, r, rfl⟩ := xss_head hp
  have hc : charI ch c = true := (taking_eq_some.mp h).1
  exact isWhiteSpace_of_visible (visible_of_charI hc (openers_visible ch hch))

/-- Sanitising changes nothing but the surrounding white space exactly when no
pattern occurs. -/
theorem sanitized_eq_trim_iff (s : JsString) :
    sanitized s = trim s ↔ ∀ p ∈ XSS_PATTERNS, ¬ Occurs p s := by
  constructor
  · intro h p hp ho
    have hlt : (deletePasses XSS_PATTERNS s).countP (fun c => !isWhiteSpace c) <
        s.countP fun c => !isWhiteSpace c :=
      countP_deletePasses_lt (fun q hq => ⟨xss_selfContained q hq, fun _ _ _ _ hr => by
        simp [xss_starts hq hr]⟩) ⟨p, hp, ho⟩
    have hcount := congrArg (List.countP fun c => !isWhiteSpace c) h
    rw [sanitized, trim, trim, countP_trimBy, countP_trimBy] at hcount
    omega
  · intro h
    rw [sanitized, deletePasses_eq_self h]

/-- A value without occurrences is only trimmed. -/
lemma sanitized_of_clean {s : JsString} (h : ∀ p ∈ XSS_PATTERNS, ¬ Occurs p s) :
    sanitized s = trim s := (sanitized_eq_trim_iff s).mpr h

lemma trim_sanitized (s : JsString) : trim (sanitized s) = sanitized s := trim_trim _

end UrlShortener.Security
