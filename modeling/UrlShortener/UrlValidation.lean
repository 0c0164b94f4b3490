import UrlShortener.SecurityMiddleware

/-! Joi schemas as the source builds them, and `validateShortenRequest`. -/
namespace UrlShortener.Validation
open Js Json Security

/-- The rules chained on `Joi.string()`. -/
structure StringSchema where
  alphanum : Bool
  scheme : Option (List JsString)
  min : Option ℕ
  max : Option ℕ
  trim : Bool
  required : Bool

/-- The rules that look at nothing but the units of the string. An empty string is
never admitted. -/
def StringSchema.Admits (schema : StringSchema) (s : JsString) : Prop :=
  s ≠ [] ∧ (schema.alphanum = true → ∀ c ∈ s, isAlphanumeric c = true) ∧
    (∀ n ∈ schema.min, n ≤ s.length) ∧ ∀ n ∈ schema.max, s.length ≤ n

instance (schema : StringSchema) (s : JsString) : Decidable (schema.Admits s) :=
  inferInstanceAs (Decidable (_ ∧ _ ∧ _ ∧ _))

/-- An entry of `error.details`. -/
structure Detail where
  path : List JsString
  message : JsString

/-- The validator: `string` validates a string, `object` validates a value with the
options `abortEarly: false` and `stripUnknown: true`. A string schema that neither trims
nor reads a URI returns the strings that it admits as they are, and a key whose schema
trims is rejected or returned trimmed. -/
structure Joi where
  string : StringSchema → JsString → Except (List Detail) JsString
  object : List (String × StringSchema) → Option Json → Except (List Detail) (Option Json)
  string_ok_iff : ∀ schema s value, schema.scheme = none → schema.trim = false →
    (string schema s = .ok value ↔ schema.Admits s ∧ value = s)
  object_trims : ∀ fields key schema body value s,
    (fields.map fun f => js f.1).Nodup → (key, schema) ∈ fields → schema.trim = true →
    object fields (some body) = .ok value → body.prop key = some (.str s) →
    ∃ v, value = some v ∧ v.prop key = some (.str (trim s))

def shortenSchema : List (String × StringSchema) :=
  [("original_url", ⟨false, some [js "http", js "https"], none, none, true, true⟩),
   ("alias", ⟨true, none, some 4, some 16, true, false⟩),
   ("owner_id", ⟨true, none, some 1, some 64, true, false⟩)]

/-- `message.replace(/['"]/g, '')` -/
def withoutQuotes (message : JsString) : JsString := message.filter (noneOf "'\"")

def errorDetail (detail : Detail) : Json :=
  .obj [(js "field", .str ((js ".").intercalate detail.path)),
    (js "message", .str (withoutQuotes detail.message))]

def validate (joi : Joi) (schema : List (String × StringSchema)) (req : Request) :
    Handled Request :=
  match joi.object schema req.body with
  | .error details =>
    .respond 400 (.obj [(js "status", .num (js "400")),
      (js "message", .str (js "Validation failed")),
      (js "errors", .arr (details.map errorDetail))])
  | .ok value => .next { req with body := value }

def validateShortenRequest (joi : Joi) : Request → Handled Request := validate joi shortenSchema

lemma shortenSchema_nodup : (shortenSchema.map fun f => js f.1).Nodup := by decide

/-- A body that passes has its URL trimmed. -/
lemma validateShortenRequest_next {joi : Joi} {req req' : Request} {body : Json} {u : JsString}
    (hb : req.body = some body) (hu : body.prop "original_url" = some (.str u))
    (h : validateShortenRequest joi req = .next req') :
    ∃ v, req'.body = some v ∧ v.prop "original_url" = some (.str (trim u)) := by
  rw [validateShortenRequest, validate, hb] at h
  split at h
  case h_1 => cases h
  case h_2 value hv =>
    cases h
    exact joi.object_trims shortenSchema _ _ body value u shortenSchema_nodup
      List.mem_cons_self rfl hv hu

/-! A validator that reads a URI as a scheme, `://` and visible ASCII. -/

def startsUri (scheme rest : JsString) : Bool :=
  (scheme ++ js "://").isPrefixOf rest &&
    rest.all fun c => 33 ≤ c.toNat && c.toNat ≤ 126

def plainCheck (schema : StringSchema) (s : JsString) : Except (List Detail) JsString :=
  if schema.Admits s ∧ (schema.scheme.all fun names => names.any (startsUri · s)) then .ok s
  else .error [⟨[], js "value fails to match the required pattern"⟩]

def plainString (schema : StringSchema) (value : JsString) : Except (List Detail) JsString :=
  plainCheck schema (if schema.trim then trim value else value)

def plainFields (body : Json) :
    List (String × StringSchema) → Except (List Detail) (List (JsString × Json))
  | [] => .ok []
  | (key, schema) :: fields =>
    match body.prop key with
    | none =>
      if schema.required then .error [⟨[js key], js key ++ js " is required"⟩]
      else plainFields body fields
    | some (.str s) =>
      match plainString schema s, plainFields body fields with
      | .ok value, .ok values => .ok ((js key, .str value) :: values)
      | .error details, _ | _, .error details => .error details
    | some _ => .error [⟨[js key], js key ++ js " must be a string"⟩]

lemma plainCheck_ok_iff {schema : StringSchema} {s value : JsString} :
    plainCheck schema s = .ok value ↔
      (schema.Admits s ∧ (schema.scheme.all fun names => names.any (startsUri · s))) ∧
        value = s := by
  by_cases h : schema.Admits s ∧ (schema.scheme.all fun names => names.any (startsUri · s))
  · simp [plainCheck, h, eq_comm]
  · simp [plainCheck, h]

lemma plainFields_prop {body : Json} {fields : List (String × StringSchema)}
    {values : List (JsString × Json)} {key : String} {schema : StringSchema} {s : JsString}
    (hn : (fields.map fun f => js f.1).Nodup) (hm : (key, schema) ∈ fields)
    (ht : schema.trim = true) (hs : body.prop key = some (.str s))
    (h : plainFields body fields = .ok values) :
    (Json.obj values).prop key = some (.str (trim s)) := by
  induction fields generalizing values with
  | nil => cases hm
  | cons f fields ih =>
    obtain ⟨k, sch⟩ := f
    obtain ⟨hk, hn⟩ := List.nodup_cons.mp hn
    rcases List.mem_cons.mp hm with he | hm
    · cases he
      simp only [plainFields, hs] at h
      split at h
      case h_1 value values' hv _ =>
        cases h
        obtain rfl : value = trim s := by simpa [ht] using (plainCheck_ok_iff.mp hv).2
        exact prop_head _ _ _
      all_goals cases h
    · have hne : js k ≠ js key := fun he => hk (List.mem_map.mpr ⟨_, hm, he.symm⟩)
      rw [plainFields] at h
      split at h
      case h_1 =>
        split at h
        · cases h
        · exact ih hn hm h
      case h_2 =>
        split at h
        case h_1 value values' _ hvs =>
          cases h
          rw [prop_tail hne]
          exact ih hn hm hvs
        all_goals cases h
      case h_3 => cases h

/-- It obeys the laws. -/
def plainJoi : Joi where
  string := plainString
  object fields
    | some (.obj entries) =>
      (plainFields (.obj entries) fields).map fun values => some (.obj values)
    | some _ => .error [⟨[], js "value must be of type object"⟩]
    | none => .ok none
  string_ok_iff schema s value hs ht := by
    simp [plainString, ht, plainCheck_ok_iff, hs]
  object_trims fields key schema body value s hn hm ht h hs := by
    cases body with
    | obj entries =>
      cases hv : plainFields (.obj entries) fields with
      | error details => simp [hv, Except.map] at h
      | ok values =>
        obtain rfl : some (Json.obj values) = value := by simpa [hv, Except.map] using h
        exact ⟨_, rfl, plainFields_prop hn hm ht hs hv⟩
    | _ => cases h

end UrlShortener.Validation
