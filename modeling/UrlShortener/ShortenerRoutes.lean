import UrlShortener.UrlService
import UrlShortener.UrlValidation

/-! The two routes behind `createServer`: what is stored for a submitted URL, and which
issued aliases the redirect route accepts. -/
namespace UrlShortener.Routes
open Js Json AliasGenerator Security Validation UrlService

/-- `Joi.string().alphanum().min(4).max(64).required()` -/
def aliasSchema : StringSchema := ⟨true, none, some 4, some 64, false, true⟩

/-- The arguments of `trackClick`. -/
structure Click where
  urlId : JsString
  ip : JsString
  userAgent : JsString
  referer : JsString
  deriving DecidableEq

/-- How a handler ends: an answer, a redirect with the click that it reports, or an
error handed to express. -/
inductive Answer
  | json (status : ℕ) (body : Json)
  | redirect (status : ℕ) (location : Option Json) (click : Click)
  | failed

/-- What the redirect handler reads of its request. -/
structure Visit where
  «alias» : JsString
  ip : Option JsString
  userAgent : Option JsString
  referer : Option JsString

/-- `value || fallback`; the empty string is falsy. -/
def orElse (value : Option JsString) (fallback : JsString) : JsString :=
  match value with
  | none => fallback
  | some s => if s.isEmpty then fallback else s

/-- `id.toString()` -/
def bigIntText (n : ℤ) : JsString :=
  if n < 0 then unit '-' :: decimal n.natAbs else decimal n.natAbs

def invalidAlias (details : List Detail) : Answer :=
  .json 400 (.obj [(js "status", .num (js "400")),
    (js "message", .str (js "Invalid alias format")),
    (js "details", .arr (details.map fun d => .str d.message))])

def notFound : Answer :=
  .json 404 (.obj [(js "status", .num (js "404")), (js "message", .str (js "URL not found"))])

/-- `GET /:alias`, given what `resolveUrl` comes to. -/
def getAlias (joi : Joi) (resolveUrl : JsString → Except JsString (Option UrlRecord))
    (req : Visit) : Answer :=
  match joi.string aliasSchema req.alias with
  | .error details => invalidAlias details
  | .ok a =>
    match resolveUrl a with
    | .error _ => .failed
    | .ok none => notFound
    | .ok (some record) =>
      .redirect 302 record.original_url
        ⟨bigIntText record.id, orElse req.ip (js "0.0.0.0"), orElse req.userAgent (js "unknown"),
          orElse req.referer []⟩

def asText : Option Json → Option JsString
  | some (.str s) => some s
  | _ => none

/-- The body of the answer 201; an undefined owner is left out. -/
def createdBody (baseUrl originalUrl generatedAlias : JsString) (ownerId : Option JsString)
    (createdAt : ℤ) : Json :=
  .obj [(js "status", .num (js "201")),
    (js "data", .obj ((js "original_url", .str originalUrl) ::
      (js "alias", .str generatedAlias) ::
      (js "short_url", .str (baseUrl ++ js "/" ++ generatedAlias)) ::
      ((ownerId.map fun o => (js "owner_id", Json.str o)).toList ++
        [(js "created_at", .str (toISOString createdAt))])))]

/-- The handler of `POST /shorten`. Validation leaves nothing but strings under the keys
that it reads; a body that is no object throws when it is taken apart. -/
def postShorten (o : ShortenReplies) (baseUrl : JsString) (createdAt : ℤ) (db : Db)
    (body : Option Json) : Answer × Db :=
  match body with
  | none => (.failed, db)
  | some value =>
    match asText (value.prop "original_url") with
    | none => (.failed, db)
    | some originalUrl =>
      let ownerId := asText (value.prop "owner_id")
      match shortenUrl o db originalUrl ownerId with
      | (.ok a, db') => (.json 201 (createdBody baseUrl originalUrl a ownerId createdAt), db')
      | (.error _, db') => (.failed, db')

/-! The middleware in front of the handlers. -/

inductive Middleware
  | helmet
  | json
  | urlencoded
  | requestSanitization
  | rateLimiter
  | validateShortenRequest
  deriving DecidableEq

/-- The `app.use` calls of `createServer` in front of the router. -/
def createServer : List Middleware :=
  [.helmet, .json, .urlencoded, .requestSanitization, .rateLimiter]

inductive Route
  | shorten
  | resolve
  deriving DecidableEq

/-- What the router runs before the handler of a route. -/
def Route.middleware : Route → List Middleware
  | .shorten => [.rateLimiter, .validateShortenRequest]
  | .resolve => [.rateLimiter]

def stack (route : Route) : List Middleware := createServer ++ route.middleware

/-- What a middleware makes of a request whose body is parsed and which is within its
quota. -/
def Middleware.handle (joi : Joi) : Middleware → Request → Handled Request
  | .requestSanitization, req => requestSanitizationMiddleware req
  | .validateShortenRequest, req => Validation.validateShortenRequest joi req
  | _, req => .next req

def passThrough (joi : Joi) : List Middleware → Request → Handled Request
  | [], req => .next req
  | m :: ms, req =>
    match m.handle joi req with
    | .next req' => passThrough joi ms req'
    | .respond status body => .respond status body

/-- `POST /api/shorten` from the parsed request to its answer. Of a body with an own key `__proto__`
only the other keys are read here; the code also reads through the prototype that it has set. -/
def serveShorten (joi : Joi) (o : ShortenReplies) (baseUrl : JsString) (createdAt : ℤ) (db : Db)
    (req : Request) : Answer × Db :=
  match passThrough joi (stack .shorten) req with
  | .respond status body => (.json status body, db)
  | .next req' => postShorten o baseUrl createdAt db req'.body

/-! What is stored. -/

/-- The body `{original_url: u}`. -/
def submission (u : JsString) : Json := .obj [(js "original_url", .str u)]

lemma sanitizeInput_submission (u : JsString) :
    sanitizeInput (submission u) 0 = .ok (submission (sanitized u)) := by
  have hkey : js "original_url" ≠ js "__proto__" := by decide
  simp [submission, sanitizeInput, sanitizeEntries, assignField, hkey, setField, MAX_DEPTH,
    Except.map, sanitizeValue]

lemma prop_submission (u : JsString) :
    (submission u).prop "original_url" = some (.str u) := prop_head _ _ _

/-- The URL that reaches the handler is the sanitised one. -/
lemma passThrough_shorten {joi : Joi} {req req' : Request} {u : JsString}
    (hb : req.body = some (submission u)) (h : passThrough joi (stack .shorten) req = .next req') :
    ∃ v, req'.body = some v ∧ v.prop "original_url" = some (.str (sanitized u)) := by
  simp only [stack, createServer, Route.middleware, List.cons_append, List.nil_append,
    passThrough, Middleware.handle] at h
  cases hs : requestSanitizationMiddleware req with
  | respond status body => simp [hs] at h
  | next clean =>
    have hbody := (requestSanitizationMiddleware_next hs).1
    rw [hb, sanitizePart, sanitizeInput_submission] at hbody
    have hclean : clean.body = some (submission (sanitized u)) := (Except.ok.inj hbody).symm
    cases hv : Validation.validateShortenRequest joi clean with
    | respond status body => simp [hs, hv] at h
    | next valid =>
      obtain rfl : valid = req' := by simpa [hs, hv] using h
      have hnext := validateShortenRequest_next hclean (prop_submission _) hv
      rwa [trim_sanitized] at hnext

lemma Middleware.handle_respond {joi : Joi} {m : Middleware} {req : Request} {status : ℕ}
    {body : Json} (h : m.handle joi req = .respond status body) : status = 400 := by
  revert h
  cases m with
  | helmet | json | urlencoded | rateLimiter =>
    intro h
    cases h
  | requestSanitization =>
    simp only [Middleware.handle, requestSanitizationMiddleware]
    split
    · intro h
      cases h
    · intro h
      cases h
      rfl
  | validateShortenRequest =>
    simp only [Middleware.handle, Validation.validateShortenRequest, validate]
    split
    · intro h
      cases h
      rfl
    · intro h
      cases h

/-- Nothing in front of the handlers answers anything but 400. -/
lemma passThrough_respond {joi : Joi} {ms : List Middleware} {req : Request} {status : ℕ}
    {body : Json} (h : passThrough joi ms req = .respond status body) : status = 400 := by
  induction ms generalizing req with
  | nil => cases h
  | cons m ms ih =>
    rw [passThrough] at h
    split at h
    case h_1 req' hm => exact ih h
    case h_2 status' body' hm =>
      cases h
      exact Middleware.handle_respond hm

/-- A handler that answers 201 has added a row with the URL of its body. -/
lemma postShorten_created {o : ShortenReplies} {baseUrl u : JsString} {createdAt : ℤ} {db : Db}
    {value body : Json} (hu : value.prop "original_url" = some (.str u))
    (h : (postShorten o baseUrl createdAt db (some value)).1 = .json 201 body) :
    ∃ row, (postShorten o baseUrl createdAt db (some value)).2.urls = db.urls ++ [row] ∧
      row.original_url = u := by
  simp only [postShorten, hu, asText] at h ⊢
  cases hr : shortenUrl o db u (asText (value.prop "owner_id")) with
  | mk result db' =>
    simp only [asText] at hr
    cases result with
    | error message => simp [hr] at h
    | ok a =>
      have hok : (shortenUrl o db u (asText (value.prop "owner_id"))).1 = .ok a := by
        simp [asText, hr]
      obtain ⟨n, time, -, -, hrow⟩ := shortenUrl_ok hok
      simp only [asText, hr] at hrow ⊢
      exact ⟨_, hrow, rfl⟩

/-- What is stored is the sanitised URL, and that is the submitted one, trimmed, exactly
when no pattern occurs in it. -/
theorem stored_url_sanitized (joi : Joi) (o : ShortenReplies) (baseUrl : JsString)
    (createdAt : ℤ) (db : Db) {req : Request} {u : JsString} {body : Json}
    (hb : req.body = some (submission u))
    (h : (serveShorten joi o baseUrl createdAt db req).1 = .json 201 body) :
    ∃ row, (serveShorten joi o baseUrl createdAt db req).2.urls = db.urls ++ [row] ∧
      row.original_url = sanitized u ∧
      (row.original_url = trim u ↔ ∀ p ∈ XSS_PATTERNS, ¬ Pattern.Occurs p u) := by
  rw [serveShorten] at h ⊢
  cases hp : passThrough joi (stack .shorten) req with
  | respond status reply =>
    obtain rfl := passThrough_respond hp
    simp [hp] at h
  | next req' =>
    obtain ⟨v, hv, hu⟩ := passThrough_shorten hb hp
    simp only [hp, hv] at h ⊢
    obtain ⟨row, hrow, hurl⟩ := postShorten_created hu h
    refine ⟨row, hrow, hurl, ?_⟩
    rw [hurl]
    exact sanitized_eq_trim_iff u

/-- The first call on an empty database, with every step a success. -/
def firstCall : ShortenReplies := ⟨none, .ok 1, .ok 0, none, 0, none, none⟩

def contactPage : JsString := js "http://a.example/?contact=5"

lemma created_contactPage : ∃ body, (serveShorten plainJoi firstCall [] 0 Db.empty
    ⟨some (submission contactPage), none, none⟩).1 = .json 201 body := by
  have h : ((serveShorten plainJoi firstCall [] 0 Db.empty
      ⟨some (submission contactPage), none, none⟩).1 matches .json 201 _) = true := by
    decide +kernel
  split at h
  case h_1 body hbody => exact ⟨body, hbody⟩
  case h_2 => cases h

/-- `contact=5` holds `ontact=5`, which reads as an event handler and is cut out. -/
theorem stored_url_not_submitted : ¬ ∀ (req : Request) (u : JsString) (body : Json),
    req.body = some (submission u) →
    (serveShorten plainJoi firstCall [] 0 Db.empty req).1 = .json 201 body →
    ∃ row, (serveShorten plainJoi firstCall [] 0 Db.empty req).2.urls = Db.empty.urls ++ [row] ∧
      row.original_url = trim u := by
  intro h
  obtain ⟨body, hbody⟩ := created_contactPage
  obtain ⟨row, hrow, hu⟩ := h _ contactPage body rfl hbody
  have hstored : (serveShorten plainJoi firstCall [] 0 Db.empty
      ⟨some (submission contactPage), none, none⟩).2.urls.map UrlRow.original_url =
      [js "http://a.example/?c"] := by
    decide +kernel
  rw [hrow] at hstored
  have hcut : row.original_url = js "http://a.example/?c" := by simpa [Db.empty] using hstored
  exact absurd (hu.symm.trans hcut) (by decide +kernel)

theorem stored_url_sanitized_contactPage : ∃ row body,
    (serveShorten plainJoi firstCall [] 0 Db.empty
      ⟨some (submission contactPage), none, none⟩).1 = .json 201 body ∧
    (serveShorten plainJoi firstCall [] 0 Db.empty
      ⟨some (submission contactPage), none, none⟩).2.urls = Db.empty.urls ++ [row] ∧
      row.original_url = sanitized contactPage ∧
      (row.original_url = trim contactPage ↔
        ∀ p ∈ XSS_PATTERNS, ¬ Pattern.Occurs p contactPage) := by
  obtain ⟨body, hbody⟩ := created_contactPage
  obtain ⟨row, hrow⟩ := stored_url_sanitized plainJoi firstCall [] 0 Db.empty rfl hbody
  exact ⟨row, body, hbody, hrow⟩

/-! Which issued aliases the redirect route accepts. -/

lemma aliasSchema_numeral_iff {n : ℕ} (hpos : 1 ≤ n) (hmax : n ≤ MAX_BIGINT) :
    aliasSchema.Admits (numeral n) ↔ 62 ^ 3 ≤ n := by
  have hshort := numeral_length_le hpos 3
  have hlong : (numeral n).length ≤ 64 := by
    apply (numeral_length_le hpos 64).mpr
    calc n ≤ MAX_BIGINT := hmax
      _ < 62 ^ 64 := by norm_num [MAX_BIGINT]
  simp only [StringSchema.Admits, aliasSchema, Option.mem_def, Option.some.injEq,
    forall_eq', forall_true_left]
  constructor
  · rintro ⟨-, -, hmin, -⟩
    omega
  · intro h
    have hmin : 4 ≤ (numeral n).length := by omega
    refine ⟨?_, fun c hc => numeral_alphanumeric n c hc, hmin, hlong⟩
    intro hnil
    simp [hnil] at hmin

lemma getAlias_refused {joi : Joi} {visit : Visit} {details : List Detail}
    (h : joi.string aliasSchema visit.alias = .error details)
    (resolveUrl : JsString → Except JsString (Option UrlRecord)) :
    getAlias joi resolveUrl visit = invalidAlias details := by
  rw [getAlias, h]

lemma getAlias_accepted {joi : Joi} {visit : Visit} {a : JsString}
    (h : joi.string aliasSchema visit.alias = .ok a)
    (resolveUrl : JsString → Except JsString (Option UrlRecord)) (details : List Detail) :
    getAlias joi resolveUrl visit ≠ invalidAlias details := by
  rw [getAlias, h]
  dsimp only
  cases resolveUrl a with
  | error message => nofun
  | ok record =>
    cases record with
    | none => simp [notFound, invalidAlias]
    | some record => nofun

/-- An alias that `shortenUrl` has just returned is accepted exactly when its identifier
has at least four base62 digits. -/
theorem issued_alias_accepted_iff (joi : Joi) {o : ShortenReplies} {db : Db}
    {originalUrl a : JsString} {ownerId : Option JsString} {id : ℕ} (hpos : 1 ≤ id)
    (hmax : id ≤ MAX_BIGINT) (hid : o.onNextval = .ok id)
    (ha : (shortenUrl o db originalUrl ownerId).1 = .ok a)
    (resolveUrl : JsString → Except JsString (Option UrlRecord)) {visit : Visit}
    (hv : visit.alias = a) :
    (joi.string aliasSchema a = .ok a ↔ 62 ^ 3 ≤ id) ∧
      ((∀ details, getAlias joi resolveUrl visit ≠ invalidAlias details) ↔ 62 ^ 3 ≤ id) := by
  obtain ⟨n, time, hn, rfl, -⟩ := shortenUrl_ok ha
  obtain rfl : id = n := Except.ok.inj (hid.symm.trans hn)
  have hjoi := fun value => joi.string_ok_iff aliasSchema (numeral id) value rfl rfl
  have hschema : joi.string aliasSchema (numeral id) = .ok (numeral id) ↔ 62 ^ 3 ≤ id := by
    rw [hjoi, aliasSchema_numeral_iff hpos hmax, and_iff_left rfl]
  refine ⟨hschema, fun h => ?_, fun h => ?_⟩
  · cases hs : joi.string aliasSchema (numeral id) with
    | error details => exact absurd (getAlias_refused (hv ▸ hs) resolveUrl) (h details)
    | ok value =>
      exact (aliasSchema_numeral_iff hpos hmax).mp ((hjoi value).mp hs).1
  · exact getAlias_accepted (by rw [hv]; exact hschema.mpr h) resolveUrl

def firstVisit : Visit := ⟨js "1", none, none, none⟩

theorem issued_alias_accepted_first :
    (plainJoi.string aliasSchema (js "1") = .ok (js "1") ↔ 62 ^ 3 ≤ 1) ∧
      ((∀ details, getAlias plainJoi (fun _ => .ok none) firstVisit ≠
        invalidAlias details) ↔ 62 ^ 3 ≤ 1) := by
  have ha : (shortenUrl firstCall Db.empty (js "https://a.example") none).1 = .ok (js "1") := by
    decide +kernel
  exact issued_alias_accepted_iff plainJoi le_rfl (by decide) rfl ha _ rfl

/-- The first alias that the service hands out is refused. -/
theorem first_alias_refused :
    (shortenUrl firstCall Db.empty (js "https://a.example") none).1 = .ok (js "1") ∧
      ∃ details, getAlias plainJoi (fun _ => .ok none) firstVisit =
        invalidAlias details := by
  refine ⟨by decide +kernel, ?_⟩
  cases hs : plainJoi.string aliasSchema firstVisit.alias with
  | error details => exact ⟨details, getAlias_refused hs _⟩
  | ok value =>
    have hadmits := ((plainJoi.string_ok_iff aliasSchema _ value rfl rfl).mp hs).1
    exact absurd (hadmits.2.2.1 4 rfl) (by decide)

/-! Aliases with an offset. -/

lemma aliasSchema_numeral_bounds (n : ℕ) :
    aliasSchema.Admits (numeral n) ↔ 62 ^ 3 ≤ n ∧ n < 62 ^ 64 := by
  rcases Nat.eq_zero_or_pos n with rfl | hpos
  · refine iff_of_false (fun hadmits => ?_) (fun h => absurd h.1 (by norm_num))
    exact absurd (hadmits.2.2.1 4 rfl) (by decide)
  have hshort := numeral_length_le hpos 3
  have hlong := numeral_length_le hpos 64
  simp only [StringSchema.Admits, aliasSchema, Option.mem_def, Option.some.injEq,
    forall_eq', forall_true_left]
  constructor
  · rintro ⟨-, -, hmin, hmax⟩
    exact ⟨by omega, hlong.mp hmax⟩
  · intro h
    have hmin : 4 ≤ (numeral n).length := by omega
    refine ⟨?_, fun c hc => numeral_alphanumeric n c hc, hmin, hlong.mpr h.2⟩
    intro hnil
    simp [hnil] at hmin

/-- An obfuscated alias stands for the sum of identifier and offset. There is none exactly where
the sum is negative, and the redirect route accepts it exactly where the sum has between four and
64 digits. -/
theorem obfuscated_alias (joi : Joi) (id offset : ℤ) :
    ((∃ e, generateObfuscatedAlias id offset = .error e) ↔ id + offset < 0) ∧
      ∀ a, generateObfuscatedAlias id offset = .ok a →
        (∃ n : ℕ, decodeAlias a = .ok n ∧ (n : ℤ) = id + offset) ∧
        (joi.string aliasSchema a = .ok a ↔ 62 ^ 3 ≤ id + offset ∧ id + offset < 62 ^ 64) := by
  rw [generateObfuscatedAlias]
  generalize id + offset = sum
  rcases lt_or_ge sum 0 with hneg | hpos
  · have herror : generateAlias sum =
        .error (js "Invalid input: Identifier must be non-negative.") := if_pos hneg
    refine ⟨iff_of_true ⟨_, herror⟩ hneg, fun a ha => ?_⟩
    rw [herror] at ha
    cases ha
  · obtain ⟨n, rfl⟩ := Int.eq_ofNat_of_zero_le hpos
    rw [generateAlias_natCast]
    refine ⟨iff_of_false (fun he => ?_) (not_lt.mpr hpos), fun a ha => ?_⟩
    · obtain ⟨e, he⟩ := he
      cases he
    · obtain rfl : numeral n = a := Except.ok.inj ha
      refine ⟨⟨n, decodeAlias_numeral n, rfl⟩, ?_⟩
      rw [joi.string_ok_iff aliasSchema (numeral n) (numeral n) rfl rfl, and_iff_left rfl,
        aliasSchema_numeral_bounds]
      norm_cast

end UrlShortener.Routes
