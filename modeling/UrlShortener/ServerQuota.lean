import UrlShortener.RateLimiter
import UrlShortener.ShortenerRoutes

/-! The quota of the composed server: `createServer` runs the limiter for every request
and the router runs it once more for each of its routes. The body parsers and the sanitisation
in front of the limiter answer what they refuse themselves. -/
namespace UrlShortener.Quota
open Transition RateLimiter Routes Security Validation

/-- A request as it comes in. Of the two body parsers only the outcome is known: what they
leave in `req.body`, or the status of their error. -/
structure Incoming where
  json : Except ℕ (Option Json)
  urlencoded : Except ℕ (Option Json)
  parts : Request

/-- What a middleware hands on, or the status of the answer that it gives itself. -/
def handover (joi : Joi) (req : Incoming) : Middleware → Except ℕ Incoming
  | .json => req.json.map fun body => { req with parts := { req.parts with body := body } }
  | .urlencoded =>
    req.urlencoded.map fun body => { req with parts := { req.parts with body := body } }
  | m =>
    match m.handle joi req.parts with
    | .next parts => .ok { req with parts := parts }
    | .respond status _ => .error status

/-- A request inside an invocation of the limiter with the middleware still to come,
past all its rate limiting, answered 429, or answered in front of a limiter. -/
inductive Passage
  | inside (inv : Invocation) (req : Incoming) (rest : List Middleware)
  | admitted
  | refused (headers : Headers) (retryAfter : ℤ) (rest : List Middleware)
  | rejected (status : ℕ) (rest : List Middleware)

/-- On to the next limiter; what comes behind the last one does not touch the quota. -/
def enter (joi : Joi) (req : Incoming) : List Middleware → Passage
  | [] => .admitted
  | .rateLimiter :: rest => .inside .starting req rest
  | m :: rest =>
    if .rateLimiter ∈ rest then
      match handover joi req m with
      | .ok req' => enter joi req' rest
      | .error status => .rejected status rest
    else .admitted

def passageStep (joi : Joi) (config : Config) (e : Event) (s : Store) :
    Passage → Option (Store × Passage)
  | .inside inv req rest =>
    if e.Healthy inv then
      (limiterStep config e s inv).map fun d =>
        match d.2 with
        | .passed _ => (d.1, enter joi req rest)
        | .refused headers retryAfter => (d.1, .refused headers retryAfter rest)
        | inv' => (d.1, .inside inv' req rest)
    else none
  | _ => none

/-- The requests of one client within one lifetime of its key: no step drops it. -/
def requests (joi : Joi) (config : Config) : Threads Store Passage Event ℕ where
  step e s p := (passageStep joi config e s p).filter fun d => d.1.dropped = s.dropped
  env ms s := if (s.pass ms).dropped = s.dropped then some (s.pass ms) else none

variable {ι : Type} [DecidableEq ι]

/-- The key does not exist and each request is in front of its first middleware. -/
def arrivals (joi : Joi) (now : ℕ) (route : ι → Route) (req : ι → Incoming) :
    Store × (ι → Passage) :=
  (⟨now, none, 0⟩, fun i => enter joi (req i) (stack (route i)))

def Passage.Answered : Passage → Prop
  | .inside _ _ _ => False
  | _ => True

def Passage.isAdmitted : Passage → Bool
  | .admitted => true
  | _ => false

def Passage.isRefused : Passage → Bool
  | .refused _ _ _ => true
  | _ => false

/-- Neither of the parsers nor the sanitisation answers the request. -/
def Incoming.accepted (req : Incoming) : Bool :=
  match req.json, req.urlencoded with
  | .ok _, .ok body =>
    match requestSanitizationMiddleware { req.parts with body := body } with
    | .next _ => true
    | .respond _ _ => false
  | _, _ => false

/-! Counting INCR commands. -/

def limiters (ms : List Middleware) : ℕ := ms.count .rateLimiter

lemma limiters_stack (route : Route) : limiters (stack route) = 2 := by
  cases route <;> rfl

/-- The INCR commands that a request has sent. -/
def sent : Passage → ℕ
  | .inside .starting _ rest => 1 - limiters rest
  | .inside _ _ rest => 2 - limiters rest
  | .admitted => 2
  | .refused _ _ rest | .rejected _ rest => 2 - limiters rest

/-- Those among them that were answered within the quota. -/
def granted (config : Config) : Passage → ℕ
  | .inside .starting _ rest => 1 - limiters rest
  | .inside (.counted count) _ rest | .inside (.expireSent count) _ rest =>
    2 - limiters rest - if count.any (· ≤ config.RATE_LIMIT_MAX) then 0 else 1
  | .inside (.extending count) _ rest =>
    2 - limiters rest - if count ≤ config.RATE_LIMIT_MAX then 0 else 1
  | .inside _ _ rest => 2 - limiters rest
  | .admitted => 2
  | .refused _ _ rest => 1 - limiters rest
  | .rejected _ rest => 2 - limiters rest

/-- A request has at most one limiter before it, and each INCR was answered. -/
def Underway : Passage → Prop
  | .inside inv _ rest => limiters rest ≤ 1 ∧ inv ≠ .counted none ∧ inv ≠ .expireSent none
  | .admitted | .rejected _ _ => True
  | .refused _ _ rest => limiters rest ≤ 1

lemma limiters_cons {m : Middleware} (hm : m ≠ .rateLimiter) (rest : List Middleware) :
    limiters (m :: rest) = limiters rest := List.count_cons_of_ne hm

lemma enter_spec (joi : Joi) (config : Config) (req : Incoming) {ms : List Middleware}
    (h : limiters ms ≤ 2) :
    Underway (enter joi req ms) ∧ sent (enter joi req ms) = 2 - limiters ms ∧
      granted config (enter joi req ms) = 2 - limiters ms := by
  fun_induction enter joi req ms with
  | case1 => simp [Underway, sent, granted, limiters]
  | case2 req rest =>
    have hl : limiters (.rateLimiter :: rest) = limiters rest + 1 := by simp [limiters]
    rw [hl] at h ⊢
    simp only [Underway, sent, granted]
    refine ⟨⟨by omega, by simp, by simp⟩, by omega, by omega⟩
  | case3 req m rest hm hin req' hreq ih =>
    rw [limiters_cons hm] at h ⊢
    exact ih h
  | case4 req m rest hm hin status hreq =>
    rw [limiters_cons hm]
    exact ⟨trivial, rfl, rfl⟩
  | case5 req m rest hm hout =>
    have hl : limiters rest = 0 := List.count_eq_zero.mpr hout
    rw [limiters_cons hm, hl]
    exact ⟨trivial, rfl, rfl⟩

/-- After the check against the quota. -/
lemma judged_spec {joi : Joi} {config : Config} {e : Event} {s s' : Store} {p' : Passage}
    {inv : Invocation} {req : Incoming} {rest : List Middleware} {count : ℕ} {ttl : Option ℤ}
    (hl : limiters rest ≤ 1) (hsent : sent (.inside inv req rest) = 2 - limiters rest)
    (hgranted : granted config (.inside inv req rest) =
      2 - limiters rest - if count ≤ config.RATE_LIMIT_MAX then 0 else 1)
    (hcount : s'.count = s.count)
    (h : (match verdict config count ttl e with
      | .passed _ => (s', enter joi req rest)
      | .refused headers retryAfter => (s', .refused headers retryAfter rest)
      | inv' => (s', .inside inv' req rest)) = (s', p')) :
    Underway p' ∧ s'.count + sent (.inside inv req rest) = s.count + sent p' ∧
      min s'.count config.RATE_LIMIT_MAX + granted config (.inside inv req rest) =
        min s.count config.RATE_LIMIT_MAX + granted config p' := by
  rcases verdict_eq config count ttl e with ⟨hle, headers, hv⟩ | ⟨hlt, headers, retry, hv⟩
  · rw [hv] at h
    obtain rfl : enter joi req rest = p' := congrArg Prod.snd h
    obtain ⟨hu, hs, hg⟩ := enter_spec joi config req (hl.trans (by omega))
    refine ⟨hu, ?_, ?_⟩
    · rw [hsent, hs, hcount]
    · rw [hgranted, hg, hcount, if_pos hle, Nat.sub_zero]
  · rw [hv] at h
    obtain rfl : Passage.refused headers retry rest = p' := congrArg Prod.snd h
    refine ⟨hl, ?_, ?_⟩
    · rw [hsent, hcount]
      rfl
    · rw [hgranted, hcount, if_neg (not_le.mpr hlt)]
      simp only [granted]
      omega

section Step
variable {joi : Joi} {config : Config} {e : Event} {s s' : Store} {p p' : Passage}

/-- Only a request inside a limiter takes a step. -/
lemma step_inside (h : (requests joi config).step e s p = some (s', p')) :
    ∃ inv req rest inv', p = .inside inv req rest ∧ Move config s inv s' inv' ∧
      s'.dropped = s.dropped ∧ (match inv' with
        | .passed _ => (s', enter joi req rest)
        | .refused headers retryAfter => (s', .refused headers retryAfter rest)
        | inv' => (s', .inside inv' req rest)) = (s', p') := by
  obtain ⟨hstep, hd⟩ := Option.filter_eq_some_iff.mp h
  have hd : s'.dropped = s.dropped := by simpa using hd
  cases p with
  | admitted | refused | rejected => cases hstep
  | inside inv req rest =>
    obtain ⟨he, hstep⟩ := Option.ite_none_right_eq_some.mp hstep
    obtain ⟨⟨s₁, inv'⟩, hinv, heq⟩ := Option.map_eq_some_iff.mp hstep
    have hs₁ : s₁ = s' := by
      cases inv' <;> exact congrArg Prod.fst heq
    subst hs₁
    exact ⟨inv, req, rest, inv', rfl, move_of_step he hinv, hd, heq⟩

lemma step_spec (hp : Underway p) (h : (requests joi config).step e s p = some (s', p')) :
    Underway p' ∧ s'.count + sent p = s.count + sent p' ∧
      min s'.count config.RATE_LIMIT_MAX + granted config p =
        min s.count config.RATE_LIMIT_MAX + granted config p' := by
  obtain ⟨inv, req, rest, inv', rfl, hmove, hd, heq⟩ := step_inside h
  obtain ⟨hl, hcounted, hsent⟩ := hp
  have hcount := hmove.count hd
  cases hmove with
  | incr =>
    obtain rfl : Passage.inside (.counted (some (s.count + 1))) req rest = p' :=
      congrArg Prod.snd heq
    refine ⟨⟨hl, by simp, by simp⟩, ?_, ?_⟩
    · simp only [sent, Store.incr_count]
      omega
    · simp only [granted, Store.incr_count, Option.any_some, decide_eq_true_eq]
      split <;> omega
  | @expire count _ h =>
    obtain rfl : Passage.inside (.expireSent count) req rest = p' := congrArg Prod.snd heq
    refine ⟨⟨hl, by simp, by simpa using hcounted⟩, ?_, ?_⟩
    · simpa [sent] using hcount
    · simp only [granted, hcount]
      rfl
  | abandon => exact absurd rfl hsent
  | @extend count h =>
    obtain rfl : Passage.inside (.extending count) req rest = p' := congrArg Prod.snd heq
    exact ⟨⟨hl, by simp, by simp⟩, rfl, by simp [granted]⟩
  | @judge count e' h =>
    exact judged_spec hl rfl (by simp [granted]) hcount heq
  | @judgeExtended count e' =>
    exact judged_spec hl rfl rfl hcount heq

end Step

/-! Answers in front of the limiter. -/

/-- What `createServer` runs before it limits a request. -/
lemma enter_createServer (joi : Joi) (req : Incoming) (routed : List Middleware) :
    (req.accepted ∧
        ∃ req', enter joi req (createServer ++ routed) = .inside .starting req' routed) ∨
      (¬ req.accepted ∧ ∃ status rest, enter joi req (createServer ++ routed) =
        .rejected status rest ∧ limiters rest = limiters routed + 1) := by
  have hrest (ms : List Middleware) (hms : .rateLimiter ∉ ms) :
      limiters (ms ++ .rateLimiter :: routed) = limiters routed + 1 := by
    rw [limiters, List.count_append, List.count_eq_zero.mpr hms, Nat.zero_add,
      List.count_cons_self]
    rfl
  obtain ⟨json, urlencoded, parts⟩ := req
  simp only [createServer, List.cons_append, List.nil_append, enter, handover, Middleware.handle]
  cases json with
  | error status =>
    have hno : ¬ Incoming.accepted ⟨.error status, urlencoded, parts⟩ := by simp [Incoming.accepted]
    exact .inr ⟨hno, status, _, rfl, hrest [.urlencoded, .requestSanitization] (by decide)⟩
  | ok first =>
    cases urlencoded with
    | error status =>
      have hno : ¬ Incoming.accepted ⟨.ok first, .error status, parts⟩ := by
        simp [Incoming.accepted]
      exact .inr ⟨hno, status, _, rfl, hrest [.requestSanitization] (by decide)⟩
    | ok body =>
      cases hs : requestSanitizationMiddleware { parts with body := body } with
      | next clean =>
        refine .inl ⟨?_, ?_⟩
        · simp [Incoming.accepted, hs]
        · simp [Except.map, hs]
      | respond status answer =>
        refine .inr ⟨?_, status, .rateLimiter :: routed, ?_, hrest [] (by decide)⟩
        · simp [Incoming.accepted, hs]
        · simp [Except.map, hs]

/-- Where a request can be, given whether it is accepted in front of the limiter: behind it nothing
stands in front of another one. -/
def Onward (req : Incoming) : Passage → Prop
  | .inside _ _ rest => req.accepted ∧ ∃ route : Route, rest <:+ route.middleware
  | .admitted | .refused _ _ _ => req.accepted
  | .rejected _ _ => ¬ req.accepted

lemma onward_enter {joi : Joi} {req req' : Incoming} {route : Route} {rest : List Middleware}
    (hreq : req.accepted) (h : rest <:+ route.middleware) : Onward req (enter joi req' rest) := by
  have hcases : rest = [] ∨ rest = [.rateLimiter] ∨
      rest = [.rateLimiter, .validateShortenRequest] ∨ rest = [.validateShortenRequest] := by
    cases route with
    | shorten =>
      simp only [Route.middleware, List.suffix_cons_iff, List.suffix_nil] at h
      tauto
    | resolve =>
      simp only [Route.middleware, List.suffix_cons_iff, List.suffix_nil] at h
      tauto
  rcases hcases with rfl | rfl | rfl | rfl
  · exact hreq
  · exact ⟨hreq, .resolve, List.nil_suffix⟩
  · exact ⟨hreq, .shorten, List.suffix_cons _ _⟩
  · exact hreq

lemma Onward.step {joi : Joi} {config : Config} {e : Event} {s s' : Store} {p p' : Passage}
    {req : Incoming} (hp : Onward req p)
    (h : (requests joi config).step e s p = some (s', p')) : Onward req p' := by
  obtain ⟨inv, req', rest, inv', rfl, -, -, heq⟩ := step_inside h
  obtain ⟨hreq, route, hrest⟩ := hp
  cases inv' with
  | passed headers =>
    obtain rfl := congrArg Prod.snd heq
    exact onward_enter hreq hrest
  | refused headers retryAfter =>
    obtain rfl := congrArg Prod.snd heq
    exact hreq
  | starting | counted count | expireSent count | extending count =>
    obtain rfl := congrArg Prod.snd heq
    exact ⟨hreq, route, hrest⟩

lemma sent_le_two (p : Passage) : sent p ≤ 2 := by
  fun_cases sent p <;> omega

lemma granted_le_sent (config : Config) (p : Passage) : granted config p ≤ sent p := by
  cases p with
  | inside inv req rest => cases inv <;> simp [granted, sent]
  | admitted | rejected => simp [granted, sent]
  | refused headers retry rest =>
    simp only [granted, sent]
    omega

/-! Whole runs. -/

lemma env_count {joi : Joi} {config : Config} {ms : ℕ} {s s' : Store}
    (h : (requests joi config).env ms s = some s') : s'.count = s.count := by
  simp only [requests] at h
  split at h
  case isTrue hd =>
    cases h
    exact Store.pass_count hd
  case isFalse => cases h

section Runs
variable [Fintype ι] {joi : Joi} {config : Config} {now : ℕ} {d : Store × (ι → Passage)}

/-- The INCR commands that were sent, and those that were granted, in every reachable
state. -/
theorem accounts {route : ι → Route} {req : ι → Incoming}
    (h : ((requests joi config).system ι).Reaches (arrivals joi now route req) d) :
    (∀ i, Underway (d.2 i)) ∧ d.1.count = ∑ i, sent (d.2 i) ∧
      min d.1.count config.RATE_LIMIT_MAX = ∑ i, granted config (d.2 i) := by
  have hstart := fun i => enter_spec joi config (req i) (limiters_stack (route i)).le
  have hzero : ∀ i, sent ((arrivals joi now route req).2 i) = 0 ∧
      granted config ((arrivals joi now route req).2 i) = 0 := by
    intro i
    obtain ⟨-, hs, hg⟩ := hstart i
    rw [limiters_stack] at hs hg
    exact ⟨hs, hg⟩
  have hsent := Threads.sum_weights Underway Store.count sent
    (fun r s l s' l' hl hs => ⟨(step_spec hl hs).1, (step_spec hl hs).2.1⟩)
    (fun e s s' he => env_count he) h (fun i => (hstart i).1)
    (Finset.sum_eq_zero fun i _ => (hzero i).1).symm
  have hgranted := Threads.sum_weights Underway
    (fun s => min s.count config.RATE_LIMIT_MAX) (granted config)
    (fun r s l s' l' hl hs => ⟨(step_spec hl hs).1, (step_spec hl hs).2.2⟩)
    (fun e s s' he => by simp only [env_count he]) h (fun i => (hstart i).1)
    ((Nat.zero_min _).trans (Finset.sum_eq_zero fun i _ => (hzero i).2).symm)
  exact ⟨hsent.1, hsent.2, hgranted.2⟩

omit [Fintype ι] in
lemma onward_of_reaches {req : ι → Incoming} {c : Store × (ι → Passage)}
    (h : ((requests joi config).system ι).Reaches c d) (hc : ∀ i, Onward (req i) (c.2 i)) :
    ∀ i, Onward (req i) (d.2 i) :=
  Threads.local_invariant (fun i => Onward (req i))
    (fun _ _ _ _ _ _ hp hs => hp.step hs) h hc

def admitted (d : Store × (ι → Passage)) : ℕ :=
  (Finset.univ.filter fun i => (d.2 i).isAdmitted).card

def refused (d : Store × (ι → Passage)) : ℕ :=
  (Finset.univ.filter fun i => (d.2 i).isRefused).card

lemma Passage.eq_admitted {p : Passage} (h : p.isAdmitted) : p = .admitted := by
  cases p with
  | admitted => rfl
  | inside | refused | rejected => cases h

omit [DecidableEq ι] in
lemma two_mul_admitted_le (config : Config) (d : Store × (ι → Passage)) :
    2 * admitted d ≤ ∑ i, granted config (d.2 i) := by
  have hmem : ∀ i ∈ Finset.univ.filter (fun i => (d.2 i).isAdmitted),
      2 ≤ granted config (d.2 i) := by
    intro i hi
    rw [Passage.eq_admitted (Finset.mem_filter.mp hi).2]
    rfl
  calc 2 * admitted d = ∑ i ∈ Finset.univ.filter (fun i => (d.2 i).isAdmitted), 2 := by
        simp [admitted, mul_comm]
    _ ≤ ∑ i ∈ Finset.univ.filter (fun i => (d.2 i).isAdmitted), granted config (d.2 i) :=
        Finset.sum_le_sum hmem
    _ ≤ ∑ i, granted config (d.2 i) :=
        Finset.sum_le_sum_of_subset (Finset.filter_subset _ _)

omit [DecidableEq ι] in
/-- Nobody is refused while there are fewer counts than the quota allows. -/
lemma none_refused (hu : ∀ i, Underway (d.2 i))
    (heq : ∑ i, granted config (d.2 i) = ∑ i, sent (d.2 i)) (i : ι) : ¬ (d.2 i).isRefused := by
  have hle : ∀ j ∈ Finset.univ, granted config (d.2 j) ≤ sent (d.2 j) :=
    fun j _ => granted_le_sent config (d.2 j)
  have hi := (Finset.sum_eq_sum_iff_of_le hle).mp heq i (Finset.mem_univ i)
  have hui := hu i
  cases hp : d.2 i with
  | inside | admitted | rejected => simp [Passage.isRefused]
  | refused headers retry rest =>
    simp only [hp, granted, sent, Underway] at hi hui
    omega

lemma onward_arrival (joi : Joi) (req : Incoming) {routed : List Middleware} {route : Route}
    (h : routed <:+ route.middleware) : Onward req (enter joi req (createServer ++ routed)) := by
  rcases enter_createServer joi req routed with ⟨hreq, req', heq⟩ | ⟨hreq, status, rest, heq, -⟩
  · rw [heq]
    exact ⟨hreq, route, h⟩
  · rw [heq]
    exact hreq

/-- An accepted request that is answered and not refused has been admitted. -/
lemma Onward.isAdmitted {req : Incoming} {p : Passage} (hp : Onward req p) (hreq : req.accepted)
    (hdone : p.Answered) (h : ¬ p.isRefused) : p.isAdmitted := by
  cases p with
  | inside => exact hdone.elim
  | admitted => rfl
  | refused => exact absurd rfl h
  | rejected => exact absurd hreq hp

variable (joi config) in
/-- Once every request of one key lifetime is answered, the quota has been met exactly when none
was answered in front of the limiter and twice the number of requests is within it: each request
is counted twice. -/
theorem quota_met_iff {route : ι → Route} {req : ι → Incoming}
    (hmax : 1 ≤ config.RATE_LIMIT_MAX)
    (h : ((requests joi config).system ι).Reaches (arrivals joi now route req) d)
    (hdone : ∀ i, (d.2 i).Answered) :
    (admitted d = min (Fintype.card ι) config.RATE_LIMIT_MAX ∧
      refused d = Fintype.card ι - min (Fintype.card ι) config.RATE_LIMIT_MAX) ↔
      (∀ i, (req i).accepted) ∧ 2 * Fintype.card ι ≤ config.RATE_LIMIT_MAX := by
  obtain ⟨hu, hsent, hgranted⟩ := accounts h
  have honward : ∀ i, Onward (req i) (d.2 i) :=
    onward_of_reaches h fun i => onward_arrival joi (req i) List.suffix_rfl
  constructor
  · rintro ⟨hadm, -⟩
    have htwice := two_mul_admitted_le config d
    have hn : 2 * Fintype.card ι ≤ config.RATE_LIMIT_MAX := by omega
    have hall : Finset.univ.filter (fun i => (d.2 i).isAdmitted) = Finset.univ := by
      refine (Finset.card_eq_iff_eq_univ _).mp ?_
      rw [← admitted]
      omega
    refine ⟨fun i => ?_, hn⟩
    have hmem : i ∈ Finset.univ.filter (fun i => (d.2 i).isAdmitted) := by
      rw [hall]
      exact Finset.mem_univ i
    have hi := Passage.eq_admitted (Finset.mem_filter.mp hmem).2
    have hreq := honward i
    rwa [hi] at hreq
  · rintro ⟨hreq, hn⟩
    have hcount : d.1.count ≤ 2 * Fintype.card ι := by
      rw [hsent, mul_comm, ← smul_eq_mul, ← Finset.card_univ]
      exact Finset.sum_le_card_nsmul _ _ _ fun i _ => sent_le_two (d.2 i)
    have heq : ∑ i, granted config (d.2 i) = ∑ i, sent (d.2 i) := by omega
    have hnone := none_refused hu heq
    have hadm : admitted d = Fintype.card ι := by
      have hall := fun i => (honward i).isAdmitted (hreq i) (hdone i) (hnone i)
      simp [admitted, hall, Finset.card_univ]
    have href : refused d = 0 := by
      simp [refused, hnone]
    omega

end Runs

/-- A request with nothing to parse and nothing to sanitise. -/
def plainRequest : Incoming := ⟨.ok none, .ok none, ⟨none, none, none⟩⟩

lemma plainRequest_accepted : plainRequest.accepted := rfl

/-- Six commands for each request, all of them served at second 0. -/
def served {ι : Type} (i : ι) : List (ι × Event ⊕ ℕ) := List.replicate 6 (.inl (i, ⟨.ok, 0, 0⟩))

/-- A submission and a redirect within a quota of four. -/
theorem quota_met_iff_two : ∃ d : Store × (Bool → Passage),
    ((requests plainJoi ⟨4, 60⟩).system Bool).run (served true ++ served false)
      (arrivals plainJoi 0 (fun i => if i then .shorten else .resolve) fun _ => plainRequest) =
        some d ∧ admitted d = 2 ∧ refused d = 0 ∧
      ((admitted d = min (Fintype.card Bool) 4 ∧
        refused d = Fintype.card Bool - min (Fintype.card Bool) 4) ↔
        (∀ _ : Bool, plainRequest.accepted) ∧ 2 * Fintype.card Bool ≤ 4) := by
  have hrun : (((requests plainJoi ⟨4, 60⟩).system Bool).run (served true ++ served false)
      (arrivals plainJoi 0 (fun i => if i then .shorten else .resolve) fun _ => plainRequest)).map
      (fun d => ((d.2 true).isAdmitted, (d.2 false).isAdmitted)) = some (true, true) := by
    decide
  obtain ⟨d, hd, hboth⟩ := Option.map_eq_some_iff.mp hrun
  obtain ⟨htrue, hfalse⟩ := Prod.mk.inj hboth
  have hdone : ∀ i, (d.2 i).Answered := by
    intro i
    cases i with
    | false => exact (Passage.eq_admitted hfalse) ▸ trivial
    | true => exact (Passage.eq_admitted htrue) ▸ trivial
  have hiff := quota_met_iff plainJoi ⟨4, 60⟩ (by decide) ⟨_, hd⟩ hdone
  have hmet := hiff.mpr ⟨fun _ => plainRequest_accepted, by decide⟩
  exact ⟨d, hd, hmet.1, hmet.2, hiff⟩

/-- With a quota of one request the first request is refused by the second limiter. -/
theorem first_request_refused : ∃ d : Store × (Unit → Passage),
    ((requests plainJoi ⟨1, 60⟩).system Unit).run (served ())
      (arrivals plainJoi 0 (fun _ => .shorten) fun _ => plainRequest) = some d ∧
      plainRequest.accepted ∧ (∀ i, (d.2 i).Answered) ∧ (d.2 ()).isRefused ∧
      admitted d ≠ min (Fintype.card Unit) 1 := by
  have hrun : (((requests plainJoi ⟨1, 60⟩).system Unit).run (served ())
      (arrivals plainJoi 0 (fun _ => .shorten) fun _ => plainRequest)).map
      (fun d => ((d.2 ()).isRefused, admitted d)) = some (true, 0) := by
    decide
  obtain ⟨d, hd, hone⟩ := Option.map_eq_some_iff.mp hrun
  obtain ⟨hrefused, ha⟩ := Prod.mk.inj hone
  have hdone : ∀ i, (d.2 i).Answered := by
    intro i
    have hi : (d.2 i).isRefused := hrefused
    cases hp : d.2 i with
    | inside inv req rest => simp [hp, Passage.isRefused] at hi
    | admitted | refused | rejected => trivial
  exact ⟨d, hd, plainRequest_accepted, hdone, hrefused, by rw [ha]; decide⟩

end UrlShortener.Quota
