import UrlShortener.TransitionRun

/-! `rateLimiter`, one Redis command at a time, over the counter of one client. -/
namespace UrlShortener.RateLimiter
open Transition

/-- The value under a `ratelimit:` key and the instant, in milliseconds, at which Redis
drops it. -/
structure Counter where
  count : ℕ
  expireAt : Option ℕ
  deriving DecidableEq

/-- One key of the server, the server's clock, and how often the key has been dropped. -/
structure Store where
  now : ℕ
  counter : Option Counter
  dropped : ℕ
  deriving DecidableEq

structure Config where
  RATE_LIMIT_MAX : ℕ
  RATE_LIMIT_WINDOW_SECONDS : ℕ

def Store.count (s : Store) : ℕ := s.counter.elim 0 Counter.count

def Store.expireAt (s : Store) : Option ℕ := s.counter.bind Counter.expireAt

def Store.drop (s : Store) : Store := { s with counter := none, dropped := s.dropped + 1 }

/-- `INCR key` -/
def Store.incr (s : Store) : Store :=
  { s with counter := some ⟨s.count + 1, s.expireAt⟩ }

/-- `EXPIRE key seconds [NX]`; a key that would expire at once is deleted. -/
def Store.expire (s : Store) (seconds : ℕ) (nx : Bool) : Store :=
  match s.counter with
  | none => s
  | some c =>
    if nx && c.expireAt.isSome then s
    else if seconds = 0 then s.drop
    else { s with counter := some { c with expireAt := some (s.now + 1000 * seconds) } }

/-- `TTL key`, rounded to seconds. -/
def Store.ttl (s : Store) : ℤ :=
  match s.counter with
  | none => -2
  | some ⟨_, none⟩ => -1
  | some ⟨_, some t⟩ => ((t - s.now + 500) / 1000 : ℕ)

/-- The clock moves on, and a key whose time has come is dropped. -/
def Store.pass (s : Store) (ms : ℕ) : Store :=
  let later := { s with now := s.now + ms }
  if s.expireAt.any (· ≤ s.now + ms) then later.drop else later

/-- The rate limit headers of a response. -/
structure Headers where
  limit : ℤ
  remaining : ℤ
  reset : ℤ
  deriving DecidableEq

/-- How far one invocation has come: the count that INCR returned, `none` where it
returned an error, and in the end a call of `next()`, without headers where it fails
open, or an answer 429 with its `retry_after`. -/
inductive Invocation
  | starting
  | counted (count : Option ℕ)
  | expireSent (count : Option ℕ)
  | extending (count : ℕ)
  | passed (headers : Option Headers)
  | refused (headers : Headers) (retryAfter : ℤ)
  deriving DecidableEq

/-- What becomes of a command: it is served, it returns an error, or its reply is lost. -/
inductive Served
  | ok
  | error
  | lost (applied : Bool)
  deriving DecidableEq

/-- A command with the two readings, in seconds, of the clock after it. -/
structure Event where
  served : Served
  clock : ℤ
  later : ℤ
  deriving DecidableEq

/-- The check against the quota once the replies are in; an error leaves no `ttl`. -/
def verdict (config : Config) (currentCount : ℕ) (ttl : Option ℤ) (e : Event) : Invocation :=
  let remaining := max 0 ((config.RATE_LIMIT_MAX : ℤ) - currentCount)
  let window : ℤ := config.RATE_LIMIT_WINDOW_SECONDS
  let resetTime := e.clock + ttl.elim window fun t => if t > 0 then t else window
  let headers : Headers := ⟨config.RATE_LIMIT_MAX, remaining, resetTime⟩
  if currentCount > config.RATE_LIMIT_MAX then .refused headers (resetTime - e.later)
  else .passed (some headers)

/-- One command of `rateLimiter`. The three commands of the pipeline are sent together
but served one by one; the second EXPIRE is awaited only where no expiry was set. -/
def limiterStep (config : Config) (e : Event) (s : Store) : Invocation → Option (Store × Invocation)
  | .starting =>
    match e.served with
    | .ok => some (s.incr, .counted (some s.incr.count))
    | .error => some (s, .counted none)
    | .lost applied => some (if applied then s.incr else s, .passed none)
  | .counted count =>
    match e.served with
    | .ok => some (s.expire config.RATE_LIMIT_WINDOW_SECONDS true, .expireSent count)
    | .error => some (s, .expireSent count)
    | .lost applied =>
      some (if applied then s.expire config.RATE_LIMIT_WINDOW_SECONDS true else s, .passed none)
  | .expireSent none => some (s, .passed none)
  | .expireSent (some count) =>
    match e.served with
    | .ok =>
      if s.ttl = -1 then some (s, .extending count)
      else some (s, verdict config count (some s.ttl) e)
    | .error => some (s, verdict config count none e)
    | .lost _ => some (s, .passed none)
  | .extending count =>
    match e.served with
    | .ok =>
      some (s.expire config.RATE_LIMIT_WINDOW_SECONDS false, verdict config count (some (-1)) e)
    | .error => some (s, .passed none)
    | .lost applied =>
      some (if applied then s.expire config.RATE_LIMIT_WINDOW_SECONDS false else s, .passed none)
  | .passed _ => none
  | .refused _ _ => none

/-- No command fails, except that a server without `NX` refuses the first EXPIRE. -/
def Event.Healthy (e : Event) (inv : Invocation) : Prop :=
  e.served = .ok ∨ (e.served = .error ∧ ∃ count, inv = .counted count)

instance (e : Event) (inv : Invocation) : Decidable (e.Healthy inv) :=
  decidable_of_iff (e.served = .ok ∨ (e.served = .error ∧ inv matches .counted _)) <| by
    cases inv <;> simp [Event.Healthy]

/-! Commands and the count. -/

@[simp] lemma Store.incr_count (s : Store) : s.incr.count = s.count + 1 := rfl

lemma Store.expire_count {s : Store} {seconds : ℕ} {nx : Bool}
    (h : (s.expire seconds nx).dropped = s.dropped) : (s.expire seconds nx).count = s.count := by
  revert h
  fun_cases Store.expire s seconds nx with
  | case1 => simp
  | case2 => simp
  | case3 => simp [Store.drop]
  | case4 c hc => simp [Store.count, hc]

lemma Store.pass_count {s : Store} {ms : ℕ} (h : (s.pass ms).dropped = s.dropped) :
    (s.pass ms).count = s.count := by
  by_cases hlate : s.expireAt.any (· ≤ s.now + ms)
  · simp [Store.pass, hlate, Store.drop] at h
  · simp [Store.pass, hlate, Store.count]

/-! What a healthy command does. -/

inductive Move (config : Config) (s : Store) : Invocation → Store → Invocation → Prop
  | incr : Move config s .starting s.incr (.counted (some (s.count + 1)))
  | expire {count : Option ℕ} {s' : Store}
    (h : s' = s ∨ s' = s.expire config.RATE_LIMIT_WINDOW_SECONDS true) :
    Move config s (.counted count) s' (.expireSent count)
  | abandon : Move config s (.expireSent none) s (.passed none)
  | extend {count : ℕ} (h : s.ttl = -1) :
    Move config s (.expireSent (some count)) s (.extending count)
  | judge {count : ℕ} {e : Event} (h : s.ttl ≠ -1) :
    Move config s (.expireSent (some count)) s (verdict config count (some s.ttl) e)
  | judgeExtended {count : ℕ} {e : Event} :
    Move config s (.extending count) (s.expire config.RATE_LIMIT_WINDOW_SECONDS false)
      (verdict config count (some (-1)) e)

theorem move_of_step {config : Config} {e : Event} {s s' : Store} {inv inv' : Invocation}
    (he : e.Healthy inv) (h : limiterStep config e s inv = some (s', inv')) :
    Move config s inv s' inv' := by
  rcases he with he | ⟨he, count, rfl⟩
  · cases inv with
    | starting =>
      simp only [limiterStep, he] at h
      cases h
      exact .incr
    | counted count =>
      simp only [limiterStep, he] at h
      cases h
      exact .expire (.inr rfl)
    | expireSent count =>
      cases count with
      | none =>
        cases h
        exact .abandon
      | some count =>
        simp only [limiterStep, he] at h
        split at h
        case isTrue ht =>
          cases h
          exact .extend ht
        case isFalse ht =>
          cases h
          exact .judge ht
    | extending count =>
      simp only [limiterStep, he] at h
      cases h
      exact .judgeExtended
    | passed | refused => cases h
  · simp only [limiterStep, he] at h
    cases h
    exact .expire (.inl rfl)

lemma Move.count {config : Config} {s s' : Store} {inv inv' : Invocation}
    (h : Move config s inv s' inv') (hd : s'.dropped = s.dropped) :
    s'.count = s.count + if inv = .starting then 1 else 0 := by
  cases h with
  | incr => rfl
  | expire hs =>
    rcases hs with rfl | rfl
    · simp
    · simpa using Store.expire_count hd
  | abandon | extend | judge => simp
  | judgeExtended => simpa using Store.expire_count hd

lemma verdict_eq (config : Config) (count : ℕ) (ttl : Option ℤ) (e : Event) :
    (count ≤ config.RATE_LIMIT_MAX ∧ ∃ headers, verdict config count ttl e = .passed headers) ∨
      (config.RATE_LIMIT_MAX < count ∧
        ∃ headers retryAfter, verdict config count ttl e = .refused headers retryAfter) := by
  by_cases h : count > config.RATE_LIMIT_MAX
  · exact .inr ⟨h, _, _, if_pos h⟩
  · exact .inl ⟨not_lt.mp h, _, if_neg h⟩

end UrlShortener.RateLimiter
