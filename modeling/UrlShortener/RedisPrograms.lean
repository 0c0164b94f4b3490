import UrlShortener.RedisClient

/-! The programs as clients of the one server: which request each of them awaits, and that it
knows and changes what the server holds by the answers to its requests alone. -/
namespace UrlShortener.RedisClient
open Js RedisServer UrlService FlushWorker Analytics
open RateLimiter (Invocation limiterStep)

/-! What each program awaits. -/

def awaitedByLimiter (ip : JsString) : Invocation → Option Request
  | .starting => some (.incr ip)
  | .counted _ => some (.expireNx ip)
  | .expireSent (some _) => some (.ttl ip)
  | .extending _ => some (.expire ip)
  | .expireSent none | .passed _ | .refused _ _ => none

def awaitedByTrack : TrackPc → Option Request
  | .checking _ => some .llen
  | .counting c => some (.hincrby c.url_id)
  | .fingerprinting c day => some (.sadd c.url_id day c.fingerprint)
  | .pushing c => some (.rpush (eventPayload c))
  | .finished => none

def awaitedByFlush : FlushPc → Option Request
  | .popping (_ + 1) _ => some .lpop
  | .requeueing raw _ => some (.rpush raw)
  | _ => none

def awaitedByResolve (a : JsString) : ResolvePc → Option Request
  | .getting => some (.get a)
  | .populating row => some (.set a (rowText row))
  | _ => none

def awaitedByShorten : ShortenPc → Option Request
  | .warming row now => some (.set row.alias (warmText row now))
  | _ => none

/-! How each goes on with an answer. -/

def limiterOn (config : RateLimiter.Config) (e : RateLimiter.Event) (answer : Answer JsString) :
    Invocation → Invocation
  | .starting =>
    match answer with
    | .int n => .counted (some n.toNat)
    | _ => .counted none
  | .counted count => .expireSent count
  | .expireSent (some count) =>
    match answer with
    | .int ttl =>
      if ttl = -1 then .extending count else RateLimiter.verdict config count (some ttl) e
    | _ => RateLimiter.verdict config count none e
  | .extending count => RateLimiter.verdict config count (some (-1)) e
  | inv => inv

def trackOn (reply : TrackReply) (answer : Answer JsString) : TrackPc → TrackPc
  | .checking c =>
    match answer with
    | .int bufferSize => if (MAX_BUFFER_SIZE : ℤ) ≤ bufferSize then .finished else .counting c
    | _ => .finished
  | .counting c => .fingerprinting c ((toISOString reply.now).take 10)
  | .fingerprinting c _ => .pushing c
  | .pushing _ | .finished => .finished

def flushOn (answer : Answer JsString) : FlushPc → FlushPc
  | .popping (n + 1) events =>
    match answer with
    | .text raw => .popping n (events ++ [raw])
    | _ => .popping n events
  | .requeueing _ rest => enterRequeue rest
  | pc => pc

def resolveOn (host : Host) (answer : Answer JsString) : ResolvePc → ResolvePc
  | .getting =>
    match answer with
    | .text cachedData => (readCache host (some cachedData)).elim .selecting (.returned ∘ some)
    | _ => .selecting
  | .populating row => .returned (some (recordOfRow row))
  | pc => pc

section Programs
variable {config : RateLimiter.Config} {p : Parts} {r : Request}

/-- A command that is served does to the counter what its request does, and the invocation goes on
with the answer. -/
theorem limiterStep_served {ip : JsString} {inv : Invocation} {e : RateLimiter.Event}
    (hr : awaitedByLimiter ip inv = some r) (he : e.served = .ok) :
    limiterStep config e (p.limits ip) inv =
      some ((r.served config p).2.limits ip, limiterOn config e (r.served config p).1 inv) := by
  have hself : ∀ s : RateLimiter.Store, (p.limit ip s).limits ip = s := fun s =>
    Function.update_self _ _ _
  cases inv with
  | starting =>
    obtain rfl := Option.some.inj hr
    simp [limiterStep, he, Request.served, limiterOn, hself]
  | counted count =>
    obtain rfl := Option.some.inj hr
    simp [limiterStep, he, Request.served, limiterOn, hself]
  | expireSent count =>
    cases count with
    | none => cases hr
    | some count =>
      obtain rfl := Option.some.inj hr
      by_cases httl : (p.limits ip).ttl = -1
      · simp [limiterStep, he, Request.served, limiterOn, httl]
      · simp [limiterStep, he, Request.served, limiterOn, httl]
  | extending count =>
    obtain rfl := Option.some.inj hr
    simp [limiterStep, he, Request.served, limiterOn, hself]
  | passed | refused => cases hr

theorem trackStep_served {pc : TrackPc} {now : ℤ} (hr : awaitedByTrack pc = some r) :
    trackStep ⟨.served, now⟩ p.store pc =
      some ((r.served config p).2.store, trackOn ⟨.served, now⟩ (r.served config p).1 pc) := by
  cases pc with
  | checking c =>
    obtain rfl := Option.some.inj hr
    simp [trackStep, issue, Request.served, trackOn]
  | counting c | fingerprinting c day | pushing c =>
    obtain rfl := Option.some.inj hr
    rfl
  | finished => cases hr

theorem flushStep_served {pc : FlushPc} (hr : awaitedByFlush pc = some r) :
    flushStep .done p.store.toStores pc =
      some ((r.served config p).2.store.toStores, flushOn (r.served config p).1 pc) := by
  cases pc with
  | popping n events =>
    cases n with
    | zero => cases hr
    | succ n =>
      obtain rfl := Option.some.inj hr
      obtain ⟨db, ⟨⟨buffer, clicks⟩, totals, visitors⟩, limits⟩ := p
      cases buffer <;> rfl
  | requeueing raw rest =>
    obtain rfl := Option.some.inj hr
    rfl
  | idle | connecting | beginning | inserting | committing | rollingBack => cases hr

theorem resolveStep_served {host : Host} {a : JsString} {pc : ResolvePc}
    (hr : awaitedByResolve a pc = some r) :
    resolveStep host a .done p.db pc =
      some ((r.served config p).2.db, resolveOn host (r.served config p).1 pc) := by
  cases pc with
  | getting =>
    obtain rfl := Option.some.inj hr
    cases hcache : p.db.cache (urlKey a) with
    | none => simp [resolveStep, Request.served, resolveOn, hcache, readCache]
    | some text =>
      cases hread : readCache host (some text) <;>
        simp [resolveStep, Request.served, resolveOn, hcache, hread]
  | populating row =>
    obtain rfl := Option.some.inj hr
    rfl
  | selecting | returned | rejected => cases hr

theorem shortenStep_served {u : JsString} {o : Option JsString} {pc : ShortenPc}
    (hr : awaitedByShorten pc = some r) : ∃ a,
    shortenStep u o .done p.db pc = some ((r.served config p).2.db, .returned a) := by
  cases pc with
  | warming row now =>
    obtain rfl := Option.some.inj hr
    exact ⟨row.alias, rfl⟩
  | connecting | beginning | fetchingId | inserting | committing | rollingBack | returned
  | rejected => cases hr

end Programs

end UrlShortener.RedisClient
