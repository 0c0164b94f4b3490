import UrlShortener.RedisServer
import UrlShortener.StorableClicks
import UrlShortener.RateWindow

/-! `RedisClient`: the commands of the whole program on its one server, and that they get the
answers of a separate cache, separate metrics and a separate counter for each address. -/
namespace UrlShortener.RedisClient
open Js Transition RedisServer UrlService FlushWorker Analytics
open Routes (bigIntText)

/-- A decimal integer as the server reads one, without leading zeros. -/
def readInteger (s : JsString) : Option ℤ :=
  let n : Option ℤ :=
    if s.head? = some (unit '-') then (readNumeral 10 s.tail).map fun m : ℕ => -(m : ℤ)
    else (readNumeral 10 s).map Int.ofNat
  n.filter fun n => bigIntText n = s ∧ Fits n

lemma readInteger_bigIntText {n : ℤ} (h : Fits n) : readInteger (bigIntText n) = some n := by
  have hread : ∀ s, s = bigIntText n → (if s.head? = some (unit '-') then
      (readNumeral 10 s.tail).map fun m : ℕ => -(m : ℤ) else (readNumeral 10 s).map Int.ofNat) =
      some n := by
    rintro s rfl
    rw [bigIntText]
    split_ifs with hneg hhead hhead
    · rw [List.tail_cons, readNumeral_decimal, Option.map_some, Option.some_inj]
      omega
    · exact absurd rfl hhead
    · have hdigits : IsNumeral (decimal n.natAbs) := decimal_digits _
      exact absurd hhead (hdigits.head_ne (by decide))
    · rw [readNumeral_decimal, Option.map_some, Option.some_inj]
      exact Int.natAbs_of_nonneg (by omega)
  rw [readInteger, hread _ rfl]
  simp [h]

instance : IntegerText JsString := ⟨bigIntText, readInteger, fun _ => readInteger_bigIntText⟩

/-! The wrappers of the client, and the requests that the program makes with them. -/

/-- `set(key, value, ttlSeconds)` -/
def set (value : JsString) (ttlSeconds : Option ℕ) : Command JsString :=
  match ttlSeconds with
  | some (n + 1) => .set value (some (n + 1))
  | _ => .set value none

/-- `expire(key, seconds)` -/
def expire (seconds : ℕ) : Command JsString := .expire seconds false

def CACHE_TTL : ℕ := 86400

def BUFFER_KEY : JsString := js "analytics:buffer"

def limitKey (ip : JsString) : JsString := js "ratelimit:" ++ ip

inductive Kind
  | url
  | limit
  | clicks
  | visitors
  | buffer
  deriving DecidableEq

/-- How the keys of a kind begin. -/
def Kind.text : Kind → JsString
  | .url => js "url:"
  | .limit => js "ratelimit:"
  | .clicks => js "metrics:clicks:"
  | .visitors => js "metrics:visitors:"
  | .buffer => BUFFER_KEY

/-- What the program keeps under a key. -/
inductive Slot
  | url (a : JsString)
  | limit (ip : JsString)
  | clicks (urlId : JsString)
  | visitors (rest : JsString)
  | buffer

def Slot.kind : Slot → Kind
  | .url _ => .url
  | .limit _ => .limit
  | .clicks _ => .clicks
  | .visitors _ => .visitors
  | .buffer => .buffer

def Slot.key : Slot → JsString
  | .url a => urlKey a
  | .limit ip => limitKey ip
  | .clicks urlId => clicksKey urlId
  | .visitors rest => js "metrics:visitors:" ++ rest
  | .buffer => BUFFER_KEY

/-- A command that the program sends. -/
inductive Request
  | get (a : JsString)
  | set (a value : JsString)
  | llen
  | hincrby (urlId : JsString)
  | sadd (urlId day member : JsString)
  | rpush (value : JsString)
  | lpop
  | incr (ip : JsString)
  | expireNx (ip : JsString)
  | ttl (ip : JsString)
  | expire (ip : JsString)

def Request.slot : Request → Slot
  | .get a | .set a _ => .url a
  | .llen | .rpush _ | .lpop => .buffer
  | .hincrby urlId => .clicks urlId
  | .sadd urlId day _ => .visitors (urlId ++ unit ':' :: day)
  | .incr ip | .expireNx ip | .ttl ip | .expire ip => .limit ip

def Request.command (config : RateLimiter.Config) : Request → Command JsString
  | .get _ => .get
  | .set _ value => RedisClient.set value (some CACHE_TTL)
  | .llen => .llen
  | .hincrby _ => .hincrby (js "total") 1
  | .sadd _ _ member => .sadd member
  | .rpush value => .rpush value
  | .lpop => .lpop
  | .incr _ => .incr
  | .expireNx _ => .expire config.RATE_LIMIT_WINDOW_SECONDS true
  | .ttl _ => .ttl
  | .expire _ => RedisClient.expire config.RATE_LIMIT_WINDOW_SECONDS

/-! The separate stores. -/

/-- The cache of `UrlService`, the stores of `AnalyticsService` and the counters of `rateLimiter`
by address. -/
structure Parts where
  db : Db
  store : Metrics
  limits : JsString → RateLimiter.Store

def Parts.limit (p : Parts) (ip : JsString) (s : RateLimiter.Store) : Parts :=
  { p with limits := Function.update p.limits ip s }

/-- Does EXPIRE touch the key? -/
def expires (s : RateLimiter.Store) (nx : Bool) : Bool :=
  s.counter.any fun c => !(nx && c.expireAt.isSome)

/-- How many members SADD adds. -/
def added {α : Type*} [DecidableEq α] (member : α) (set : List α) : ℤ :=
  if member ∈ set then 0 else 1

/-- What a request answers and does on the separate stores. -/
def Request.served (config : RateLimiter.Config) (p : Parts) : Request → Answer JsString × Parts
  | .get a => ((p.db.cache (urlKey a)).elim .nil .text, p)
  | .set a value => (.ok, { p with db := p.db.set (urlKey a) value })
  | .llen => (.int p.store.buffer.length, p)
  | .hincrby urlId =>
    (.int (p.store.totals (clicksKey urlId) + 1),
      { p with store := p.store.hincrby (clicksKey urlId) })
  | .sadd urlId day member =>
    (.int (added member (p.store.visitors (visitorsKey urlId day))),
      { p with store := p.store.sadd (visitorsKey urlId day) member })
  | .rpush value =>
    (.int (p.store.buffer.length + 1), { p with store := p.store.rpush value })
  | .lpop =>
    (p.store.buffer.head?.elim .nil .text,
      { p with store := { p.store with buffer := p.store.buffer.tail } })
  | .incr ip => (.int (p.limits ip).incr.count, p.limit ip (p.limits ip).incr)
  | .expireNx ip =>
    (.int (if expires (p.limits ip) true then 1 else 0),
      p.limit ip ((p.limits ip).expire config.RATE_LIMIT_WINDOW_SECONDS true))
  | .ttl ip => (.int (p.limits ip).ttl, p)
  | .expire ip =>
    (.int (if expires (p.limits ip) false then 1 else 0),
      p.limit ip ((p.limits ip).expire config.RATE_LIMIT_WINDOW_SECONDS false))

/-! The entries of the server stand for the separate stores. A hash, a set or a list without
elements has no entry. -/

def totalEntry (total : ℕ) : Option (Entry JsString) :=
  if total = 0 then none
  else some ⟨.hash (Function.update (fun _ => none) (js "total") (some (bigIntText total))), none⟩

def membersEntry (set : List JsString) : Option (Entry JsString) :=
  if set = [] then none else some ⟨.members set, none⟩

def itemsEntry (list : List JsString) : Option (Entry JsString) :=
  if list = [] then none else some ⟨.items list, none⟩

def counterEntry (counter : Option RateLimiter.Counter) : Option (Entry JsString) :=
  counter.map fun c => ⟨.text (bigIntText c.count), c.expireAt⟩

def represents (now : ℕ) : Slot → Option (Entry JsString) → Parts → Prop
  | .url a, entry, p => entry.map Entry.value = (p.db.cache (urlKey a)).map .text
  | .limit ip, entry, p =>
    (p.limits ip).now = now ∧ entry = counterEntry (p.limits ip).counter
  | .clicks urlId, entry, p => entry = totalEntry (p.store.totals (clicksKey urlId))
  | .visitors rest, entry, p =>
    entry = membersEntry (p.store.visitors (Slot.visitors rest).key)
  | .buffer, entry, p => entry = itemsEntry p.store.buffer

lemma Kind.apart {k k' : Kind} (h : k ≠ k') : ∃ n ∈ [1, 9], n ≤ k.text.length ∧
    n ≤ k'.text.length ∧ k.text.take n ≠ k'.text.take n := by
  revert h
  cases k <;> cases k' <;> decide

lemma Slot.key_eq (i : Slot) : ∃ rest, i.key = i.kind.text ++ rest := by
  cases i with
  | url a => exact ⟨a, rfl⟩
  | limit ip => exact ⟨ip, rfl⟩
  | clicks urlId => exact ⟨urlId, rfl⟩
  | visitors rest => exact ⟨rest, rfl⟩
  | buffer => exact ⟨[], (List.append_nil _).symm⟩

/-- How a key begins tells its kind. -/
lemma Slot.kind_eq {i j : Slot} (h : i.key = j.key) : i.kind = j.kind := by
  by_contra hne
  obtain ⟨n, -, hi, hj, htake⟩ := Kind.apart hne
  obtain ⟨r, hr⟩ := i.key_eq
  obtain ⟨r', hr'⟩ := j.key_eq
  apply htake
  have h := congrArg (List.take n) (hr.symm.trans (h.trans hr'))
  rwa [List.take_append_of_le_length hi, List.take_append_of_le_length hj] at h

/-- No two things are kept under one key. -/
lemma Slot.key_injective : Function.Injective Slot.key := by
  intro i j h
  have hkind := Slot.kind_eq h
  cases i <;> cases j
  case url.url a b => rw [urlKey_injective h]
  case limit.limit ip ip' => rw [List.append_right_injective (js "ratelimit:") h]
  case clicks.clicks id id' => rw [List.append_right_injective (js "metrics:clicks:") h]
  case visitors.visitors r r' => rw [List.append_right_injective (js "metrics:visitors:") h]
  case buffer.buffer => rfl
  all_goals cases hkind

def representation : Representation JsString JsString Slot Parts :=
  ⟨Slot.key, Slot.key_injective, represents⟩

/-- No count is above `n`. -/
structure Parts.Below (n : ℕ) (p : Parts) : Prop where
  totals : ∀ key, p.store.totals key ≤ n
  limits : ∀ ip, (p.limits ip).count ≤ n

section Serve
variable {config : RateLimiter.Config} {now n : ℕ} {p : Parts} {entry : Option (Entry JsString)}

/-- The entry of its slot answers a request as the separate stores do, and goes on to represent
them. -/
def Faithful (config : RateLimiter.Config) (now : ℕ) (p : Parts)
    (entry : Option (Entry JsString)) (r : Request) : Prop :=
  (serveAt now (r.command config) entry).1 = (r.served config p).1 ∧
    represents now r.slot (serveAt now (r.command config) entry).2 (r.served config p).2

lemma faithful_get {a : JsString} (h : represents now (.url a) entry p) :
    Faithful config now p entry (.get a) := by
  have hanswer : (Request.served config p (.get a)).1 =
      (p.db.cache (urlKey a)).elim .nil .text := rfl
  unfold Faithful
  rw [hanswer]
  cases entry with
  | none =>
    have hcache : p.db.cache (urlKey a) = none := Option.map_eq_none_iff.mp h.symm
    rw [hcache]
    exact ⟨rfl, h⟩
  | some e =>
    obtain ⟨s, hcache, hs⟩ := Option.map_eq_some_iff.mp (show _ = some e.value from h.symm)
    obtain ⟨value, t⟩ := e
    obtain rfl : Value.text s = value := hs
    rw [hcache]
    exact ⟨rfl, h⟩

lemma faithful_set {a value : JsString} : Faithful config now p entry (.set a value) := by
  refine ⟨by cases entry <;> rfl, ?_⟩
  have hentry : (serveAt now (Request.command config (.set a value)) entry).2 =
      some ⟨.text value, some (now + 1000 * CACHE_TTL)⟩ := by
    cases entry <;> rfl
  rw [hentry]
  change some (Value.text value) = Option.map .text (Function.update p.db.cache (urlKey a)
    (some value) (urlKey a))
  rw [Function.update_self]
  rfl

lemma faithful_buffer {r : Request} (hr : r = .llen ∨ (∃ value, r = .rpush value) ∨ r = .lpop)
    (h : represents now .buffer entry p) : Faithful config now p entry r := by
  obtain ⟨db, ⟨⟨buffer, clicks⟩, totals, visitors⟩, limits⟩ := p
  obtain rfl : entry = itemsEntry buffer := h
  rcases hr with rfl | ⟨value, rfl⟩ | rfl
  · cases buffer <;> exact ⟨rfl, rfl⟩
  · cases buffer <;> exact ⟨rfl, rfl⟩
  · cases buffer with
    | nil => exact ⟨rfl, rfl⟩
    | cons raw rest => cases rest <;> exact ⟨rfl, rfl⟩

lemma fits_natCast {n : ℕ} (h : n < 2 ^ 63) : Fits (n : ℤ) := by
  unfold Fits
  omega

lemma increase_natCast {n : ℕ} (h : n + 1 < 2 ^ 63) :
    increase (some (bigIntText n)) 1 = .ok ((n + 1 : ℕ) : ℤ) :=
  increase_print (fits_natCast (by omega)) (fits_natCast h)

lemma serveAt_hincrby {n : ℕ} (h : n + 1 < 2 ^ 63) :
    serveAt now (.hincrby (js "total") 1) (totalEntry n) =
      (.int ((n + 1 : ℕ) : ℤ), totalEntry (n + 1)) := by
  rcases Nat.eq_zero_or_pos n with rfl | hpos
  · rfl
  · rw [totalEntry, if_neg hpos.ne', totalEntry, if_neg (Nat.succ_ne_zero n)]
    simp only [serveAt, Function.update_self, increase_natCast h, Function.update_idem]
    rfl

lemma faithful_hincrby {urlId : JsString} (h : represents now (.clicks urlId) entry p)
    (hp : p.store.totals (clicksKey urlId) + 1 < 2 ^ 63) :
    Faithful config now p entry (.hincrby urlId) := by
  obtain rfl : entry = totalEntry (p.store.totals (clicksKey urlId)) := h
  have hserve : serveAt now (.hincrby (js "total") 1) _ = _ := serveAt_hincrby hp
  have hafter : (Request.served config p (.hincrby urlId)).2.store.totals (clicksKey urlId) =
      p.store.totals (clicksKey urlId) + 1 := Function.update_self _ _ _
  refine ⟨congrArg Prod.fst hserve, (congrArg Prod.snd hserve).trans ?_⟩
  exact congrArg totalEntry hafter.symm

lemma insert_list_of_mem {α : Type*} [DecidableEq α] {a : α} {l : List α} (h : a ∈ l) :
    insert a l = l := List.insert_of_mem h

lemma insert_list_of_not_mem {α : Type*} [DecidableEq α] {a : α} {l : List α} (h : a ∉ l) :
    insert a l = a :: l := List.insert_of_not_mem h

lemma serveAt_sadd (member : JsString) (set : List JsString) :
    serveAt now (.sadd member) (membersEntry set) =
      (.int (added member set), membersEntry (insert member set)) := by
  by_cases hmem : member ∈ set
  · have hne : set ≠ [] := List.ne_nil_of_mem hmem
    rw [added, if_pos hmem, insert_list_of_mem hmem, membersEntry, if_neg hne]
    exact if_pos hmem
  · rw [added, if_neg hmem, insert_list_of_not_mem hmem]
    cases set with
    | nil => rfl
    | cons other set => exact if_neg hmem

lemma faithful_sadd {urlId day member : JsString}
    (h : represents now (.visitors (urlId ++ unit ':' :: day)) entry p) :
    Faithful config now p entry (.sadd urlId day member) := by
  have hkey : (Slot.visitors (urlId ++ unit ':' :: day)).key = visitorsKey urlId day :=
    (List.append_assoc _ _ _).symm
  rw [represents, hkey] at h
  subst h
  have hserve : serveAt now (.sadd member) _ = _ :=
    serveAt_sadd member (p.store.visitors (visitorsKey urlId day))
  refine ⟨congrArg Prod.fst hserve, (congrArg Prod.snd hserve).trans ?_⟩
  have hafter : (Request.served config p (.sadd urlId day member)).2.store.visitors
      (visitorsKey urlId day) = insert member (p.store.visitors (visitorsKey urlId day)) :=
    Function.update_self _ _ _
  rw [hkey]
  exact congrArg membersEntry hafter.symm

/-- What a request does to the counter of its address. -/
lemma represents_limit {ip : JsString} {s : RateLimiter.Store} (hnow : s.now = now)
    (hentry : entry = counterEntry s.counter) :
    represents now (.limit ip) entry (p.limit ip s) := by
  have hself : (p.limit ip s).limits ip = s := Function.update_self _ _ _
  rw [represents, hself]
  exact ⟨hnow, hentry⟩

lemma faithful_incr {ip : JsString} (h : represents now (.limit ip) entry p)
    (hp : (p.limits ip).count + 1 < 2 ^ 63) : Faithful config now p entry (.incr ip) := by
  obtain ⟨hnow, rfl⟩ := h
  have hserve : serveAt now .incr (counterEntry (p.limits ip).counter) =
      (.int (p.limits ip).incr.count, counterEntry (p.limits ip).incr.counter) := by
    revert hp
    generalize p.limits ip = s
    intro hp
    obtain ⟨now', counter, dropped⟩ := s
    cases counter with
    | none => rfl
    | some c =>
      have hincrease : increase (some (bigIntText c.count)) 1 = .ok ((c.count + 1 : ℕ) : ℤ) :=
        increase_natCast hp
      rw [counterEntry, Option.map_some, serveAt, hincrease]
      rfl
  exact ⟨congrArg Prod.fst hserve, represents_limit hnow (congrArg Prod.snd hserve)⟩

lemma serveAt_expire (s : RateLimiter.Store) (seconds : ℕ) (nx : Bool) :
    serveAt s.now (.expire seconds nx) (counterEntry s.counter) =
      (.int (if expires s nx then 1 else 0), counterEntry (s.expire seconds nx).counter) := by
  obtain ⟨now, counter, dropped⟩ := s
  cases counter with
  | none => rfl
  | some c =>
    simp only [counterEntry, Option.map_some, serveAt, expires, RateLimiter.Store.expire,
      Option.any_some]
    split_ifs with hset hzero <;> simp_all [RateLimiter.Store.drop]

lemma faithful_expire {ip : JsString} (nx : Bool) {r : Request}
    (hr : r = if nx then .expireNx ip else .expire ip) (h : represents now (.limit ip) entry p) :
    Faithful config now p entry r := by
  obtain ⟨rfl, rfl⟩ := h
  have hserve := serveAt_expire (p.limits ip) config.RATE_LIMIT_WINDOW_SECONDS nx
  have hnow : ((p.limits ip).expire config.RATE_LIMIT_WINDOW_SECONDS nx).now =
      (p.limits ip).now := by
    fun_cases RateLimiter.Store.expire (p.limits ip) config.RATE_LIMIT_WINDOW_SECONDS nx <;> rfl
  cases nx <;> subst hr
  all_goals
    refine ⟨congrArg Prod.fst hserve, ?_⟩
    exact represents_limit hnow (congrArg Prod.snd hserve)

lemma faithful_ttl {ip : JsString} (h : represents now (.limit ip) entry p) :
    Faithful config now p entry (.ttl ip) := by
  obtain ⟨hnow, rfl⟩ := h
  have hserve : serveAt now .ttl (counterEntry (p.limits ip).counter) =
      (.int (p.limits ip).ttl, counterEntry (p.limits ip).counter) := by
    rw [← hnow]
    generalize p.limits ip = s
    obtain ⟨now', counter, dropped⟩ := s
    cases counter with
    | none => rfl
    | some c =>
      obtain ⟨count, t⟩ := c
      cases t <;> rfl
  exact ⟨congrArg Prod.fst hserve, hnow, congrArg Prod.snd hserve⟩

theorem faithful_request {r : Request} (h : represents now r.slot entry p) (hp : p.Below n)
    (hn : n + 1 < 2 ^ 63) : Faithful config now p entry r := by
  cases r with
  | get a => exact faithful_get h
  | set a value => exact faithful_set
  | llen => exact faithful_buffer (.inl rfl) h
  | rpush value => exact faithful_buffer (.inr (.inl ⟨value, rfl⟩)) h
  | lpop => exact faithful_buffer (.inr (.inr rfl)) h
  | hincrby urlId =>
    have hle := hp.totals (clicksKey urlId)
    exact faithful_hincrby h (by omega)
  | sadd urlId day member => exact faithful_sadd h
  | incr ip =>
    have hle := hp.limits ip
    exact faithful_incr h (by omega)
  | expireNx ip => exact faithful_expire true rfl h
  | expire ip => exact faithful_expire false rfl h
  | ttl ip => exact faithful_ttl h

/-- A request leaves the stores of every other slot. -/
lemma represents_other {r : Request} {i : Slot} (hi : i ≠ r.slot) (h : represents now i entry p) :
    represents now i entry (r.served config p).2 := by
  have hkey : i.key ≠ r.slot.key := fun heq => hi (Slot.key_injective heq)
  have hlimit : ∀ ip s, r.slot = .limit ip → represents now i entry (p.limit ip s) := by
    intro ip s hr
    cases i with
    | limit ip' =>
      have hne : ip' ≠ ip := fun heq => hi (by rw [heq, hr])
      have hself : (p.limit ip s).limits ip' = p.limits ip' := Function.update_of_ne hne _ _
      rw [represents, hself]
      exact h
    | url | clicks | visitors | buffer => exact h
  cases r with
  | get | llen | ttl => exact h
  | set a value =>
    cases i with
    | url b =>
      have hself : (Request.served config p (.set a value)).2.db.cache (urlKey b) =
          p.db.cache (urlKey b) := Function.update_of_ne hkey _ _
      rw [represents, hself]
      exact h
    | limit | clicks | visitors | buffer => exact h
  | hincrby urlId =>
    cases i with
    | clicks urlId' =>
      have hself : (Request.served config p (.hincrby urlId)).2.store.totals (clicksKey urlId') =
          p.store.totals (clicksKey urlId') := Function.update_of_ne hkey _ _
      rw [represents, hself]
      exact h
    | url | limit | visitors | buffer => exact h
  | sadd urlId day member =>
    cases i with
    | visitors rest =>
      have hne : (Slot.visitors rest).key ≠ visitorsKey urlId day := fun heq =>
        hkey (heq.trans (List.append_assoc _ _ _))
      have hself : (Request.served config p (.sadd urlId day member)).2.store.visitors
          (Slot.visitors rest).key = p.store.visitors (Slot.visitors rest).key :=
        Function.update_of_ne hne _ _
      rw [represents, hself]
      exact h
    | url | limit | clicks | buffer => exact h
  | rpush | lpop =>
    cases i with
    | buffer => exact absurd rfl hi
    | url | limit | clicks | visitors => exact h
  | incr ip | expireNx ip | expire ip => exact hlimit ip _ rfl

end Serve

/-! Any run of the program's commands. -/

/-- A command of the program, or time that passes. -/
inductive Action
  | request (r : Request)
  | pass (ms : ℕ)

/-- On the separate stores cache entries are evicted beside that. -/
inductive Event
  | act (action : Action)
  | evict (a : JsString)

def Event.action? : Event → Option Action
  | .act action => some action
  | .evict _ => none

def shared (config : RateLimiter.Config) :
    System (Server JsString JsString × List (Answer JsString)) Action where
  next
    | .request r, (s, answers) =>
      let d := s.serve r.slot.key (r.command config)
      some (d.2, answers ++ [d.1])
    | .pass ms, (s, answers) => some (s.pass ms, answers)

def separate (config : RateLimiter.Config) : System (Parts × List (Answer JsString)) Event where
  next
    | .act (.request r), (p, answers) =>
      let d := r.served config p
      some (d.2, answers ++ [d.1])
    | .act (.pass ms), (p, answers) =>
      some ({ p with limits := fun ip => (p.limits ip).pass ms }, answers)
    | .evict a, (p, answers) =>
      (surroundingsStep (.evict (urlKey a)) p.db).map fun db => ({ p with db := db }, answers)

def emptyServer (now : ℕ) : Server JsString JsString := ⟨now, fun _ => none⟩

def emptyParts (now : ℕ) : Parts :=
  ⟨Db.empty, ClickQueue.emptyQueue.store, fun _ => ⟨now, none, 0⟩⟩

section Run
variable {config : RateLimiter.Config} {n : ℕ} {s s' : Server JsString JsString} {p : Parts}
  {answers answers' : List (Answer JsString)}

/-- What a server and the separate stores have in common after `n` commands. -/
structure Agree (n : ℕ) (s : Server JsString JsString) (p : Parts) : Prop where
  holds : representation.Holds s p
  below : p.Below n
  cached : ∃ aliases : List JsString, ∀ a, p.db.cache (urlKey a) ≠ none → a ∈ aliases

lemma served_no_error (config : RateLimiter.Config) (p : Parts) (r : Request) :
    (r.served config p).1.isError = false := by
  have helim : ∀ found : Option JsString,
      (found.elim Answer.nil Answer.text).isError = false := by
    intro found
    cases found <;> rfl
  cases r with
  | get a => exact helim _
  | lpop => exact helim _
  | set | llen | hincrby | sadd | rpush | incr | expireNx | ttl | expire => rfl

lemma Parts.Below.mono {m : ℕ} (h : p.Below n) (hle : n ≤ m) : p.Below m :=
  ⟨fun key => (h.totals key).trans hle, fun ip => (h.limits ip).trans hle⟩

lemma Parts.Below.limit {ip : JsString} {c : RateLimiter.Store} (h : p.Below n)
    (hc : c.count ≤ n) : (p.limit ip c).Below n := by
  refine ⟨h.totals, fun ip' => ?_⟩
  rw [Parts.limit]
  dsimp only
  by_cases hip : ip' = ip
  · subst hip
    rw [Function.update_self]
    exact hc
  · rw [Function.update_of_ne hip]
    exact h.limits ip'

lemma Parts.Below.served (h : p.Below n) (r : Request) : (r.served config p).2.Below (n + 1) := by
  have hexpire : ∀ ip nx, ((p.limits ip).expire config.RATE_LIMIT_WINDOW_SECONDS nx).count ≤
      n + 1 := by
    intro ip nx
    have hcount := h.limits ip
    have hlife := (p.limits ip).expire_lifetime config.RATE_LIMIT_WINDOW_SECONDS nx
    omega
  have hn := h.mono (Nat.le_succ n)
  cases r with
  | get | set | llen | sadd | rpush | lpop | ttl => exact ⟨hn.totals, hn.limits⟩
  | hincrby urlId =>
    refine ⟨fun key => ?_, hn.limits⟩
    have hle := h.totals key
    change Function.update p.store.totals (clicksKey urlId) _ key ≤ n + 1
    by_cases hkey : key = clicksKey urlId
    · subst hkey
      rw [Function.update_self]
      omega
    · rw [Function.update_of_ne hkey]
      omega
  | incr ip => exact hn.limit (Nat.succ_le_succ (h.limits ip))
  | expireNx ip => exact hn.limit (hexpire ip true)
  | expire ip => exact hn.limit (hexpire ip false)

lemma cached_served (h : ∃ aliases : List JsString, ∀ a, p.db.cache (urlKey a) ≠ none →
    a ∈ aliases) (r : Request) : ∃ aliases : List JsString,
      ∀ a, (r.served config p).2.db.cache (urlKey a) ≠ none → a ∈ aliases := by
  obtain ⟨aliases, h⟩ := h
  cases r with
  | set b value =>
    refine ⟨b :: aliases, fun a ha => ?_⟩
    by_cases hab : a = b
    · exact hab ▸ List.mem_cons_self
    · have hself : (Request.served config p (.set b value)).2.db.cache (urlKey a) =
          p.db.cache (urlKey a) := Function.update_of_ne (urlKey_injective.ne hab) _ _
      exact List.mem_cons_of_mem _ (h a (hself ▸ ha))
  | get | llen | hincrby | sadd | rpush | lpop | incr | expireNx | ttl | expire =>
    exact ⟨aliases, h⟩

variable (config) in
lemma Agree.request (h : Agree n s p) (hn : n + 1 < 2 ^ 63) (r : Request) :
    (s.serve r.slot.key (r.command config)).1 = (r.served config p).1 ∧
      Agree (n + 1) (s.serve r.slot.key (r.command config)).2 (r.served config p).2 := by
  have hfaithful : Faithful config s.now p (s.entries r.slot.key) r :=
    faithful_request (h.holds r.slot) h.below hn
  obtain ⟨hanswer, hown⟩ := hfaithful
  refine ⟨hanswer, h.holds.serve hown fun i hi entry hentry => represents_other hi hentry,
    h.below.served r, cached_served h.cached r⟩

/-! Time that passes. -/

lemma expireAt_of_ite {P : Prop} [Decidable P] {value : Value JsString} {e : Entry JsString}
    (h : (if P then none else some (⟨value, none⟩ : Entry JsString)) = some e) :
    e.expireAt = none := by
  split_ifs at h
  obtain rfl := Option.some.inj h
  rfl

lemma filter_due {entry : Option (Entry JsString)} (h : ∀ e, entry = some e → e.expireAt = none)
    (now : ℕ) : (entry.filter fun e => !e.due now) = entry := by
  cases entry with
  | none => rfl
  | some e => simp [Entry.due, h e rfl]

lemma counterEntry_pass (c : RateLimiter.Store) (ms : ℕ) :
    counterEntry (c.pass ms).counter =
      (counterEntry c.counter).filter fun e => !e.due (c.now + ms) := by
  obtain ⟨now, counter, dropped⟩ := c
  cases counter with
  | none => rfl
  | some k =>
    rw [RateLimiter.Store.pass]
    by_cases hdue : k.expireAt.any (· ≤ now + ms) = true
    · simp [RateLimiter.Store.expireAt, hdue, RateLimiter.Store.drop, counterEntry, Entry.due,
        Option.filter]
    · simp [RateLimiter.Store.expireAt, hdue, counterEntry, Entry.due, Option.filter]

lemma run_evict (config : RateLimiter.Config) (aliases : List JsString) (p : Parts)
    (answers : List (Answer JsString)) : ∃ cache : JsString → Option JsString,
      (separate config).run (aliases.map .evict) (p, answers) =
        some ({ p with db := { p.db with cache := cache } }, answers) ∧
      ∀ a, cache (urlKey a) = if a ∈ aliases then none else p.db.cache (urlKey a) := by
  induction aliases generalizing p with
  | nil => exact ⟨p.db.cache, rfl, fun a => rfl⟩
  | cons b aliases ih =>
    obtain ⟨cache, hrun, hcache⟩ := ih { p with db :=
      { p.db with cache := Function.update p.db.cache (urlKey b) none } }
    refine ⟨cache, hrun, fun a => ?_⟩
    rw [hcache]
    by_cases hab : a = b
    · subst hab
      simp
    · simp [hab, Function.update_of_ne (urlKey_injective.ne hab)]

variable (config answers) in
/-- The entries of the cache whose time has come are evicted. -/
lemma Agree.pass (h : Agree n s p) (ms : ℕ) : ∃ aliases : List JsString, ∃ p',
    (separate config).run (.act (.pass ms) :: aliases.map .evict) (p, answers) =
      some (p', answers) ∧ Agree n (s.pass ms) p' := by
  obtain ⟨aliases, haliases⟩ := h.cached
  let due : List JsString := aliases.filter fun a =>
    (s.entries (urlKey a)).any fun e => e.due (s.now + ms)
  obtain ⟨cache, hrun, hcache⟩ := run_evict config due
    { p with limits := fun ip => (p.limits ip).pass ms } answers
  have hfirst : (separate config).next (.act (.pass ms)) (p, answers) =
      some ({ p with limits := fun ip => (p.limits ip).pass ms }, answers) := rfl
  refine ⟨due, _, (System.run_cons_of_next hfirst).trans hrun, fun i => ?_, ?_, aliases,
    fun a ha => haliases a fun hnone => ha ?_⟩
  · have hi := h.holds i
    cases i with
    | url a =>
      change ((s.entries (urlKey a)).filter fun e => !e.due (s.now + ms)).map Entry.value =
        (cache (urlKey a)).map .text
      have hi : (s.entries (urlKey a)).map Entry.value = (p.db.cache (urlKey a)).map .text := hi
      rw [hcache a]
      cases hentry : s.entries (urlKey a) with
      | none =>
        rw [hentry] at hi
        have hnone : p.db.cache (urlKey a) = none := Option.map_eq_none_iff.mp hi.symm
        dsimp only
        rw [hnone, ite_self]
        rfl
      | some e =>
        rw [hentry] at hi
        have hmem : a ∈ due ↔ e.due (s.now + ms) = true := by
          refine List.mem_filter.trans ?_
          rw [hentry]
          refine and_iff_right (haliases a fun hnone => ?_)
          rw [hnone] at hi
          cases hi
        by_cases hdue : e.due (s.now + ms) = true
        · rw [if_pos (hmem.mpr hdue)]
          simp [Option.filter, hdue]
        · rw [if_neg fun hd => hdue (hmem.mp hd)]
          simpa [Option.filter, hdue] using hi
    | limit ip =>
      obtain ⟨hnow, hentry⟩ := hi
      have hlimit := counterEntry_pass (p.limits ip) ms
      rw [hnow] at hlimit
      refine ⟨?_, ?_⟩
      · change ((p.limits ip).pass ms).now = s.now + ms
        rw [RateLimiter.Store.pass, ← hnow]
        split_ifs <;> rfl
      · exact (congrArg _ hentry).trans hlimit.symm
    | clicks | visitors | buffer =>
      exact (congrArg _ hi).trans (filter_due (fun e => expireAt_of_ite) _)
  · refine ⟨h.below.totals, fun ip => ?_⟩
    have hcount := h.below.limits ip
    have hlife := (p.limits ip).pass_lifetime ms
    change ((p.limits ip).pass ms).count ≤ n
    omega
  · change cache (urlKey a) = none
    rw [hcache, hnone, ite_self]

/-- Every action on the server is one on the separate stores, with evictions after it. -/
lemma Agree.action {action : Action} (h : Agree n s p) (hn : n + 1 < 2 ^ 63)
    (hclean : ∀ answer ∈ answers, answer.isError = false)
    (hnext : (shared config).next action (s, answers) = some (s', answers')) :
    ∃ aliases : List JsString, ∃ p',
      (separate config).run (.act action :: aliases.map .evict) (p, answers) =
        some (p', answers') ∧
      Agree (n + 1) s' p' ∧ ∀ answer ∈ answers', answer.isError = false := by
  cases action with
  | request r =>
    obtain ⟨rfl, rfl⟩ := Prod.mk.inj (Option.some.inj hnext)
    obtain ⟨hanswer, hagree⟩ := h.request config hn r
    refine ⟨[], _, ?_, hagree, fun answer hmem => ?_⟩
    · rw [hanswer]
      rfl
    · rcases List.mem_append.mp hmem with hold | hnew
      · exact hclean answer hold
      · rw [List.mem_singleton.mp hnew, hanswer]
        exact served_no_error config p r
  | pass ms =>
    obtain ⟨rfl, rfl⟩ := Prod.mk.inj (Option.some.inj hnext)
    obtain ⟨aliases, p', hrun, hagree⟩ := h.pass config answers ms
    exact ⟨aliases, p', hrun,
      ⟨hagree.holds, hagree.below.mono (Nat.le_succ n), hagree.cached⟩, hclean⟩

lemma Agree.run {actions : List Action} (h : Agree n s p)
    (hrun : (shared config).run actions (s, answers) = some (s', answers'))
    (hlen : n + actions.length < 2 ^ 63)
    (hclean : ∀ answer ∈ answers, answer.isError = false) : ∃ events p' m,
      events.filterMap Event.action? = actions ∧
      (separate config).run events (p, answers) = some (p', answers') ∧
      Agree m s' p' ∧ ∀ answer ∈ answers', answer.isError = false := by
  induction actions generalizing n s p answers with
  | nil =>
    obtain ⟨rfl, rfl⟩ := Prod.mk.inj (Option.some.inj hrun)
    exact ⟨[], p, n, rfl, rfl, h, hclean⟩
  | cons action actions ih =>
    obtain ⟨⟨s₁, answers₁⟩, hnext, hrest⟩ := Option.bind_eq_some_iff.mp hrun
    rw [List.length_cons] at hlen
    obtain ⟨aliases, p₁, hrun₁, hagree, hclean₁⟩ := h.action (by omega) hclean hnext
    obtain ⟨events, p', m, hactions, hrun', hagree', hclean'⟩ :=
      ih hagree hrest (by omega) hclean₁
    have hnone : (aliases.map Event.evict).filterMap Event.action? = [] := by
      rw [List.filterMap_map]
      exact List.filterMap_eq_nil_iff.mpr fun a _ => rfl
    refine ⟨.act action :: aliases.map .evict ++ events, p', m, ?_, ?_, hagree', hclean'⟩
    · rw [List.cons_append, List.filterMap_cons, List.filterMap_append, hnone, hactions]
      rfl
    · rw [System.run_append, hrun₁]
      exact hrun'

lemma agree_empty (now : ℕ) : Agree 0 (emptyServer now) (emptyParts now) := by
  refine ⟨fun i => ?_, ⟨fun key => le_rfl, fun ip => le_rfl⟩, [], fun a ha => absurd rfl ha⟩
  cases i with
  | limit ip => exact ⟨rfl, rfl⟩
  | url | clicks | visitors | buffer => rfl

/-- The one server answers every sequence of the program's commands as the separate stores do, from
which cache entries are evicted now and then, and it goes on to represent them. No command meets a
value of another type or an integer out of range. -/
theorem shared_refines_separate {now : ℕ} {actions : List Action}
    (h : (shared config).run actions (emptyServer now, []) = some (s, answers))
    (hlen : actions.length < 2 ^ 63) : ∃ events p,
      events.filterMap Event.action? = actions ∧
      (separate config).run events (emptyParts now, []) = some (p, answers) ∧
      representation.Holds s p ∧ ∀ answer ∈ answers, answer.isError = false := by
  have hnone : ∀ answer ∈ ([] : List (Answer JsString)), answer.isError = false := by simp
  obtain ⟨events, p, m, hactions, hrun, hagree, hclean⟩ :=
    (agree_empty now).run h (by omega) hnone
  exact ⟨events, p, hactions, hrun, hagree.holds, hclean⟩

/-- An entry of the cache outlives its day by nothing, and the address of a client may read like
an alias. -/
def oneDay : List Action :=
  [.request (.set (js "G8") (js "row")), .request (.incr (js "G8")), .request (.get (js "G8")),
    .pass 86400000, .request (.get (js "G8"))]

theorem shared_refines_separate_oneDay : ∃ s, (shared ⟨100, 60⟩).run oneDay (emptyServer 0, []) =
      some (s, [.ok, .int 1, .text (js "row"), .nil]) ∧ ∃ events p,
      events.filterMap Event.action? = oneDay ∧
      (separate ⟨100, 60⟩).run events (emptyParts 0, []) =
        some (p, [.ok, .int 1, .text (js "row"), .nil]) ∧
      representation.Holds s p ∧
      ∀ answer ∈ [Answer.ok, .int 1, .text (js "row"), .nil], answer.isError = false := by
  have hrun : ((shared ⟨100, 60⟩).run oneDay (emptyServer 0, [])).map Prod.snd =
      some [.ok, .int 1, .text (js "row"), .nil] := by decide
  obtain ⟨⟨s, answers⟩, hs, hanswers⟩ := Option.map_eq_some_iff.mp hrun
  obtain rfl : answers = _ := hanswers
  exact ⟨s, hs, shared_refines_separate hs (by decide)⟩

end Run

end UrlShortener.RedisClient
