import UrlShortener.FlushSteps
import UrlShortener.JsonRoundtrip

/-! `AnalyticsService`: what `trackClick` writes, one awaited command after the other, and
that the events which it pushes pass the validation of the flush worker. -/
namespace UrlShortener.Analytics
open Js Json Transition FlushWorker

def MAX_BUFFER_SIZE : ℕ := 10000

/-- Of an empty string nothing is left anyway. -/
def sanitize (value : JsString) : JsString := (trim (value.filter (noneOf "<>"))).take 512

/-- The stores with the hash fields `total` of `metrics:clicks:*` and the sets
`metrics:visitors:*`, by key. -/
structure Metrics extends Stores where
  totals : JsString → ℕ
  visitors : JsString → List JsString

def Metrics.hincrby (s : Metrics) (key : JsString) : Metrics :=
  { s with totals := Function.update s.totals key (s.totals key + 1) }

def Metrics.sadd (s : Metrics) (key member : JsString) : Metrics :=
  { s with visitors := Function.update s.visitors key (insert member (s.visitors key)) }

lemma mem_insert_list {α : Type*} [DecidableEq α] {a b : α} {l : List α} :
    b ∈ insert a l ↔ b ∈ l ∨ a = b :=
  List.mem_insert_iff.trans (by rw [or_comm, eq_comm])

lemma nodup_insert_list {α : Type*} [DecidableEq α] {l : List α} (h : l.Nodup) (a : α) :
    (insert a l).Nodup := h.insert

lemma Metrics.mem_sadd {s : Metrics} {key member other fingerprint : JsString} :
    fingerprint ∈ (s.sadd key member).visitors other ↔
      fingerprint ∈ s.visitors other ∨ key = other ∧ member = fingerprint := by
  rw [Metrics.sadd]
  dsimp only
  by_cases hkey : other = key
  · subst hkey
    rw [Function.update_self, mem_insert_list]
    simp
  · rw [Function.update_of_ne hkey]
    simp [Ne.symm hkey]

lemma Metrics.nodup_sadd {s : Metrics} {other : JsString} (h : (s.visitors other).Nodup)
    (key member : JsString) : ((s.sadd key member).visitors other).Nodup := by
  rw [Metrics.sadd]
  dsimp only
  by_cases hkey : other = key
  · subst hkey
    rw [Function.update_self]
    exact nodup_insert_list h member
  · rw [Function.update_of_ne hkey]
    exact h

def Metrics.rpush (s : Metrics) (raw : JsString) : Metrics :=
  { s with toStores := s.toStores.push [raw] }

def clicksKey (urlId : JsString) : JsString := js "metrics:clicks:" ++ urlId

def visitorsKey (urlId day : JsString) : JsString :=
  js "metrics:visitors:" ++ urlId ++ unit ':' :: day

/-- A click as `trackClick` has it before its first command. -/
structure TrackedClick where
  url_id : JsString
  timestamp : JsString
  ip_address : JsString
  user_agent : JsString
  referer : JsString
  deriving DecidableEq

def TrackedClick.fingerprint (c : TrackedClick) : JsString :=
  c.ip_address ++ unit ':' :: c.user_agent

def eventFields (c : TrackedClick) : List (JsString × Json) :=
  [(js "url_id", .str c.url_id), (js "timestamp", .str c.timestamp),
    (js "ip_address", .str c.ip_address), (js "user_agent", .str c.user_agent),
    (js "referer", .str c.referer)]

def eventPayload (c : TrackedClick) : JsString := stringify (.obj (eventFields c))

/-- What a call awaits: LLEN, HINCRBY, SADD or RPUSH. -/
inductive TrackPc
  | checking (c : TrackedClick)
  | counting (c : TrackedClick)
  | fingerprinting (c : TrackedClick) (day : JsString)
  | pushing (c : TrackedClick)
  | finished
  deriving DecidableEq

/-- A command is executed and answered, it fails, or its reply is lost. -/
inductive Outcome
  | served
  | failed
  | lost
  deriving DecidableEq

structure TrackReply where
  outcome : Outcome
  now : ℤ

/-- The arguments of `trackClick` and its first reading of the clock. -/
structure TrackCall where
  urlId : JsString
  ip : JsString
  userAgent : JsString
  referer : JsString
  now : ℤ

def TrackCall.click (call : TrackCall) : TrackedClick :=
  ⟨call.urlId, toISOString call.now, call.ip, sanitize call.userAgent, sanitize call.referer⟩

/-- `trackClick` up to its first command. -/
def TrackCall.enter (call : TrackCall) : TrackPc :=
  if isIP call.ip = 0 then .finished else .checking call.click

/-- A command in the `try` block. The `catch` block logs whatever is thrown. -/
def issue (outcome : Outcome) (s executed : Metrics) (next : TrackPc) : Metrics × TrackPc :=
  match outcome with
  | .served => (executed, next)
  | .failed => (s, .finished)
  | .lost => (executed, .finished)

/-- One step of a call. -/
def trackStep (reply : TrackReply) (s : Metrics) : TrackPc → Option (Metrics × TrackPc)
  | .finished => none
  | .checking c =>
    some (issue reply.outcome s s
      (if MAX_BUFFER_SIZE ≤ s.buffer.length then .finished else .counting c))
  | .counting c =>
    some (issue reply.outcome s (s.hincrby (clicksKey c.url_id))
      (.fingerprinting c ((toISOString reply.now).take 10)))
  | .fingerprinting c day =>
    some (issue reply.outcome s (s.sadd (visitorsKey c.url_id day) c.fingerprint) (.pushing c))
  | .pushing c => some (issue reply.outcome s (s.rpush (eventPayload c)) .finished)

/-- A call on its own. -/
def trackAlone : System (Metrics × TrackPc) TrackReply where
  next reply s := trackStep reply s.1 s.2

/-- `trackClick` with every command served; `later` is its second reading of the clock. -/
def trackClick (call : TrackCall) (later : ℤ) (s : Metrics) : Metrics :=
  match call.enter with
  | .checking c =>
    if MAX_BUFFER_SIZE ≤ s.buffer.length then s
    else ((s.hincrby (clicksKey c.url_id)).sadd
      (visitorsKey c.url_id ((toISOString later).take 10)) c.fingerprint).rpush (eventPayload c)
  | _ => s

/-- The commands of a call on its own compute the call. -/
theorem run_trackClick (call : TrackCall) (later : ℤ) (s : Metrics) :
    ∃ n, trackAlone.run (List.replicate n ⟨.served, later⟩) (s, call.enter) =
      some (trackClick call later s, .finished) := by
  unfold trackClick TrackCall.enter
  by_cases hip : isIP call.ip = 0
  · rw [if_pos hip]
    exact ⟨0, rfl⟩
  · rw [if_neg hip]
    by_cases hfull : MAX_BUFFER_SIZE ≤ s.buffer.length
    · exact ⟨1, by simp [System.run, trackAlone, trackStep, issue, hfull]⟩
    · exact ⟨4, by simp [List.replicate, System.run, trackAlone, trackStep, issue, hfull]⟩

/-! What a call pushes passes validation. -/

/-- The id is a number for `validateEvent` and the address an address. -/
def TrackedClick.Valid (c : TrackedClick) : Prop :=
  isUrlId (.str c.url_id) = true ∧ isIP c.ip_address ≠ 0

section Fields
variable (c : TrackedClick)

lemma eventFields_nodup : ((eventFields c).map Prod.fst).Nodup := by
  have hkeys : (eventFields c).map Prod.fst =
      [js "url_id", js "timestamp", js "ip_address", js "user_agent", js "referer"] := rfl
  rw [hkeys]
  decide

lemma parse_eventPayload : parse (eventPayload c) = some (.obj (eventFields c)) := by
  apply parse_stringify
  exact ⟨eventFields_nodup c, trivial, trivial, trivial, trivial, trivial, trivial⟩

lemma prop_url_id : (Json.obj (eventFields c)).prop "url_id" = some (.str c.url_id) :=
  prop_of_mem (eventFields_nodup c) (.head _)

lemma prop_timestamp : (Json.obj (eventFields c)).prop "timestamp" = some (.str c.timestamp) :=
  prop_of_mem (eventFields_nodup c) (.tail _ (.head _))

lemma prop_ip_address :
    (Json.obj (eventFields c)).prop "ip_address" = some (.str c.ip_address) :=
  prop_of_mem (eventFields_nodup c) (.tail _ (.tail _ (.head _)))

lemma prop_user_agent :
    (Json.obj (eventFields c)).prop "user_agent" = some (.str c.user_agent) :=
  prop_of_mem (eventFields_nodup c) (.tail _ (.tail _ (.tail _ (.head _))))

lemma prop_referer : (Json.obj (eventFields c)).prop "referer" = some (.str c.referer) :=
  prop_of_mem (eventFields_nodup c) (.tail _ (.tail _ (.tail _ (.tail _ (.head _)))))

end Fields

/-- The worker reads back what was pushed. -/
theorem parseEvent_eventPayload {c : TrackedClick} (h : c.Valid) :
    parseEvent (eventPayload c) =
      some ⟨.str c.url_id, c.timestamp, .str c.ip_address, c.user_agent, c.referer⟩ := by
  have hip : isAddress (.str c.ip_address) = true := by simpa [isAddress, addressText] using h.2
  rw [parseEvent, parse_eventPayload, Option.bind_some, validateEvent, prop_url_id, prop_timestamp,
    prop_ip_address, prop_user_agent, prop_referer]
  simp [h.1, hip]

lemma isUrlId_of_isNumeral {s : JsString} (h : IsNumeral s) : isUrlId (.str s) = true := by
  have hne : s.isEmpty = false := by simpa using h.1
  simp [isUrlId, hne, h.isNumericText]

/-- A call with a numeral for its id and a valid address tracks a valid click. -/
lemma TrackCall.click_valid {call : TrackCall} (hid : IsNumeral call.urlId)
    (hip : isIP call.ip ≠ 0) : call.click.Valid := ⟨isUrlId_of_isNumeral hid, hip⟩

end UrlShortener.Analytics
