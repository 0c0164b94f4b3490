import UrlShortener.AnalyticsService
import UrlShortener.GracefulShutdown

/-! The two consumers of the buffer, `processBufferedClicks` and the flush worker, insert
the same rows for what `trackClick` pushes. -/
namespace UrlShortener.ClickConsumers
open Js Json Pattern FlushWorker Analytics
open Shutdown (served)

/-- The parameters of the INSERT for an event; `undefined` is bound as NULL. -/
structure BoundRow where
  url_id : Option Json
  timestamp : Option Json
  ip_address : Option Json
  user_agent : JsString
  referer : JsString

/-- The buffer and the table. -/
structure Drain where
  buffer : List JsString
  clicks : List BoundRow

inductive Thrown
  | redis
  | database (err : DbError)
  | typeError

/-- The outcome of each awaited call: which LPOP and which RPUSH fails, if one does. -/
structure ConsumerReplies where
  failedPop : Option ℕ
  onConnect : Option DbError
  onInsert : Option DbError
  failedPush : Option ℕ

/-- `sanitize` of a field of a parsed event: falsy values give the empty string, the others
have no `replace` unless they are strings. `isZero` tells the literals of the number 0. -/
def sanitizeField (isZero : JsString → Bool) : Option Json → Option JsString
  | none | some .null | some (.bool false) => some []
  | some (.num literal) => if isZero literal then some [] else none
  | some (.str s) => some (Analytics.sanitize s)
  | some (.bool true) | some (.arr _) | some (.obj _) => none

/-- The parameters of a parsed event, which is not validated; `null` has no properties. -/
def bindEvent (isZero : JsString → Bool) (event : Json) : Option BoundRow :=
  match event with
  | .null => none
  | e => do
    let userAgent ← sanitizeField isZero (e.prop "user_agent")
    let referer ← sanitizeField isZero (e.prop "referer")
    some ⟨e.prop "url_id", e.prop "timestamp", e.prop "ip_address", userAgent, referer⟩

structure Popped where
  events : List (JsString × Json)
  buffer : List JsString
  failed : Bool

/-- The loop over LPOP; an empty reply ends it, and what does not parse is discarded. -/
def popEvents : ℕ → Option ℕ → List JsString → Popped
  | 0, _, buffer => ⟨[], buffer, false⟩
  | _ + 1, some 0, buffer => ⟨[], buffer, true⟩
  | _ + 1, _, [] => ⟨[], [], false⟩
  | n + 1, failing, raw :: rest =>
    if raw = [] then ⟨[], rest, false⟩
    else
      let popped := popEvents n (failing.map (· - 1)) rest
      match parse raw with
      | some event => { popped with events := (raw, event) :: popped.events }
      | none => popped

/-- The `catch` block: every error puts the batch back, as far as RPUSH succeeds. -/
def requeueAll (failedPush : Option ℕ) (rawEvents : List JsString) (err : Thrown) (s : Drain) :
    Drain × Option Thrown :=
  match failedPush with
  | some n =>
    ({ s with buffer := s.buffer ++ rawEvents.take n },
      some (if n < rawEvents.length then .redis else err))
  | none => ({ s with buffer := s.buffer ++ rawEvents }, some err)

def processBufferedClicks (isZero : JsString → Bool) (o : ConsumerReplies) (batchSize : ℕ)
    (s : Drain) : Drain × Option Thrown :=
  let popped := popEvents batchSize o.failedPop s.buffer
  let s' : Drain := { s with buffer := popped.buffer }
  let rawEvents := popped.events.map Prod.fst
  if popped.failed then (s', some .redis)
  else if popped.events = [] then (s', none)
  else
    match o.onConnect with
    | some err => (s', some (.database err))
    | none =>
      match popped.events.mapM fun e => bindEvent isZero e.2 with
      | none => requeueAll o.failedPush rawEvents .typeError s'
      | some rows =>
        match o.onInsert with
        | some err => requeueAll o.failedPush rawEvents (.database err) s'
        | none => ({ s' with clicks := s'.clicks ++ rows }, none)

/-- Redis and Postgres are healthy. -/
def healthy : ConsumerReplies := ⟨none, none, none, none⟩

/-- A row of the worker, as it is bound. -/
def bound (row : ClickRow) : BoundRow :=
  ⟨some row.url_id, some (.str row.timestamp), some row.ip_address, row.user_agent, row.referer⟩

/-- A sequence of calls of `trackClick`, each with its second reading of the clock. -/
def trackAll (calls : List (TrackCall × ℤ)) (s : Metrics) : Metrics :=
  calls.foldl (fun s call => trackClick call.1 call.2 s) s

/-- The row of a tracked click. -/
def rowOfClick (c : TrackedClick) : BoundRow :=
  ⟨some (.str c.url_id), some (.str c.timestamp), some (.str c.ip_address),
    Analytics.sanitize c.user_agent, Analytics.sanitize c.referer⟩

/-! The sanitiser of the worker finds nothing in what the producer has sanitised. -/

/-- No angle bracket is left. -/
def Clean (s : JsString) : Prop := ∀ c ∈ s, noneOf "<>" c = true

lemma sanitize_clean (value : JsString) : Clean (Analytics.sanitize value) := by
  intro c hc
  have hmem : c ∈ value.filter (noneOf "<>") :=
    (infix_trimBy isWhiteSpace _).subset (List.mem_of_mem_take hc)
  exact (List.mem_filter.mp hmem).2

lemma Clean.not_occurs {s : JsString} (h : Clean s) : ¬ Occurs tag s := by
  intro hoccurs
  obtain ⟨pre, w, post, rfl, hmatch⟩ := hoccurs
  cases hmatch with
  | @one p r before c w rest hc hrest =>
    have hnone : noneOf "<>" c = true := h c (by simp)
    simp only [oneOf, noneOf, List.contains_eq_mem, decide_eq_true_eq, Bool.not_eq_true',
      decide_eq_false_iff_not] at hc hnone
    obtain rfl : c = unit '<' := by simpa [js] using hc
    exact hnone (by decide)

lemma sanitize_agree {s : JsString} (h : Clean s) :
    FlushWorker.sanitize s = Analytics.sanitize s := by
  have hfilter : s.filter (noneOf "<>") = s := List.filter_eq_self.mpr h
  rw [FlushWorker.sanitize, deleteAll_eq_self h.not_occurs, Analytics.sanitize, hfilter]

/-! Draining in batches. -/

section Batches
variable {γ ρ S : Type*} (step : S → S) (state : List γ → List ρ → S) {row : γ → ρ}
  {P : γ → Prop} {batchSize : ℕ}

/-- A consumer that takes a batch off the front and appends its rows, taken repeatedly. -/
theorem iterate_batches (hstep : ∀ queue rows, (∀ c ∈ queue, P c) →
      step (state queue rows) =
        state (queue.drop batchSize) (rows ++ (queue.take batchSize).map row))
    (n : ℕ) {queue : List γ} (rows : List ρ) (hqueue : ∀ c ∈ queue, P c) :
    step^[n] (state queue rows) =
      state (queue.drop (n * batchSize)) (rows ++ (queue.take (n * batchSize)).map row) := by
  induction n generalizing queue rows with
  | zero => simp
  | succ n ih =>
    have hrest : ∀ c ∈ queue.drop batchSize, P c := fun c hc => hqueue c (List.mem_of_mem_drop hc)
    have hcount : (n + 1) * batchSize = batchSize + n * batchSize := by ring
    rw [Function.iterate_succ_apply, hstep queue rows hqueue, ih _ hrest, List.drop_drop, hcount,
      List.take_add, List.map_append, List.append_assoc]

end Batches

/-- What a call of `trackClick` with a numeral for its id and a valid address tracks. -/
def Tracked (c : TrackedClick) : Prop := c.Valid ∧ Clean c.user_agent ∧ Clean c.referer

/-- The row that the worker inserts for a click. -/
def workerRow (c : TrackedClick) : ClickRow :=
  rowOf ⟨.str c.url_id, c.timestamp, .str c.ip_address, c.user_agent, c.referer⟩

lemma bound_workerRow {c : TrackedClick} (h : Tracked c) : bound (workerRow c) = rowOfClick c := by
  obtain ⟨-, hagent, hreferer⟩ := h
  simp [bound, workerRow, rowOf, rowOfClick, sanitize_agree hagent, sanitize_agree hreferer]

lemma parsedRows_payloads {clicks : List TrackedClick} (h : ∀ c ∈ clicks, Tracked c) :
    parsedRows (clicks.map eventPayload) = clicks.map workerRow := by
  induction clicks with
  | nil => rfl
  | cons c clicks ih =>
    have hc := parseEvent_eventPayload (h c (by simp)).1
    have hrest := ih fun d hd => h d (by simp [hd])
    have hcons : parsedRows ((c :: clicks).map eventPayload) =
        workerRow c :: parsedRows (clicks.map eventPayload) := by
      simp [parsedRows, hc, workerRow]
    rw [hcons, hrest, List.map_cons]

/-- One flush of the worker moves a batch from the buffer to the table. -/
lemma flush_payloads (batchSize : ℕ) {clicks : List TrackedClick} (rows : List ClickRow)
    (h : ∀ c ∈ clicks, Tracked c) :
    flush batchSize served ⟨clicks.map eventPayload, rows⟩ =
      ⟨(clicks.drop batchSize).map eventPayload,
        rows ++ (clicks.take batchSize).map workerRow⟩ := by
  have htake : ∀ c ∈ clicks.take batchSize, Tracked c := fun c hc => h c (List.mem_of_mem_take hc)
  rw [flush_eq]
  simp only [← List.map_take, ← List.map_drop, persistBatch, parsedRows_payloads htake]
  split_ifs with hnil
  · rw [hnil, List.append_nil]
  · rfl

lemma eventPayload_ne_nil (c : TrackedClick) : eventPayload c ≠ [] := by
  intro h
  have hparse := parse_eventPayload c
  rw [h, parse_nil] at hparse
  cases hparse

lemma bindEvent_eventFields (isZero : JsString → Bool) (c : TrackedClick) :
    bindEvent isZero (.obj (eventFields c)) = some (rowOfClick c) := by
  simp [bindEvent, prop_url_id, prop_timestamp, prop_ip_address, prop_user_agent, prop_referer,
    sanitizeField, rowOfClick]

lemma popEvents_payloads (n : ℕ) (clicks : List TrackedClick) :
    popEvents n none (clicks.map eventPayload) =
      ⟨(clicks.take n).map fun c => (eventPayload c, .obj (eventFields c)),
        (clicks.drop n).map eventPayload, false⟩ := by
  induction n generalizing clicks with
  | zero => simp [popEvents]
  | succ n ih =>
    cases clicks with
    | nil => rfl
    | cons c clicks =>
      simp [popEvents, eventPayload_ne_nil, parse_eventPayload, ih]

/-- One call of `processBufferedClicks` does the same. -/
lemma processBufferedClicks_payloads (isZero : JsString → Bool) (batchSize : ℕ)
    (clicks : List TrackedClick) (rows : List BoundRow) :
    processBufferedClicks isZero healthy batchSize ⟨clicks.map eventPayload, rows⟩ =
      (⟨(clicks.drop batchSize).map eventPayload,
        rows ++ (clicks.take batchSize).map rowOfClick⟩, none) := by
  have hbind : ∀ clicks : List TrackedClick,
      (clicks.map fun c => (eventPayload c, Json.obj (eventFields c))).mapM
        (fun e => bindEvent isZero e.2) = some (clicks.map rowOfClick) := by
    intro clicks
    induction clicks with
    | nil => rfl
    | cons c clicks ih => simp [bindEvent_eventFields, ih]
  simp only [processBufferedClicks, healthy, popEvents_payloads, hbind, Bool.false_eq_true,
    if_false, List.map_eq_nil_iff]
  split_ifs with hnil
  · rw [hnil, List.map_nil, List.append_nil]
  · rfl

/-! Both consumers, from the calls on. -/

lemma trackClick_buffer {call : TrackCall} (hip : isIP call.ip ≠ 0) (later : ℤ) {s : Metrics}
    (hroom : s.buffer.length < MAX_BUFFER_SIZE) :
    (trackClick call later s).buffer = s.buffer ++ [eventPayload call.click] := by
  simp only [trackClick, TrackCall.enter, if_neg hip, if_neg (Nat.not_le_of_lt hroom)]
  rfl

lemma trackAll_buffer {calls : List (TrackCall × ℤ)} (hip : ∀ call ∈ calls, isIP call.1.ip ≠ 0)
    {s : Metrics} (hroom : s.buffer.length + calls.length ≤ MAX_BUFFER_SIZE) :
    (trackAll calls s).buffer = s.buffer ++ calls.map fun call => eventPayload call.1.click := by
  induction calls generalizing s with
  | nil => simp [trackAll]
  | cons call calls ih =>
    rw [List.length_cons] at hroom
    have hhead := trackClick_buffer (hip call (by simp)) call.2 (s := s) (by omega)
    have hrest : (trackAll calls (trackClick call.1 call.2 s)).buffer =
        (trackClick call.1 call.2 s).buffer ++ calls.map fun call => eventPayload call.1.click := by
      apply ih fun call' h => hip call' (by simp [h])
      rw [hhead, List.length_append, List.length_singleton]
      omega
    change (trackAll calls (trackClick call.1 call.2 s)).buffer = _
    rw [hrest, hhead, List.append_assoc]
    rfl

lemma tracked_click {call : TrackCall} (hip : isIP call.ip ≠ 0) (hid : IsNumeral call.urlId) :
    Tracked call.click :=
  ⟨call.click_valid hid hip, sanitize_clean _, sanitize_clean _⟩

/-- `n` flushes in a row. -/
def flushed (batchSize n : ℕ) (raws : List JsString) : Stores :=
  (flush batchSize served)^[n] ⟨raws, []⟩

/-- `n` calls of `processBufferedClicks` in a row. -/
def processed (isZero : JsString → Bool) (batchSize n : ℕ) (raws : List JsString) : Drain :=
  (fun d => (processBufferedClicks isZero healthy batchSize d).1)^[n] ⟨raws, []⟩

section Drained
variable {clicks : List TrackedClick} (h : ∀ c ∈ clicks, Tracked c) (batchSize n : ℕ)
include h

lemma flushed_payloads : flushed batchSize n (clicks.map eventPayload) =
    ⟨(clicks.drop (n * batchSize)).map eventPayload,
      (clicks.take (n * batchSize)).map workerRow⟩ :=
  iterate_batches (flush batchSize served) (fun clicks rows => ⟨clicks.map eventPayload, rows⟩)
    (fun _ rows h => flush_payloads batchSize rows h) n [] h

lemma processed_payloads (isZero : JsString → Bool) :
    processed isZero batchSize n (clicks.map eventPayload) =
      ⟨(clicks.drop (n * batchSize)).map eventPayload,
        (clicks.take (n * batchSize)).map rowOfClick⟩ :=
  iterate_batches (fun d => (processBufferedClicks isZero healthy batchSize d).1)
    (fun clicks rows => ⟨clicks.map eventPayload, rows⟩)
    (fun clicks rows _ => by rw [processBufferedClicks_payloads]) n [] h

end Drained

/-- Both consumers empty the buffer, and then each has inserted one row for each call, in the
order of the calls, and the same rows. -/
theorem consumers_agree (isZero : JsString → Bool) {s : Metrics} {calls : List (TrackCall × ℤ)}
    {batchSize₁ batchSize₂ : ℕ} (hempty : s.buffer = [])
    (hcalls : ∀ call ∈ calls, isIP call.1.ip ≠ 0 ∧ IsNumeral call.1.urlId)
    (hroom : calls.length < MAX_BUFFER_SIZE) (h₁ : 1 ≤ batchSize₁) (h₂ : 1 ≤ batchSize₂) :
    let raws := (trackAll calls s).buffer
    let rows := calls.map fun call => rowOfClick call.1.click
    raws = (calls.map fun call => eventPayload call.1.click) ∧
    (∃ m, (flushed batchSize₁ m raws).buffer = []) ∧
    (∃ n, (processed isZero batchSize₂ n raws).buffer = []) ∧
    (∀ m, (flushed batchSize₁ m raws).buffer = [] →
      (flushed batchSize₁ m raws).clicks.map bound = rows) ∧
    ∀ n, (processed isZero batchSize₂ n raws).buffer = [] →
      (processed isZero batchSize₂ n raws).clicks = rows := by
  intro raws rows
  let clicks := calls.map fun call => call.1.click
  have hclicks : ∀ c ∈ clicks, Tracked c := by
    intro c hc
    obtain ⟨call, hcall, rfl⟩ := List.mem_map.mp hc
    exact tracked_click (hcalls call hcall).1 (hcalls call hcall).2
  have hraws : raws = calls.map fun call => eventPayload call.1.click := by
    have hfits : s.buffer.length + calls.length ≤ MAX_BUFFER_SIZE := by
      rw [hempty, List.length_nil]
      omega
    have hbuffer := trackAll_buffer (fun call h => (hcalls call h).1) hfits
    rwa [hempty, List.nil_append] at hbuffer
  have hpayloads : raws = clicks.map eventPayload := by rw [hraws, List.map_map]; rfl
  have hrows : rows = clicks.map rowOfClick := by rw [List.map_map]; rfl
  have hlength : clicks.length = calls.length := List.length_map _
  refine ⟨hraws, ⟨calls.length, ?_⟩, ⟨calls.length, ?_⟩, fun m hm => ?_, fun n hn => ?_⟩
  · rw [hpayloads, flushed_payloads hclicks, List.map_eq_nil_iff, List.drop_eq_nil_iff, hlength]
    exact Nat.le_mul_of_pos_right _ h₁
  · rw [hpayloads, processed_payloads hclicks, List.map_eq_nil_iff, List.drop_eq_nil_iff, hlength]
    exact Nat.le_mul_of_pos_right _ h₂
  · rw [hpayloads, flushed_payloads hclicks, List.map_eq_nil_iff, List.drop_eq_nil_iff] at hm
    rw [hpayloads, flushed_payloads hclicks, List.take_of_length_le hm, List.map_map, hrows]
    exact List.map_congr_left fun c hc => bound_workerRow (hclicks c hc)
  · rw [hpayloads, processed_payloads hclicks, List.map_eq_nil_iff, List.drop_eq_nil_iff] at hn
    rw [hpayloads, processed_payloads hclicks, List.take_of_length_le hn, hrows]

def twoCalls : List (TrackCall × ℤ) :=
  [(⟨decimal 1, js "127.0.0.1", js "<b>agent</b>", [], 0⟩, 1),
    (⟨decimal 27, js "::1", js "agent", js "http://a.example", 2⟩, 3)]

theorem consumers_agree_twoCalls : ∃ m n : ℕ,
    let raws := (trackAll twoCalls ⟨⟨[], []⟩, fun _ => 0, fun _ => []⟩).buffer
    let isZero : JsString → Bool := fun literal => literal = js "0"
    (flushed 1 m raws).buffer = [] ∧ (processed isZero 2 n raws).buffer = [] ∧
      (flushed 1 m raws).clicks.map bound = (processed isZero 2 n raws).clicks ∧
      (processed isZero 2 n raws).clicks.length = 2 := by
  have hcalls : ∀ call ∈ twoCalls, isIP call.1.ip ≠ 0 ∧ IsNumeral call.1.urlId := by
    have hips : ∀ call ∈ twoCalls, isIP call.1.ip ≠ 0 := by decide +kernel
    have hids : ∀ call ∈ twoCalls, IsNumeral call.1.urlId := by
      simp only [twoCalls, List.forall_mem_cons]
      exact ⟨decimal_digits 1, decimal_digits 27, nofun⟩
    exact fun call hcall => ⟨hips call hcall, hids call hcall⟩
  obtain ⟨-, ⟨m, hm⟩, ⟨n, hn⟩, hflushed, hprocessed⟩ :=
    consumers_agree (fun literal => literal = js "0") (s := ⟨⟨[], []⟩, fun _ => 0, fun _ => []⟩)
      rfl hcalls (by decide) (le_refl 1) one_le_two
  refine ⟨m, n, hm, hn, (hflushed m hm).trans (hprocessed n hn).symm, ?_⟩
  rw [hprocessed n hn]
  rfl

end UrlShortener.ClickConsumers
