import UrlShortener.NetAddress
import UrlShortener.PatternDelimited
import UrlShortener.TransitionRun

/-! `AnalyticsFlushWorker`: one flush cycle as a function of the replies that it gets, and
what becomes of every event that it has popped. -/
namespace UrlShortener.FlushWorker
open Js Json Pattern Transition

/-- An event that passes validation; `url_id` is a number, kept as its literal, or a numeric string,
and `ip_address` is bound as it was parsed. -/
structure ClickEvent where
  url_id : Json
  timestamp : JsString
  ip_address : Json
  user_agent : JsString
  referer : JsString

/-- `/<[^>]*>?/gm` -/
def tag : Pattern CodeUnit := [.one (oneOf "<"), .star (noneOf ">"), .opt (oneOf ">")]

/-- Of an empty string nothing is left anyway. -/
def sanitize (value : JsString) : JsString := (trim (deleteAll tag value)).take 512

/-- The test of `url_id`. -/
def isUrlId : Json → Bool
  | .num _ => true
  | .str s => !s.isEmpty && isNumericText s
  | _ => false

/-- The text under which `isIP` reads a value. A list of one is read as its element; the
text of a longer list has a comma, and that of any other value is no address. -/
def addressText : Json → Option JsString
  | .str s => some s
  | .arr [v] => addressText v
  | _ => none

def isAddress (v : Json) : Bool := (addressText v).any fun s => isIP s ≠ 0

/-- `validateEvent`, with the event that it has narrowed its argument to. -/
def validateEvent (event : Json) : Option ClickEvent :=
  match event.prop "url_id", event.prop "timestamp", event.prop "ip_address",
    event.prop "user_agent", event.prop "referer" with
  | some urlId, some (.str timestamp), some ip, some (.str userAgent), some (.str referer) =>
    if isUrlId urlId && isAddress ip then some ⟨urlId, timestamp, ip, userAgent, referer⟩
    else none
  | _, _, _, _, _ => none

/-- What is left of a raw event: it is discarded where it does not parse and where it
fails validation. -/
def parseEvent (raw : JsString) : Option ClickEvent := (parse raw).bind validateEvent

/-- The five parameters that the INSERT binds for an event. -/
structure ClickRow where
  url_id : Json
  timestamp : JsString
  ip_address : Json
  user_agent : JsString
  referer : JsString

def rowOf (e : ClickEvent) : ClickRow :=
  ⟨e.url_id, e.timestamp, e.ip_address, sanitize e.user_agent, sanitize e.referer⟩

/-- The rows of a batch. -/
def parsedRows (rawEvents : List JsString) : List ClickRow :=
  (rawEvents.filterMap parseEvent).map rowOf

/-- The list `analytics:buffer` and the table `clicks`. -/
structure Stores where
  buffer : List JsString
  clicks : List ClickRow

def Stores.push (s : Stores) (raws : List JsString) : Stores :=
  { s with buffer := s.buffer ++ raws }

def Stores.insert (s : Stores) (rows : List ClickRow) : Stores :=
  { s with clicks := s.clicks ++ rows }

def isTransient (err : DbError) : Bool := err.hasCode ["08001", "08003", "08006", "57P01"]

/-! One cycle. -/

/-- The outcome of each awaited call: `none` where it succeeds. -/
structure FlushReplies where
  onConnect : Option DbError
  onBegin : Option DbError
  onInsert : Option DbError
  onCommit : Option DbError
  onRollback : Option DbError

/-- The error that ends the `try` block of `persistBatch`, if one does. -/
def FlushReplies.failure (o : FlushReplies) : Option DbError :=
  o.onBegin.or (o.onInsert.or o.onCommit)

/-- The `catch` block: a failing ROLLBACK throws out of it. -/
def recover (o : FlushReplies) (err : DbError) (rawEvents : List JsString) (s : Stores) : Stores :=
  match o.onRollback with
  | some _ => s
  | none => if isTransient err then s.push rawEvents else s

def persistBatch (o : FlushReplies) (rawEvents : List JsString) (s : Stores) : Stores :=
  if parsedRows rawEvents = [] then s
  else
    match o.onConnect with
    | some _ => s
    | none =>
      match o.failure with
      | some err => recover o err rawEvents s
      | none => s.insert (parsedRows rawEvents)

/-- `flush`: pop at most a batch and persist it. Whatever `persistBatch` throws is logged. -/
def flush (batchSize : ℕ) (o : FlushReplies) (s : Stores) : Stores :=
  let popped := s.buffer.take batchSize
  let s' : Stores := { s with buffer := s.buffer.drop batchSize }
  if popped = [] then s' else persistBatch o popped s'

/-! What becomes of a popped event. -/

inductive Fate
  | inserted
  | requeued
  | malformed
  | refused
  deriving DecidableEq

def pick (fate : Fate) (marked : List (JsString × Fate)) : List JsString :=
  (marked.filter fun m => m.2 = fate).map Prod.fst

/-- The INSERT is sent and rejected for its data. -/
def FlushReplies.RefusesData (o : FlushReplies) : Prop :=
  o.onConnect = none ∧ o.onBegin = none ∧
    ∃ err, o.onInsert = some err ∧ (err.inClass "22" || err.inClass "23") = true

/-- Each popped event can be marked with one place where it is now: a row of `clicks`, the
buffer, or among those that were malformed or whose data the database refused. -/
structure Settled (batchSize : ℕ) (o : FlushReplies) (s s' : Stores)
    (marked : List (JsString × Fate)) : Prop where
  popped : marked.map Prod.fst = s.buffer.take batchSize
  buffer : s'.buffer = s.buffer.drop batchSize ++ pick .requeued marked
  clicks : s'.clicks = s.clicks ++ parsedRows (pick .inserted marked)
  inserted : ∀ raw ∈ pick .inserted marked, (parseEvent raw).isSome
  malformed : ∀ raw ∈ pick .malformed marked, parseEvent raw = none
  refused : ∀ raw ∈ pick .refused marked, (parseEvent raw).isSome ∧ o.RefusesData

def NoneLost (batchSize : ℕ) (o : FlushReplies) (s : Stores) : Prop :=
  ∃ marked, Settled batchSize o s (flush batchSize o s) marked

/-- Nothing valid was popped, or the batch was connected and then committed, rolled back and
re-queued, or refused for its data. -/
def Keeps (batchSize : ℕ) (o : FlushReplies) (s : Stores) : Prop :=
  (∀ raw ∈ s.buffer.take batchSize, parseEvent raw = none) ∨
    (o.onConnect = none ∧ (o.failure = none ∨
      (∃ err, o.failure = some err ∧ isTransient err = true ∧ o.onRollback = none))) ∨
    o.RefusesData

lemma parsedRows_eq_nil {rawEvents : List JsString} :
    parsedRows rawEvents = [] ↔ ∀ raw ∈ rawEvents, parseEvent raw = none := by
  simp [parsedRows]

lemma flush_eq (batchSize : ℕ) (o : FlushReplies) (s : Stores) :
    flush batchSize o s =
      persistBatch o (s.buffer.take batchSize) { s with buffer := s.buffer.drop batchSize } := by
  rw [flush]
  split_ifs with h
  · rw [h, persistBatch, if_pos (by simp [parsedRows])]
  · rfl

lemma mem_pick {fate : Fate} {marked : List (JsString × Fate)} {raw : JsString} :
    raw ∈ pick fate marked ↔ (raw, fate) ∈ marked := by
  simp [pick]

lemma map_fst_mark (rule : JsString → Fate) (raws : List JsString) :
    (raws.map fun raw => (raw, rule raw)).map Prod.fst = raws := by
  simp [Function.comp_def]

/-- Marking by a rule: the picked events are those that the rule sends there. -/
lemma pick_map (fate : Fate) (rule : JsString → Fate) (raws : List JsString) :
    pick fate (raws.map fun raw => (raw, rule raw)) =
      raws.filter fun raw => rule raw = fate := by
  induction raws with
  | nil => rfl
  | cons raw raws ih =>
    by_cases h : rule raw = fate <;> simp_all [pick]

lemma parsedRows_filter_isSome (raws : List JsString) :
    parsedRows (raws.filter fun raw => (parseEvent raw).isSome) = parsedRows raws := by
  rw [parsedRows, parsedRows, List.filterMap_filter]
  congr 2
  funext raw
  cases parseEvent raw <;> rfl

/-- A valid event is kept in one of two places; the others are malformed. -/
def markValid (fate : Fate) (raw : JsString) : Fate :=
  if (parseEvent raw).isSome then fate else .malformed

lemma pick_markValid {fate : Fate} (hf : fate ≠ .malformed) (raws : List JsString) :
    pick fate (raws.map fun raw => (raw, markValid fate raw)) =
      raws.filter fun raw => (parseEvent raw).isSome := by
  rw [pick_map]
  apply List.filter_congr
  intro raw _
  cases h : (parseEvent raw).isSome <;> simp [markValid, h, hf.symm]

lemma pick_markValid_other {fate other : Fate} (ho : other ≠ fate) (hm : other ≠ .malformed)
    (raws : List JsString) : pick other (raws.map fun raw => (raw, markValid fate raw)) = [] := by
  rw [pick_map]
  apply List.filter_eq_nil_iff.mpr
  intro raw _
  cases h : (parseEvent raw).isSome <;> simp [markValid, h, ho.symm, hm.symm]

lemma malformed_of_markValid {fate : Fate} (hf : fate ≠ .malformed) {raws : List JsString}
    {raw : JsString} (h : raw ∈ pick .malformed (raws.map fun r => (r, markValid fate r))) :
    parseEvent raw = none := by
  rw [pick_map, List.mem_filter] at h
  by_contra hne
  have hsome : (parseEvent raw).isSome := Option.isSome_iff_ne_none.mpr hne
  simp [markValid, hsome, hf] at h

section Cycle
variable {batchSize : ℕ} {o : FlushReplies} {s : Stores}

lemma persistBatch_of_none {raws : List JsString} {s : Stores}
    (h : ∀ raw ∈ raws, parseEvent raw = none) : persistBatch o raws s = s :=
  if_pos (parsedRows_eq_nil.mpr h)

lemma persistBatch_refused {raws : List JsString} {s : Stores} (h : o.RefusesData) :
    persistBatch o raws s = s := by
  obtain ⟨hc, hb, err, hi, hcls⟩ := h
  have hfail : o.failure = some err := by simp [FlushReplies.failure, hb, hi]
  have htrans : isTransient err = false := by
    by_contra ht
    have ht : isTransient err = true := by simpa using ht
    have h22 : err.inClass "22" = false := DbError.not_inClass_of_hasCode (by decide) ht
    have h23 : err.inClass "23" = false := DbError.not_inClass_of_hasCode (by decide) ht
    simp [h22, h23] at hcls
  rw [persistBatch]
  split_ifs with hp
  · rfl
  · simp only [hc, hfail, recover, htrans]
    cases o.onRollback <;> rfl

/-- Where no event changes its place, the valid ones must have been refused. -/
lemma settled_dropped (h : flush batchSize o s = { s with buffer := s.buffer.drop batchSize })
    (hr : (∀ raw ∈ s.buffer.take batchSize, parseEvent raw = none) ∨ o.RefusesData) :
    NoneLost batchSize o s := by
  refine ⟨(s.buffer.take batchSize).map fun raw => (raw, markValid .refused raw), ?_⟩
  have hins : pick .inserted
      ((s.buffer.take batchSize).map fun raw => (raw, markValid .refused raw)) = [] :=
    pick_markValid_other (by decide) (by decide) _
  refine ⟨map_fst_mark _ _, ?_, ?_, ?_, fun raw => malformed_of_markValid (by decide), ?_⟩
  · rw [h, pick_markValid_other (by decide) (by decide), List.append_nil]
  · rw [h, hins]
    simp [parsedRows]
  · rw [hins]
    exact fun raw hm => nomatch hm
  · rw [pick_markValid (by decide)]
    intro raw hm
    obtain ⟨hmem, hsome⟩ := List.mem_filter.mp hm
    refine ⟨hsome, hr.resolve_left fun hnone => ?_⟩
    simp [hnone raw hmem] at hsome

lemma settled_inserted (h : flush batchSize o s =
      { s with buffer := s.buffer.drop batchSize }.insert
        (parsedRows (s.buffer.take batchSize))) : NoneLost batchSize o s := by
  refine ⟨(s.buffer.take batchSize).map fun raw => (raw, markValid .inserted raw), ?_⟩
  refine ⟨map_fst_mark _ _, ?_, ?_, ?_, fun raw => malformed_of_markValid (by decide), ?_⟩
  · rw [h, pick_markValid_other (by decide) (by decide), List.append_nil]
    rfl
  · rw [h, pick_markValid (by decide), parsedRows_filter_isSome]
    rfl
  · rw [pick_markValid (by decide)]
    exact fun raw hm => (List.mem_filter.mp hm).2
  · rw [pick_markValid_other (by decide) (by decide)]
    exact fun raw hm => nomatch hm

lemma settled_requeued (h : flush batchSize o s =
      { s with buffer := s.buffer.drop batchSize }.push (s.buffer.take batchSize)) :
    NoneLost batchSize o s := by
  have hall : pick .requeued ((s.buffer.take batchSize).map fun raw => (raw, .requeued)) =
      s.buffer.take batchSize := by
    rw [pick_map]
    simp
  have hnone : ∀ fate ≠ Fate.requeued,
      pick fate ((s.buffer.take batchSize).map fun raw => (raw, .requeued)) = [] := by
    intro fate hf
    rw [pick_map]
    simp [hf.symm]
  refine ⟨(s.buffer.take batchSize).map fun raw => (raw, .requeued), ?_⟩
  refine ⟨map_fst_mark _ _, ?_, ?_, ?_, ?_, ?_⟩
  · rw [h, hall]
    rfl
  · rw [h, hnone _ (by decide)]
    simp [parsedRows, Stores.push]
  all_goals
    rw [hnone _ (by decide)]
    exact fun raw hm => nomatch hm

/-- A valid event that is nowhere and was not refused is lost. -/
lemma lost_of_dropped (h : flush batchSize o s = { s with buffer := s.buffer.drop batchSize })
    (hnone : ¬ ∀ raw ∈ s.buffer.take batchSize, parseEvent raw = none) (hdata : ¬ o.RefusesData) :
    ¬ NoneLost batchSize o s := by
  rintro ⟨marked, hs⟩
  have hre : pick .requeued marked = [] := by
    have := hs.buffer
    rw [h] at this
    simpa using this
  have hins : parsedRows (pick .inserted marked) = [] := by
    have := hs.clicks
    rw [h] at this
    simpa using this
  apply hnone
  intro raw hm
  rw [← hs.popped] at hm
  obtain ⟨⟨raw, fate⟩, hmark, rfl⟩ := List.mem_map.mp hm
  have hp : raw ∈ pick fate marked := mem_pick.mpr hmark
  cases fate with
  | inserted => exact parsedRows_eq_nil.mp hins raw hp
  | requeued => simp [hre] at hp
  | malformed => exact hs.malformed raw hp
  | refused => exact absurd (hs.refused raw hp).2 hdata

/-- Nothing is lost exactly in the cycles that keep their batch. -/
theorem noneLost_iff (batchSize : ℕ) (o : FlushReplies) (s : Stores) :
    NoneLost batchSize o s ↔ Keeps batchSize o s := by
  have hflush := flush_eq batchSize o s
  by_cases hnone : ∀ raw ∈ s.buffer.take batchSize, parseEvent raw = none
  · rw [persistBatch_of_none hnone] at hflush
    exact iff_of_true (settled_dropped hflush (.inl hnone)) (.inl hnone)
  by_cases hdata : o.RefusesData
  · rw [persistBatch_refused hdata] at hflush
    exact iff_of_true (settled_dropped hflush (.inr hdata)) (.inr (.inr hdata))
  rw [persistBatch, if_neg (mt parsedRows_eq_nil.mp hnone)] at hflush
  cases hc : o.onConnect with
  | some err =>
    simp only [hc] at hflush
    exact iff_of_false (lost_of_dropped hflush hnone hdata) (by simp [Keeps, hnone, hdata, hc])
  | none =>
  cases hf : o.failure with
  | none =>
    simp only [hc, hf] at hflush
    exact iff_of_true (settled_inserted hflush) (.inr (.inl ⟨hc, .inl hf⟩))
  | some err =>
  simp only [hc, hf, recover] at hflush
  cases hr : o.onRollback with
  | some err' =>
    simp only [hr] at hflush
    exact iff_of_false (lost_of_dropped hflush hnone hdata)
      (by simp [Keeps, hnone, hdata, hc, hf, hr])
  | none =>
  cases ht : isTransient err with
  | false =>
    simp only [hr, ht] at hflush
    exact iff_of_false (lost_of_dropped hflush hnone hdata)
      (by simp [Keeps, hnone, hdata, hc, hf, hr, ht])
  | true =>
    simp only [hr, ht] at hflush
    exact iff_of_true (settled_requeued hflush) (.inr (.inl ⟨hc, .inr ⟨err, hf, ht, hr⟩⟩))

end Cycle

/-! Runs of cycles, with what is pushed in between. -/

structure Cycle where
  pushed : List JsString
  replies : FlushReplies

/-- `P` holds of every cycle of a run. -/
def EveryCycle (batchSize : ℕ) (P : FlushReplies → Stores → Prop) : Stores → List Cycle → Prop
  | _, [] => True
  | s, c :: cs =>
    P c.replies (s.push c.pushed) ∧
      EveryCycle batchSize P (flush batchSize c.replies (s.push c.pushed)) cs

lemma EveryCycle.congr {batchSize : ℕ} {P Q : FlushReplies → Stores → Prop}
    (h : ∀ o s, P o s ↔ Q o s) (cs : List Cycle) (s : Stores) :
    EveryCycle batchSize P s cs ↔ EveryCycle batchSize Q s cs := by
  induction cs generalizing s with
  | nil => exact Iff.rfl
  | cons c cs ih => exact and_congr (h _ _) (ih _)

/-- No cycle of a run loses an event exactly when each of them keeps its batch. -/
theorem run_noneLost_iff (batchSize : ℕ) (s : Stores) (cs : List Cycle) :
    EveryCycle batchSize (NoneLost batchSize) s cs ↔ EveryCycle batchSize (Keeps batchSize) s cs :=
  EveryCycle.congr (noneLost_iff batchSize) cs s

/-- A click as `trackClick` writes it. -/
def sampleClick : JsString :=
  stringify (.obj [(js "url_id", .str (js "1")),
    (js "timestamp", .str (js "2023-01-01T00:00:00.000Z")),
    (js "ip_address", .str (js "127.0.0.1")), (js "user_agent", .str (js "agent")),
    (js "referer", .str [])])

/-- The pool cannot connect. -/
def noConnection : FlushReplies := ⟨some ⟨some (js "08001"), js "refused"⟩, none, none, none, none⟩

/-- A click that was popped before the connection failed is nowhere afterwards. -/
theorem click_lost_without_connection : ¬ EveryCycle 500 (NoneLost 500) ⟨[sampleClick], []⟩
    [⟨[], noConnection⟩] := by
  rintro ⟨h, -⟩
  change NoneLost 500 noConnection ⟨[sampleClick], []⟩ at h
  have hvalid : (parseEvent sampleClick).isSome := by decide +kernel
  have hnone : ¬ ∀ raw ∈ [sampleClick], parseEvent raw = none := by
    intro hall
    simp [hall sampleClick (by simp)] at hvalid
  have hflush : flush 500 noConnection ⟨[sampleClick], []⟩ = ⟨[], []⟩ := by
    rw [flush_eq]
    exact if_neg (mt parsedRows_eq_nil.mp hnone)
  exact lost_of_dropped hflush hnone (by simp [FlushReplies.RefusesData, noConnection]) h

/-! What `sanitize` removes. -/

lemma not_mem_deleteAll_tag (value : JsString) : unit '<' ∉ deleteAll tag value := by
  intro hmem
  have hclean : oneOf "<" (unit '<') = false := by
    have htag : deleteAll tag value = scan (oneOf "<") (oneOf ">") false value :=
      deleteAll_delimited value
    rw [htag] at hmem
    exact scan_clean false value _ hmem
  exact absurd hclean (by decide)

/-- Exactly the tags are deleted, each from its `<` through the next `>` or through the end;
what is stored has no `<` and at most 512 code units. -/
theorem sanitize_strips_tags (value : JsString) :
    (∀ text, deleteAll tag value = text ↔ Stripped (oneOf "<") (oneOf ">") value text) ∧
    sanitize value = (trim (deleteAll tag value)).take 512 ∧
    unit '<' ∉ sanitize value ∧ (sanitize value).length ≤ 512 := by
  refine ⟨fun text => ?_, rfl, fun hmem => ?_, ?_⟩
  · rw [stripped_iff_scan, ← deleteAll_delimited value]
    exact Iff.rfl
  · have htrim := (infix_trimBy isWhiteSpace _).subset (List.mem_of_mem_take hmem)
    exact not_mem_deleteAll_tag value htrim
  · exact (List.length_take_le 512 _)

example : sanitize (js " a<b<c>d>e<f ") = js "ad>e" := by decide

end UrlShortener.FlushWorker
