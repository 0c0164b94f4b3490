import UrlShortener.AnalyticsFlushWorker

/-! The flush cycle cut at its awaited calls, and its run on the replies of one cycle. -/
namespace UrlShortener.FlushWorker
open Js Transition

/-- What a flush awaits and the events that it holds meanwhile: nothing, the LPOP commands
of its pipeline that are still to be served, or one of the calls of `persistBatch`. -/
inductive FlushPc
  | idle
  | popping (remaining : ℕ) (events : List JsString)
  | connecting (rawEvents : List JsString)
  | beginning (rawEvents : List JsString)
  | inserting (rawEvents : List JsString)
  | committing (rawEvents : List JsString)
  | rollingBack (rawEvents : List JsString) (err : DbError)
  | requeueing (raw : JsString) (rest : List JsString)
  deriving DecidableEq

inductive FlushReply
  | done
  | fail (err : DbError)
  deriving DecidableEq

/-- A batch without valid events is not persisted. -/
def enterPersist (events : List JsString) : FlushPc :=
  if parsedRows events = [] then .idle else .connecting events

def enterRequeue : List JsString → FlushPc
  | [] => .idle
  | raw :: rest => .requeueing raw rest

/-- One step of a flush. An LPOP that returns an error or no string adds nothing; the
pipeline is awaited as a whole. -/
def flushStep (reply : FlushReply) (s : Stores) (pc : FlushPc) : Option (Stores × FlushPc) :=
  match pc, reply with
  | .idle, _ => none
  | .popping (n + 1) events, .done =>
    match s.buffer with
    | [] => some (s, .popping n events)
    | raw :: rest => some ({ s with buffer := rest }, .popping n (events ++ [raw]))
  | .popping (n + 1) events, .fail _ => some (s, .popping n events)
  | .popping 0 events, .done => some (s, enterPersist events)
  | .popping 0 _, .fail _ => some (s, .idle)
  | .connecting rawEvents, .done => some (s, .beginning rawEvents)
  | .connecting _, .fail _ => some (s, .idle)
  | .beginning rawEvents, .done => some (s, .inserting rawEvents)
  | .beginning rawEvents, .fail err => some (s, .rollingBack rawEvents err)
  | .inserting rawEvents, .done => some (s, .committing rawEvents)
  | .inserting rawEvents, .fail err => some (s, .rollingBack rawEvents err)
  | .committing rawEvents, .done => some (s.insert (parsedRows rawEvents), .idle)
  | .committing rawEvents, .fail err => some (s, .rollingBack rawEvents err)
  | .rollingBack rawEvents err, .done =>
    some (s, if isTransient err then enterRequeue rawEvents else .idle)
  | .rollingBack _ _, .fail _ => some (s, .idle)
  | .requeueing raw rest, .done => some (s.push [raw], enterRequeue rest)
  | .requeueing _ _, .fail _ => some (s, .idle)

/-- A flush on its own. -/
def flushAlone : System (Stores × FlushPc) FlushReply where
  next reply s := flushStep reply s.1 s.2

lemma run_reply {reply : FlushReply} {rest : List FlushReply} {s t : Stores × FlushPc}
    (h : flushStep reply s.1 s.2 = some t) :
    flushAlone.run (reply :: rest) s = flushAlone.run rest t := System.run_cons_of_next h

/-! The replies of one cycle in their order. -/

def replyOf : Option DbError → FlushReply
  | none => .done
  | some err => .fail err

def FlushReplies.recovery (o : FlushReplies) (err : DbError) (rawEvents : List JsString) :
    List FlushReply :=
  replyOf o.onRollback ::
    if o.onRollback = none ∧ isTransient err = true then rawEvents.map fun _ => .done else []

def FlushReplies.persistence (o : FlushReplies) (rawEvents : List JsString) : List FlushReply :=
  if parsedRows rawEvents = [] then []
  else replyOf o.onConnect ::
    if o.onConnect.isSome then []
    else replyOf o.onBegin ::
      match o.onBegin with
      | some err => o.recovery err rawEvents
      | none => replyOf o.onInsert ::
        match o.onInsert with
        | some err => o.recovery err rawEvents
        | none => replyOf o.onCommit ::
          match o.onCommit with
          | some err => o.recovery err rawEvents
          | none => []

def FlushReplies.script (o : FlushReplies) (batchSize : ℕ) (s : Stores) : List FlushReply :=
  List.replicate (batchSize + 1) .done ++ o.persistence (s.buffer.take batchSize)

lemma run_pops (n : ℕ) (s : Stores) (events : List JsString) :
    flushAlone.run (List.replicate n .done) (s, .popping n events) =
      some ({ s with buffer := s.buffer.drop n }, .popping 0 (events ++ s.buffer.take n)) := by
  induction n generalizing s events with
  | zero => simp [System.run]
  | succ n ih =>
    obtain ⟨buffer, clicks⟩ := s
    rw [List.replicate_succ]
    cases buffer with
    | nil => simpa using (run_reply rfl).trans (ih ⟨[], clicks⟩ events)
    | cons raw rest =>
      simpa using (run_reply rfl).trans (ih ⟨rest, clicks⟩ (events ++ [raw]))

lemma run_requeue (raws : List JsString) (s : Stores) :
    flushAlone.run (raws.map fun _ => .done) (s, enterRequeue raws) =
      some (s.push raws, .idle) := by
  induction raws generalizing s with
  | nil => simp [System.run, enterRequeue, Stores.push]
  | cons raw raws ih =>
    have hpush : (s.push [raw]).push raws = s.push (raw :: raws) := by simp [Stores.push]
    exact (run_reply rfl).trans ((ih (s.push [raw])).trans (by rw [hpush]))

lemma run_recovery (o : FlushReplies) (err : DbError) (raws : List JsString) (s : Stores) :
    flushAlone.run (o.recovery err raws) (s, .rollingBack raws err) =
      some (recover o err raws s, .idle) := by
  cases hr : o.onRollback with
  | some e => simp [FlushReplies.recovery, recover, hr, replyOf, System.run, flushAlone, flushStep]
  | none =>
    cases ht : isTransient err with
    | false =>
      simp [FlushReplies.recovery, recover, hr, ht, replyOf, System.run, flushAlone, flushStep]
    | true =>
      have hnext : flushStep .done s (.rollingBack raws err) = some (s, enterRequeue raws) := by
        simp [flushStep, ht]
      simpa [FlushReplies.recovery, recover, hr, ht, replyOf] using
        (run_reply hnext).trans (run_requeue raws s)

lemma run_persistence (o : FlushReplies) (raws : List JsString) (s : Stores) :
    flushAlone.run (o.persistence raws) (s, enterPersist raws) =
      some (persistBatch o raws s, .idle) := by
  by_cases hp : parsedRows raws = []
  · simp [FlushReplies.persistence, enterPersist, persistBatch, hp, System.run]
  rw [FlushReplies.persistence, if_neg hp, enterPersist, if_neg hp, persistBatch, if_neg hp]
  cases hc : o.onConnect with
  | some err => rfl
  | none =>
  apply (run_reply rfl).trans
  cases hb : o.onBegin with
  | some err =>
    refine (run_reply rfl).trans ((run_recovery o err raws s).trans ?_)
    simp [FlushReplies.failure, hb]
  | none =>
  apply (run_reply rfl).trans
  cases hi : o.onInsert with
  | some err =>
    refine (run_reply rfl).trans ((run_recovery o err raws s).trans ?_)
    simp [FlushReplies.failure, hb, hi]
  | none =>
  apply (run_reply rfl).trans
  cases hm : o.onCommit with
  | some err =>
    refine (run_reply rfl).trans ((run_recovery o err raws s).trans ?_)
    simp [FlushReplies.failure, hb, hi, hm]
  | none =>
    apply (run_reply rfl).trans
    simp [FlushReplies.failure, hb, hi, hm, System.run]

/-- The steps of a flush, run on their own on the replies of a cycle, compute the cycle. -/
theorem run_flush (o : FlushReplies) (batchSize : ℕ) (s : Stores) :
    flushAlone.run (o.script batchSize s) (s, .popping batchSize []) =
      some (flush batchSize o s, .idle) := by
  have hpops := run_pops batchSize s []
  rw [FlushReplies.script, List.replicate_succ', List.append_assoc, System.run_append, hpops,
    Option.bind_some, flush_eq]
  exact (run_reply rfl).trans (run_persistence o _ _)

end UrlShortener.FlushWorker
