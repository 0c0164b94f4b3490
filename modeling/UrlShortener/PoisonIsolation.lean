import UrlShortener.AnalyticsFlushWorker

/-! What one unstorable event does to the batch that the flush worker inserts with it. -/
namespace UrlShortener.FlushWorker
open Js Json

/-- Which values the columns of `clicks` accept, and the error for a statement with a value
that one of them does not: a data exception or a violated constraint. -/
structure Postgres where
  acceptsUrlId : Json → Bool
  acceptsTimestamp : JsString → Bool
  acceptsAddress : Json → Bool
  refusal : List ClickRow → DbError
  refusal_class : ∀ rows, ((refusal rows).inClass "22" || (refusal rows).inClass "23") = true

def Postgres.accepts (db : Postgres) (row : ClickRow) : Bool :=
  db.acceptsUrlId row.url_id && db.acceptsTimestamp row.timestamp &&
    db.acceptsAddress row.ip_address

/-- A reachable server: only the INSERT can fail, and only for its values. -/
def Postgres.replies (db : Postgres) (rows : List ClickRow) : FlushReplies where
  onConnect := none
  onBegin := none
  onInsert := if rows.all db.accepts then none else some (db.refusal rows)
  onCommit := none
  onRollback := none

/-- A flush against the server. -/
def flushInto (db : Postgres) (batchSize : ℕ) (s : Stores) : Stores :=
  flush batchSize (db.replies (parsedRows (s.buffer.take batchSize))) s

/-- Every event of the batch whose row is acceptable by itself is inserted. -/
def Isolated (db : Postgres) (batchSize : ℕ) (s : Stores) : Prop :=
  ∃ inserted, (flushInto db batchSize s).clicks = s.clicks ++ inserted ∧
    ((parsedRows (s.buffer.take batchSize)).filter db.accepts).Sublist inserted

section Batch
variable {db : Postgres} {batchSize : ℕ} {s : Stores}

/-- All values are acceptable: the batch is inserted. -/
lemma flushInto_of_accepted (h : (parsedRows (s.buffer.take batchSize)).all db.accepts = true) :
    flushInto db batchSize s =
      ⟨s.buffer.drop batchSize, s.clicks ++ parsedRows (s.buffer.take batchSize)⟩ := by
  have hreplies : db.replies (parsedRows (s.buffer.take batchSize)) =
      ⟨none, none, none, none, none⟩ := by
    rw [Postgres.replies, if_pos h]
  rw [flushInto, flush_eq, hreplies, persistBatch]
  by_cases hnil : parsedRows (s.buffer.take batchSize) = []
  · rw [if_pos hnil, hnil, List.append_nil]
  · rw [if_neg hnil]
    rfl

/-- One value is not: the batch is gone. -/
lemma flushInto_of_refused (h : (parsedRows (s.buffer.take batchSize)).all db.accepts = false) :
    flushInto db batchSize s = ⟨s.buffer.drop batchSize, s.clicks⟩ := by
  have hrefuses : (db.replies (parsedRows (s.buffer.take batchSize))).RefusesData := by
    refine ⟨rfl, rfl, db.refusal (parsedRows (s.buffer.take batchSize)), ?_, db.refusal_class _⟩
    rw [Postgres.replies, h]
    rfl
  rw [flushInto, flush_eq, persistBatch_refused hrefuses]

lemma isolated_of_refused (h : (parsedRows (s.buffer.take batchSize)).all db.accepts = false) :
    Isolated db batchSize s ↔
      (parsedRows (s.buffer.take batchSize)).filter db.accepts = [] := by
  rw [Isolated, flushInto_of_refused h]
  constructor
  · intro hisolated
    obtain ⟨inserted, hclicks, hsub⟩ := hisolated
    obtain rfl : inserted = [] := by simpa using hclicks
    exact List.sublist_nil.mp hsub
  · intro hfilter
    exact ⟨[], by simp, by rw [hfilter]⟩

end Batch

/-- A batch is inserted as a whole or discarded as a whole; so every acceptable event of it is
inserted exactly when all that pass validation are acceptable, or none is. -/
theorem isolated_iff (db : Postgres) (batchSize : ℕ) (s : Stores) :
    let rows := parsedRows (s.buffer.take batchSize)
    (flushInto db batchSize s).buffer = s.buffer.drop batchSize ∧
    (flushInto db batchSize s).clicks = s.clicks ++ (if rows.all db.accepts then rows else []) ∧
    (Isolated db batchSize s ↔
      (∀ row ∈ rows, db.accepts row = true) ∨ ∀ row ∈ rows, db.accepts row = false) := by
  intro rows
  cases hall : rows.all db.accepts with
  | true =>
    have hflush : flushInto db batchSize s = ⟨s.buffer.drop batchSize, s.clicks ++ rows⟩ :=
      flushInto_of_accepted hall
    rw [hflush, Isolated, hflush]
    exact ⟨rfl, rfl, iff_of_true ⟨rows, rfl, List.filter_sublist⟩ (.inl (List.all_eq_true.mp hall))⟩
  | false =>
    have hnot : ¬ ∀ row ∈ rows, db.accepts row = true := by
      intro h
      rw [List.all_eq_true.mpr h] at hall
      exact Bool.noConfusion hall
    rw [flushInto_of_refused hall, isolated_of_refused hall]
    refine ⟨rfl, by simp, ?_⟩
    rw [List.filter_eq_nil_iff, or_iff_right hnot]
    simp [rows]

/-- A server with one row in `urls`, that of the id 1. -/
def oneUrl : Postgres where
  acceptsUrlId urlId := match urlId with
    | .str s => s = js "1"
    | _ => false
  acceptsTimestamp _ := true
  acceptsAddress ip := isAddress ip
  refusal _ := ⟨some (js "23503"), js "violates foreign key constraint"⟩
  refusal_class _ := by decide

/-- A valid event whose URL was deleted. -/
def strayClick : JsString :=
  stringify (.obj [(js "url_id", .str (js "2")),
    (js "timestamp", .str (js "2023-01-01T00:00:00.000Z")),
    (js "ip_address", .str (js "127.0.0.1")), (js "user_agent", .str (js "agent")),
    (js "referer", .str [])])

def strayBatch : Stores := ⟨[sampleClick, strayClick], []⟩

/-- The stray click takes its neighbour with it. -/
theorem batch_lost_with_stray : ¬ ∀ db batchSize s, Isolated db batchSize s := by
  intro hall
  have hrefused : (parsedRows (strayBatch.buffer.take 2)).all oneUrl.accepts = false := by
    decide +kernel
  have hone : ((parsedRows (strayBatch.buffer.take 2)).filter oneUrl.accepts).length = 1 := by
    decide +kernel
  rw [(isolated_of_refused hrefused).mp (hall oneUrl 2 strayBatch)] at hone
  exact absurd hone (by decide)

end UrlShortener.FlushWorker
