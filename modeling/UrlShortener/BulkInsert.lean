import UrlShortener.SeparatedList
import UrlShortener.ClickConsumers

/-! The bulk INSERT of the two consumers: its text, which numbers the placeholders, its list of
parameters, and what the database reads in the one against the other. -/
namespace UrlShortener.BulkInsert
open Js Json FlushWorker ClickConsumers

/-! The statement, as both sources write it. -/

def paramCount : ℕ := 5

def placeholder (n : ℕ) : JsString := unit '$' :: decimal n

/-- The template literal of one event. -/
def template (i : ℕ) : JsString :=
  js "(" ++ placeholder (i * paramCount + 1) ++ js ", " ++ placeholder (i * paramCount + 2) ++
    js ", " ++ placeholder (i * paramCount + 3) ++ js ", " ++ placeholder (i * paramCount + 4) ++
    js ", " ++ placeholder (i * paramCount + 5) ++ js ")"

variable {ε τ : Type*}

def placeholders (parsedEvents : List ε) : JsString :=
  List.intercalate (js ",") (parsedEvents.mapIdx fun i _ => template i)

def query (parsedEvents : List ε) : JsString :=
  js "INSERT INTO clicks (url_id, timestamp, ip_address, user_agent, referer) VALUES " ++
    placeholders parsedEvents

/-- `flatParams` of `persistBatch`. -/
def workerParams (parsedEvents : List ClickEvent) : List (Option Json) :=
  parsedEvents.flatMap fun e =>
    [some e.url_id, some (.str e.timestamp), some e.ip_address,
      some (.str (FlushWorker.sanitize e.user_agent)), some (.str (FlushWorker.sanitize e.referer))]

/-- The five parameters of a row, in their order. -/
def values (row : BoundRow) : List (Option Json) :=
  [row.url_id, row.timestamp, row.ip_address, some (.str row.user_agent), some (.str row.referer)]

/-- `flatParams` of `processBufferedClicks`; `none` where it throws. -/
def serviceParams (isZero : JsString → Bool) (parsedEvents : List Json) :
    Option (List (Option Json)) :=
  (parsedEvents.mapM (bindEvent isZero)).map (List.flatMap values)

/-! How the database reads a statement. -/

inductive Token
  | word (text : JsString)
  | mark (c : CodeUnit)
  deriving DecidableEq

def isWordUnit (c : CodeUnit) : Bool := isWord c || c = unit '$'

def flushWord (pending : JsString) : List Token :=
  if pending = [] then [] else [.word pending]

/-- White space separates tokens; every other unit outside of words is a token. -/
def lex : JsString → JsString → List Token
  | pending, [] => flushWord pending
  | pending, c :: s =>
    if isWordUnit c then lex (pending ++ [c]) s
    else flushWord pending ++ if isWhiteSpace c then lex [] s else .mark c :: lex [] s

def name : Token → Option JsString
  | .word text => some text
  | .mark _ => none

def param : Token → Option ℕ
  | .word (c :: digits) => if c = unit '$' then readNumeral 10 digits else none
  | _ => none

def comma : Token := .mark (unit ',')

def parenthesized {α : Type*} (r : Reader Token α) : Reader Token (List α) :=
  Reader.between (.mark (unit '(')) (.mark (unit ')')) (Reader.sepBy comma r)

/-- An INSERT of rows of placeholders. -/
structure InsertStatement where
  table : JsString
  columns : List JsString
  tuples : List (List ℕ)

def parseInsert (text : JsString) : Option InsertStatement :=
  match lex [] text with
  | .word insert :: .word into :: .word table :: ts =>
    if insert = js "INSERT" ∧ into = js "INTO" then do
      let (columns, ts) ← parenthesized (Reader.item name) ts
      let (keyword, ts) ← Reader.item name ts
      let (tuples, ts) ← Reader.sepBy comma (parenthesized (Reader.item param)) ts
      if keyword = js "VALUES" ∧ ts = [] then some ⟨table, columns, tuples⟩ else none
    else none
  | _ => none

/-- The value of a placeholder; they count from 1. -/
def readParam {α : Type*} (params : List α) : ℕ → Option α
  | 0 => none
  | n + 1 => params[n]?

/-- A row that is to be stored, with the names of its columns. -/
abbrev NamedRow := List (JsString × Option Json)

def InsertStatement.rows (q : InsertStatement) (params : List (Option Json)) :
    Option (List NamedRow) :=
  q.tuples.mapM fun tuple =>
    if tuple.length = q.columns.length then
      (tuple.mapM (readParam params)).map fun row => q.columns.zip row
    else none

/-- The statement stores its rows in their order, or fails with one of them. `store` is what
the database does with a row for a table. -/
def execute (store : JsString → τ → NamedRow → Option τ) (text : JsString)
    (params : List (Option Json)) (t : τ) : Option τ :=
  (parseInsert text).bind fun q => (q.rows params).bind fun rows => rows.foldlM (store q.table) t

/-! The tokens of the statement. -/

def columns : List JsString :=
  [js "url_id", js "timestamp", js "ip_address", js "user_agent", js "referer"]

lemma columns_ne_nil : columns ≠ [] := List.cons_ne_nil _ _

/-- The placeholders of the `i`-th tuple. -/
def numbers (i : ℕ) : List ℕ := List.range' (i * 5 + 1) 5

def tupleTokens (i : ℕ) : List Token :=
  .mark (unit '(') ::
    List.intercalate [comma] ((numbers i).map fun n => [Token.word (placeholder n)]) ++
    [.mark (unit ')')]

lemma lex_word {w : JsString} (hw : ∀ c ∈ w, isWordUnit c = true) (pending s : JsString) :
    lex pending (w ++ s) = lex (pending ++ w) s := by
  induction w generalizing pending with
  | nil => rw [List.nil_append, List.append_nil]
  | cons c w ih =>
    have hc : isWordUnit c = true := hw c (by simp)
    rw [List.cons_append, lex, if_pos hc, ih fun d hd => hw d (by simp [hd]), List.append_assoc,
      List.singleton_append]

lemma lex_mark {c : CodeUnit} (hc : isWordUnit c = false) (hs : isWhiteSpace c = false)
    (pending s : JsString) :
    lex pending (c :: s) = flushWord pending ++ .mark c :: lex [] s := by
  rw [lex, if_neg (by simp [hc]), if_neg (by simp [hs])]

lemma lex_space (pending s : JsString) :
    lex pending (unit ' ' :: s) = flushWord pending ++ lex [] s := by
  rw [lex, if_neg (by decide), if_pos (by decide)]

/-- A word of the statement. -/
def IsWord (w : JsString) : Prop := w ≠ [] ∧ ∀ c ∈ w, isWordUnit c = true

lemma isWord_of_all {w : JsString} (hne : w ≠ []) (h : w.all isWordUnit = true) : IsWord w :=
  ⟨hne, List.all_eq_true.mp h⟩

lemma isWord_placeholder (n : ℕ) : IsWord (placeholder n) := by
  refine ⟨List.cons_ne_nil _ _, fun c hc => ?_⟩
  rcases List.mem_cons.mp hc with rfl | hc
  · decide
  · have hdigit := isDigit_of_mem_decimal hc
    simp [isWordUnit, isWord, isAlphanumeric, hdigit]

lemma IsWord.lex_mark {w : JsString} (hw : IsWord w) {c : CodeUnit} (hc : isWordUnit c = false)
    (hs : isWhiteSpace c = false) (s : JsString) :
    lex [] (w ++ c :: s) = .word w :: .mark c :: lex [] s := by
  rw [lex_word hw.2, BulkInsert.lex_mark hc hs, List.nil_append, flushWord, if_neg hw.1]
  rfl

lemma IsWord.lex_space {w : JsString} (hw : IsWord w) (s : JsString) :
    lex [] (w ++ unit ' ' :: s) = .word w :: lex [] s := by
  rw [lex_word hw.2, BulkInsert.lex_space, List.nil_append, flushWord, if_neg hw.1]
  rfl

/-- The words of a bracketed list, as columns and tuples are written. -/
lemma lex_list {ws : List JsString} (hne : ws ≠ []) (hw : ∀ w ∈ ws, IsWord w) (s : JsString) :
    lex [] (js "(" ++ List.intercalate (js ", ") ws ++ js ")" ++ s) =
      .mark (unit '(') :: List.intercalate [comma] (ws.map fun w => [Token.word w]) ++
        [.mark (unit ')')] ++ lex [] s := by
  have hopen : ∀ t, lex [] (js "(" ++ t) = .mark (unit '(') :: lex [] t :=
    lex_mark (by decide) (by decide) []
  rw [List.append_assoc, List.append_assoc, hopen]
  suffices h : lex [] (List.intercalate (js ", ") ws ++ (js ")" ++ s)) =
      List.intercalate [comma] (ws.map fun w => [Token.word w]) ++ .mark (unit ')') :: lex [] s by
    rw [h]
    simp
  induction ws with
  | nil => exact absurd rfl hne
  | cons w ws ih =>
    have hfirst := hw w (by simp)
    cases ws with
    | nil =>
      have hlast := hfirst.lex_mark (c := unit ')') (by decide) (by decide) s
      simpa [js] using hlast
    | cons w' ws =>
      have hrest := ih (List.cons_ne_nil _ _) fun v hv => hw v (List.mem_cons_of_mem _ hv)
      have hcomma : ∀ t, lex [] (w ++ (js ", " ++ t)) = .word w :: comma :: lex [] t := by
        intro t
        have hmark := hfirst.lex_mark (c := unit ',') (by decide) (by decide) (unit ' ' :: t)
        rw [lex_space] at hmark
        exact hmark
      rw [List.intercalate_cons_cons, List.append_assoc, List.append_assoc, hcomma, hrest,
        List.map_cons (l := w' :: ws), List.map_cons, List.intercalate_cons_cons]
      rfl

lemma template_eq (i : ℕ) :
    template i = js "(" ++ List.intercalate (js ", ") ((numbers i).map placeholder) ++ js ")" := by
  simp [template, numbers, paramCount, List.range', List.intercalate_cons_cons]

lemma lex_template (i : ℕ) (s : JsString) :
    lex [] (template i ++ s) = tupleTokens i ++ lex [] s := by
  have hwords : ∀ w ∈ (numbers i).map placeholder, IsWord w := by
    intro w hw
    obtain ⟨n, -, rfl⟩ := List.mem_map.mp hw
    exact isWord_placeholder n
  rw [template_eq, lex_list (by simp [numbers]) hwords, List.map_map]
  rfl

lemma lex_templates (is : List ℕ) :
    lex [] (List.intercalate (js ",") (is.map template)) =
      List.intercalate [comma] (is.map tupleTokens) := by
  induction is with
  | nil => rfl
  | cons i is ih =>
    cases is with
    | nil =>
      have hi := lex_template i []
      simpa [lex, flushWord] using hi
    | cons j is =>
      rw [List.map_cons, List.map_cons, List.map_cons, List.map_cons] at *
      rw [List.intercalate_cons_cons, List.intercalate_cons_cons, List.append_assoc, lex_template]
      have hnext := lex_mark (c := unit ',') (by decide) (by decide) []
        (List.intercalate (js ",") (template j :: is.map template))
      rw [ih] at hnext
      change tupleTokens i ++ lex [] (unit ',' :: _) = _
      rw [List.append_assoc]
      exact congrArg (tupleTokens i ++ ·) hnext

/-- What stands before the tuples. -/
def headTokens : List Token :=
  [.word (js "INSERT"), .word (js "INTO"), .word (js "clicks")] ++
    (.mark (unit '(') :: List.intercalate [comma] (columns.map fun column => [Token.word column]) ++
      [.mark (unit ')')]) ++ [.word (js "VALUES")]

lemma isWord_columns : ∀ column ∈ columns, IsWord column := by
  have hall : columns.all (fun column => !column.isEmpty && column.all isWordUnit) = true := by
    decide
  intro column hc
  have hword := List.all_eq_true.mp hall column hc
  rw [Bool.and_eq_true] at hword
  exact isWord_of_all (by simpa using hword.1) hword.2

lemma lex_head (s : JsString) :
    lex [] (js "INSERT INTO clicks (url_id, timestamp, ip_address, user_agent, referer) VALUES " ++
      s) = headTokens ++ lex [] s := by
  have htext :
      js "INSERT INTO clicks (url_id, timestamp, ip_address, user_agent, referer) VALUES " =
      js "INSERT" ++ unit ' ' :: (js "INTO" ++ unit ' ' :: (js "clicks" ++ unit ' ' ::
        (js "(" ++ List.intercalate (js ", ") columns ++ js ")" ++
          unit ' ' :: (js "VALUES" ++ [unit ' '])))) := by decide +kernel
  have hinsert : IsWord (js "INSERT") := isWord_of_all (by decide) (by decide)
  have hinto : IsWord (js "INTO") := isWord_of_all (by decide) (by decide)
  have hclicks : IsWord (js "clicks") := isWord_of_all (by decide) (by decide)
  have hvalues : IsWord (js "VALUES") := isWord_of_all (by decide) (by decide)
  simp only [htext, List.append_assoc, List.cons_append, List.nil_append, hinsert.lex_space,
    hinto.lex_space, hclicks.lex_space]
  have hlist := lex_list columns_ne_nil isWord_columns (unit ' ' :: (js "VALUES" ++ unit ' ' :: s))
  rw [lex_space, hvalues.lex_space] at hlist
  simp only [List.append_assoc] at hlist
  rw [hlist]
  simp [headTokens, flushWord]

lemma mapIdx_template (parsedEvents : List ε) :
    (parsedEvents.mapIdx fun i _ => template i) =
      (List.range parsedEvents.length).map template := by
  apply List.ext_getElem
  · simp
  · simp

lemma lex_query (parsedEvents : List ε) : lex [] (query parsedEvents) =
    headTokens ++ List.intercalate [comma] ((List.range parsedEvents.length).map tupleTokens) := by
  rw [query, lex_head, placeholders, mapIdx_template, lex_templates]

/-! The statement is read back. -/

lemma param_placeholder (n : ℕ) : param (.word (placeholder n)) = some n := by
  rw [placeholder, param, if_pos rfl, readNumeral_decimal]

lemma parenthesized_readsBack {α β : Type*} {r : Reader Token α} {write : β → List Token}
    {value : β → α} {bs : List β} (hne : bs ≠ [])
    (hr : ∀ b ∈ bs, Reader.ReadsBack r (value b) (write b)) :
    Reader.ReadsBack (parenthesized r) (bs.map value)
      (.mark (unit '(') :: List.intercalate [comma] (bs.map write) ++ [.mark (unit ')')]) :=
  Reader.bracketed_readsBack (by decide) hne hr

lemma tuple_readsBack (i : ℕ) :
    Reader.ReadsBack (parenthesized (Reader.item param)) (numbers i) (tupleTokens i) := by
  have hread := parenthesized_readsBack (List.cons_ne_nil _ _) fun n (_ : n ∈ numbers i) =>
    Reader.item_readsBack (param_placeholder n)
  rw [List.map_id'] at hread
  exact hread

lemma columns_readsBack :
    Reader.ReadsBack (parenthesized (Reader.item name)) columns
      (.mark (unit '(') ::
        List.intercalate [comma] (columns.map fun column => [Token.word column]) ++
        [.mark (unit ')')]) := by
  have hname : ∀ column ∈ columns, Reader.ReadsBack (Reader.item name) column [.word column] :=
    fun column _ => Reader.item_readsBack rfl
  have hread := parenthesized_readsBack columns_ne_nil hname
  rw [List.map_id'] at hread
  exact hread

/-- The statement has one tuple of five placeholders for each event. -/
theorem parseInsert_query {parsedEvents : List ε} (hne : parsedEvents ≠ []) :
    parseInsert (query parsedEvents) =
      some ⟨js "clicks", columns, (List.range parsedEvents.length).map numbers⟩ := by
  have hrange : List.range parsedEvents.length ≠ [] := by simpa using hne
  have hend : ([] : List Token).head? ≠ some comma := by simp
  have htuples := Reader.sepBy_readsBack hrange (fun i _ => tuple_readsBack i) hend
  have hcolumns := columns_readsBack (.word (js "VALUES") ::
    List.intercalate [comma] ((List.range parsedEvents.length).map tupleTokens))
  have hvalues : ∀ ts, Reader.item name (.word (js "VALUES") :: ts) = some (js "VALUES", ts) :=
    fun _ => rfl
  rw [List.append_nil] at htuples
  rw [parseInsert, lex_query, headTokens, List.append_assoc, List.append_assoc]
  simp only [List.cons_append, List.nil_append, and_self, if_true] at hcolumns ⊢
  simp only [hcolumns, hvalues, htuples, Option.bind_eq_bind, Option.bind_some, and_self, if_true]

/-! The numbers of the placeholders, and what they are bound to. -/

lemma flatten_numbers (n : ℕ) :
    ((List.range n).map numbers).flatten = List.range' 1 (5 * n) := by
  induction n with
  | zero => rfl
  | succ n ih =>
    have hlast : numbers n = List.range' (1 + 5 * n) 5 := by
      rw [numbers, Nat.mul_comm, Nat.add_comm]
    rw [List.range_succ, List.map_append, List.flatten_append, ih, List.map_singleton,
      List.flatten_singleton, hlast, List.range'_append_1, Nat.mul_succ]

lemma values_length (row : BoundRow) : (values row).length = 5 := rfl

lemma length_flatMap_values (rows : List BoundRow) :
    (rows.flatMap values).length = 5 * rows.length := by
  induction rows with
  | nil => rfl
  | cons row rows ih =>
    rw [List.flatMap_cons, List.length_append, ih, values_length, List.length_cons]
    ring

/-- Consecutive placeholders are bound to consecutive parameters. -/
lemma map_readParam {α : Type*} (before bound after : List α) :
    (List.range' (before.length + 1) bound.length).map (readParam (before ++ bound ++ after)) =
      bound.map some := by
  apply List.ext_getElem
  · simp
  · intro i h _
    have hi : i < bound.length := by simpa using h
    have hread : (before ++ bound ++ after)[before.length + i]? = some bound[i] := by
      rw [List.getElem?_append_left (by simp; omega), List.getElem?_append_right (by omega)]
      simp [hi]
    simp only [List.getElem_map, List.getElem_range', Nat.one_mul]
    rw [Nat.add_right_comm, readParam, hread]

lemma numbers_bound (before : List (Option Json)) {k : ℕ} (hk : before.length = 5 * k)
    (rows : List BoundRow) :
    (List.range' k rows.length).map
        (fun i => (numbers i).map (readParam (before ++ rows.flatMap values))) =
      rows.map fun row => (values row).map some := by
  induction rows generalizing before k with
  | nil => rfl
  | cons row rows ih =>
    have hlen : (before ++ values row).length = 5 * (k + 1) := by
      rw [List.length_append, hk, values_length]
      ring
    have hfirst := map_readParam before (values row) (rows.flatMap values)
    have hrest := ih (before ++ values row) hlen
    rw [hk, values_length, Nat.mul_comm, List.append_assoc] at hfirst
    rw [List.append_assoc] at hrest
    rw [List.flatMap_cons, List.length_cons, List.range'_succ, List.map_cons, List.map_cons, hrest,
      numbers, hfirst]

/-- What a statement with its parameters means for a list of rows: one tuple of five placeholders
for each row, numbered from 1 without a gap, and bound to the row's values. -/
structure Binds (q : InsertStatement) (flatParams : List (Option Json)) (rows : List BoundRow) :
    Prop where
  table : q.table = js "clicks"
  columns : q.columns = columns
  tuples : q.tuples.length = rows.length
  five : ∀ tuple ∈ q.tuples, tuple.length = 5
  placeholders : q.tuples.flatten = List.range' 1 (5 * rows.length)
  params : flatParams.length = 5 * rows.length
  bound : q.tuples.map (fun tuple => tuple.map (readParam flatParams)) =
    rows.map fun row => (values row).map some

theorem query_binds {parsedEvents : List ε} {rows : List BoundRow}
    (hlen : parsedEvents.length = rows.length) :
    Binds ⟨js "clicks", columns, (List.range parsedEvents.length).map numbers⟩
      (rows.flatMap values) rows := by
  have hbound := numbers_bound [] (k := 0) rfl rows
  rw [hlen]
  refine ⟨rfl, rfl, by simp, ?_, flatten_numbers _, length_flatMap_values rows, ?_⟩
  · intro tuple htuple
    obtain ⟨i, -, rfl⟩ := List.mem_map.mp htuple
    simp [numbers]
  · rw [List.map_map, List.range_eq_range']
    exact hbound

/-! The statement stores the rows one by one. -/

def named (row : BoundRow) : NamedRow := columns.zip (values row)

/-- Pointwise equal lists stay so under maps that keep the equality. -/
lemma map_eq_map_of {α β γ δ : Type*} {f : α → γ} {g : β → γ} {f' : α → δ} {g' : β → δ}
    {as : List α} {bs : List β} (h : as.map f = bs.map g)
    (hmap : ∀ a b, f a = g b → f' a = g' b) : as.map f' = bs.map g' := by
  induction as generalizing bs with
  | nil =>
    obtain rfl : bs = [] := by simpa using h.symm
    rfl
  | cons a as ih =>
    cases bs with
    | nil => simp at h
    | cons b bs =>
      obtain ⟨hb, hbs⟩ := List.cons.inj h
      rw [List.map_cons, List.map_cons, hmap a b hb, ih hbs]

lemma mapM_cons_eq_some {α β : Type*} {f : α → Option β} {a : α} {as : List α} {bs : List β} :
    (a :: as).mapM f = some bs ↔ ∃ b bs', f a = some b ∧ as.mapM f = some bs' ∧ bs = b :: bs' := by
  rw [List.mapM_cons]
  cases f a <;> cases as.mapM f <;> simp [eq_comm]

lemma mapM_eq_some {α β : Type*} {f : α → Option β} {as : List α} {bs : List β} :
    as.mapM f = some bs ↔ as.map f = bs.map some := by
  induction as generalizing bs with
  | nil => cases bs <;> simp
  | cons a as ih =>
    rw [mapM_cons_eq_some]
    cases bs <;> simp [ih]

lemma mapM_eq_none {α β : Type*} {f : α → Option β} {as : List α} :
    as.mapM f = none ↔ ∃ a ∈ as, f a = none := by
  induction as with
  | nil => simp
  | cons a as ih =>
    rw [List.exists_mem_cons_iff, ← ih, List.mapM_cons]
    cases f a <;> cases as.mapM f <;> simp

lemma Binds.rows_eq {q : InsertStatement} {params : List (Option Json)} {rows : List BoundRow}
    (h : Binds q params rows) : q.rows params = some (rows.map named) := by
  apply mapM_eq_some.mpr
  rw [List.map_map]
  refine map_eq_map_of h.bound fun tuple row htuple => ?_
  have hlen : tuple.length = q.columns.length := by
    have hfive := congrArg List.length htuple
    rw [List.length_map, List.length_map, values_length] at hfive
    rw [hfive, h.columns]
    rfl
  rw [if_pos hlen, mapM_eq_some.mpr htuple, h.columns]
  rfl

theorem execute_query (store : JsString → τ → NamedRow → Option τ) {parsedEvents : List ε}
    {rows : List BoundRow} (hne : parsedEvents ≠ []) (hlen : parsedEvents.length = rows.length)
    (t : τ) : execute store (query parsedEvents) (rows.flatMap values) t =
      rows.foldlM (fun t row => store (js "clicks") t (named row)) t := by
  have hrows := (query_binds hlen).rows_eq
  rw [execute, parseInsert_query hne, Option.bind_some, hrows, Option.bind_some, List.foldlM_map]

lemma workerParams_eq (parsedEvents : List ClickEvent) :
    workerParams parsedEvents =
      (parsedEvents.map fun e => bound (rowOf e)).flatMap values := by
  rw [workerParams, List.flatMap_map]
  rfl

lemma serviceParams_eq_some {isZero : JsString → Bool} {parsedEvents : List Json}
    {params : List (Option Json)} (h : serviceParams isZero parsedEvents = some params) :
    ∃ rows : List BoundRow,
      parsedEvents.map (bindEvent isZero) = rows.map some ∧ params = rows.flatMap values := by
  obtain ⟨rows, hrows, hparams⟩ := Option.map_eq_some_iff.mp h
  exact ⟨rows, mapM_eq_some.mp hrows, hparams.symm⟩

/-- The worker's statement does what one statement for each event does. -/
theorem execute_workerParams (store : JsString → τ → NamedRow → Option τ)
    {parsedEvents : List ClickEvent} (hne : parsedEvents ≠ []) (t : τ) :
    execute store (query parsedEvents) (workerParams parsedEvents) t =
      parsedEvents.foldlM (fun t e => execute store (query [e]) (workerParams [e]) t) t := by
  have hone : ∀ t e, execute store (query [e]) (workerParams [e]) t =
      store (js "clicks") t (named (bound (rowOf e))) := by
    intro t e
    rw [workerParams_eq, execute_query store (by simp) (by simp)]
    simp
  simp only [hone]
  rw [workerParams_eq, execute_query store hne (by simp), List.foldlM_map]

/-- One event of the service. -/
lemma execute_serviceParams_singleton (store : JsString → τ → NamedRow → Option τ)
    (isZero : JsString → Bool) (e : Json) (t : τ) :
    ((serviceParams isZero [e]).bind fun params => execute store (query [e]) params t) =
      (bindEvent isZero e).bind fun row => store (js "clicks") t (named row) := by
  cases he : bindEvent isZero e with
  | none => simp [serviceParams, he]
  | some row =>
    have hlen : [e].length = [row].length := rfl
    have hexec := execute_query store (List.cons_ne_nil e []) hlen t
    simpa [serviceParams, he] using hexec

/-- So does the service's statement where it is built. -/
theorem execute_serviceParams (store : JsString → τ → NamedRow → Option τ)
    {isZero : JsString → Bool} {parsedEvents : List Json} {rows : List BoundRow}
    (hne : parsedEvents ≠ []) (hrows : parsedEvents.map (bindEvent isZero) = rows.map some)
    (t : τ) : execute store (query parsedEvents) (rows.flatMap values) t =
      parsedEvents.foldlM (fun t e => (serviceParams isZero [e]).bind fun params =>
        execute store (query [e]) params t) t := by
  have hlen : parsedEvents.length = rows.length := by simpa using congrArg List.length hrows
  have hfold : parsedEvents.foldlM (fun t e => (bindEvent isZero e).bind fun row =>
        store (js "clicks") t (named row)) t =
      (parsedEvents.map (bindEvent isZero)).foldlM (fun t bound => bound.bind fun row =>
        store (js "clicks") t (named row)) t := by rw [List.foldlM_map]
  simp only [execute_serviceParams_singleton]
  rw [execute_query store hne hlen, hfold, hrows, List.foldlM_map]
  rfl

/-! The cycles of the consumers append what their statements store. -/

/-- A table that accepts every row. -/
def appendRow (_ : JsString) (t : List NamedRow) (row : NamedRow) : Option (List NamedRow) :=
  some (t ++ [row])

lemma foldlM_appendRow (rows : List BoundRow) (t : List NamedRow) :
    rows.foldlM (fun t row => appendRow (js "clicks") t (named row)) t =
      some (t ++ rows.map named) := by
  induction rows generalizing t with
  | nil => simp
  | cons row rows ih =>
    rw [List.foldlM_cons, appendRow, Option.bind_eq_bind, Option.bind_some, ih]
    simp

/-- A committed batch of the worker is what its statement stores. -/
theorem persistBatch_executes {o : FlushReplies} (hconnect : o.onConnect = none)
    (hcommit : o.failure = none) {rawEvents : List JsString} {s : Stores}
    (hne : rawEvents.filterMap parseEvent ≠ []) :
    execute appendRow (query (rawEvents.filterMap parseEvent))
        (workerParams (rawEvents.filterMap parseEvent))
        (s.clicks.map fun row => named (bound row)) =
      some ((persistBatch o rawEvents s).clicks.map fun row => named (bound row)) := by
  have hrows : parsedRows rawEvents ≠ [] := by simpa [parsedRows] using hne
  rw [workerParams_eq, execute_query appendRow hne (by simp), foldlM_appendRow, persistBatch,
    if_neg hrows, hconnect, hcommit]
  simp [Stores.insert, parsedRows, Function.comp_def]

/-- So is a batch that `processBufferedClicks` has inserted. -/
theorem processBufferedClicks_executes {isZero : JsString → Bool} {o : ConsumerReplies}
    {batchSize : ℕ} {s : Drain} {events : List Json} {params : List (Option Json)}
    (hpopped : (popEvents batchSize o.failedPop s.buffer).failed = false)
    (hevents : (popEvents batchSize o.failedPop s.buffer).events.map Prod.snd = events)
    (hne : events ≠ []) (hconnect : o.onConnect = none) (hinsert : o.onInsert = none)
    (hparams : serviceParams isZero events = some params) :
    execute appendRow (query events) params (s.clicks.map named) =
      some ((processBufferedClicks isZero o batchSize s).1.clicks.map named) := by
  obtain ⟨rows, hrows, rfl⟩ := serviceParams_eq_some hparams
  have hlen : events.length = rows.length := by simpa using congrArg List.length hrows
  have hpairs : (popEvents batchSize o.failedPop s.buffer).events ≠ [] := by
    intro h
    rw [h] at hevents
    exact hne hevents.symm
  have hmap : ((popEvents batchSize o.failedPop s.buffer).events.mapM
      fun e => bindEvent isZero e.2) = some rows := by
    rw [mapM_eq_some, ← hrows, ← hevents, List.map_map]
    rfl
  rw [execute_query appendRow hne hlen, foldlM_appendRow, processBufferedClicks]
  simp only [hpopped, Bool.false_eq_true, if_false, if_neg hpairs, hconnect, hmap, hinsert,
    List.map_append]

/-- The bulk statement of either consumer has one tuple for each event, the placeholders count up
from 1, each tuple is bound to its event's row, and the statement does what one statement for each
event does, in their order. `processBufferedClicks` builds no statement where `sanitize` throws. -/
theorem bulk_insert_binding (store : JsString → τ → NamedRow → Option τ) :
    (∀ parsedEvents : List ClickEvent, parsedEvents ≠ [] →
      ∃ q, parseInsert (query parsedEvents) = some q ∧
        Binds q (workerParams parsedEvents) (parsedEvents.map fun e => bound (rowOf e)) ∧
        ∀ t, execute store (query parsedEvents) (workerParams parsedEvents) t =
          parsedEvents.foldlM (fun t e => execute store (query [e]) (workerParams [e]) t) t) ∧
    ∀ (isZero : JsString → Bool) (parsedEvents : List Json), parsedEvents ≠ [] →
      (serviceParams isZero parsedEvents = none ↔ ∃ e ∈ parsedEvents, bindEvent isZero e = none) ∧
      ∀ params, serviceParams isZero parsedEvents = some params →
        ∃ (q : InsertStatement) (rows : List BoundRow), parseInsert (query parsedEvents) = some q ∧
          parsedEvents.map (bindEvent isZero) = rows.map some ∧ Binds q params rows ∧
          ∀ t, execute store (query parsedEvents) params t =
            parsedEvents.foldlM (fun t e => (serviceParams isZero [e]).bind fun params =>
              execute store (query [e]) params t) t := by
  constructor
  · intro parsedEvents hne
    refine ⟨_, parseInsert_query hne, ?_, execute_workerParams store hne⟩
    rw [workerParams_eq]
    exact query_binds (by simp)
  · intro isZero parsedEvents hne
    constructor
    · rw [serviceParams, Option.map_eq_none_iff, mapM_eq_none]
    · intro params hparams
      obtain ⟨rows, hrows, rfl⟩ := serviceParams_eq_some hparams
      have hlen : parsedEvents.length = rows.length := by
        simpa using congrArg List.length hrows
      exact ⟨_, rows, parseInsert_query hne, hrows, query_binds hlen,
        execute_serviceParams store hne hrows⟩

def localClick : ClickEvent :=
  ⟨.str (js "1"), js "2026-04-01T00:00:00.000Z", .str (js "::1"), js "agent", []⟩

/-- The same click as the service parses it. -/
def localEvent : Json :=
  .obj [(js "url_id", .str (js "1")), (js "timestamp", .str (js "2026-04-01T00:00:00.000Z")),
    (js "ip_address", .str (js "::1")), (js "user_agent", .str (js "agent")),
    (js "referer", .str [])]

/-- The statements of both consumers for two clicks, and a batch whose event is `null`. -/
theorem bulk_insert_binding_twoClicks :
    (∃ q, parseInsert (query [localClick, localClick]) = some q ∧
      q.tuples.flatten = [1, 2, 3, 4, 5, 6, 7, 8, 9, 10] ∧
      ∀ t, execute appendRow (query [localClick, localClick])
        (workerParams [localClick, localClick]) t = [localClick, localClick].foldlM
          (fun t e => execute appendRow (query [e]) (workerParams [e]) t) t) ∧
    (∃ params, serviceParams (fun _ => false) [localEvent, localEvent] = some params ∧
      ∃ (q : InsertStatement) (rows : List BoundRow),
        parseInsert (query [localEvent, localEvent]) = some q ∧
        [localEvent, localEvent].map (bindEvent fun _ => false) = rows.map some ∧
        Binds q params rows ∧ ∀ t, execute appendRow (query [localEvent, localEvent]) params t =
          [localEvent, localEvent].foldlM (fun t e => (serviceParams (fun _ => false) [e]).bind
            fun params => execute appendRow (query [e]) params t) t) ∧
    serviceParams (fun _ => false) [.null] = none := by
  obtain ⟨hworker, hservice⟩ := bulk_insert_binding appendRow
  obtain ⟨q, hq, hbinds, hexecute⟩ := hworker [localClick, localClick] (List.cons_ne_nil _ _)
  have hsome : (serviceParams (fun _ => false) [localEvent, localEvent]).isSome = true := by
    decide +kernel
  obtain ⟨params, hparams⟩ := Option.isSome_iff_exists.mp hsome
  refine ⟨⟨q, hq, hbinds.placeholders, hexecute⟩, ⟨params, hparams, ?_⟩, ?_⟩
  · exact (hservice _ _ (List.cons_ne_nil _ _)).2 params hparams
  · exact (hservice (fun _ => false) [.null] (List.cons_ne_nil _ _)).1.mpr
      ⟨.null, List.mem_singleton_self _, rfl⟩

end UrlShortener.BulkInsert
