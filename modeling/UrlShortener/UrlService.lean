import UrlShortener.UrlRecord
import UrlShortener.TransitionRun

/-! `UrlService`: `shortenUrl` and `resolveUrl` cut at their awaited calls, and
`shortenUrl` as one function of the replies that it gets. -/
namespace UrlShortener.UrlService
open Js AliasGenerator Transition

/-- `used` are the values that the sequence has returned, `pending` the rows that
open transactions have inserted, `cache` the entries under `url:` keys. -/
structure Db where
  used : List ℕ
  urls : List UrlRow
  pending : List UrlRow
  cache : JsString → Option JsString

def Db.empty : Db := ⟨[], [], [], fun _ => none⟩

/-- The row becomes visible and leaves its transaction. -/
def Db.commit (db : Db) (row : UrlRow) : Db :=
  { db with urls := db.urls ++ [row], pending := db.pending.erase row }

def Db.abort (db : Db) (row : Option UrlRow) : Db :=
  { db with pending := row.elim db.pending db.pending.erase }

def Db.set (db : Db) (key value : JsString) : Db :=
  { db with cache := Function.update db.cache key (some value) }

/-- A row that the primary key or the unique index on `alias` holds against a new one. -/
def conflicts (rows : List UrlRow) (id : ℕ) (a : JsString) : Bool :=
  rows.any fun row => row.id = id || row.alias = a

/-- The answer to an awaited call: done, a sequence value, the clock that the step
reads, or an error, possibly after the server has done the work. -/
inductive Reply
  | done
  | id (n : ℕ)
  | clock (time : ℤ)
  | fail (e : DbError) (applied : Bool)

/-- The awaited calls of `shortenUrl`, with what the function holds meanwhile; `row`
is the row of the transaction that a rollback ends. -/
inductive ShortenPc
  | connecting
  | beginning
  | fetchingId
  | inserting (id : ℕ) (a : JsString)
  | committing (row : UrlRow)
  | warming (row : UrlRow) (now : ℤ)
  | rollingBack (row : Option UrlRow)
  | returned (a : JsString)
  | rejected (message : JsString)

def MAX_BIGINT : ℕ := 2 ^ 63 - 1

def creationError : JsString := js "Internal server error during URL creation"

def resolutionError : JsString := js "Internal server error during resolution"

/-- One step of `shortenUrl(originalUrl, ownerId)`: the reply to the call it awaits.
`nextval` returns no value twice. An INSERT waits for an open transaction with the same
key and fails against a committed row with it. A rollback that fails has lost its
connection, and the server then drops the transaction. -/
def shortenStep (originalUrl : JsString) (ownerId : Option JsString) (reply : Reply) (db : Db)
    (pc : ShortenPc) : Option (Db × ShortenPc) :=
  match pc, reply with
  | .connecting, .done => some (db, .beginning)
  | .connecting, .fail e _ => some (db, .rejected e.message)
  | .beginning, .done => some (db, .fetchingId)
  | .beginning, .fail _ _ => some (db, .rollingBack none)
  | .fetchingId, .id n =>
    if 1 ≤ n ∧ n ≤ MAX_BIGINT ∧ n ∉ db.used then
      match generateAlias n with
      | .ok a => some ({ db with used := n :: db.used }, .inserting n a)
      | .error _ => some ({ db with used := n :: db.used }, .rollingBack none)
    else none
  | .fetchingId, .fail _ _ => some (db, .rollingBack none)
  | .inserting id a, .clock time =>
    if conflicts db.urls id a then some (db, .rollingBack none)
    else if conflicts db.pending id a then none
    else
      let row : UrlRow := ⟨id, a, originalUrl, ownerId, time⟩
      some ({ db with pending := row :: db.pending }, .committing row)
  | .inserting _ _, .fail _ _ => some (db, .rollingBack none)
  | .committing row, .clock now => some (db.commit row, .warming row now)
  | .committing row, .fail _ true => some (db.commit row, .rollingBack none)
  | .committing row, .fail _ false => some (db, .rollingBack (some row))
  | .warming row now, .done =>
    some (db.set (urlKey row.alias) (warmText row now), .returned row.alias)
  | .warming row now, .fail _ applied =>
    some (if applied then db.set (urlKey row.alias) (warmText row now) else db,
      .rollingBack none)
  | .rollingBack row, .done => some (db.abort row, .rejected creationError)
  | .rollingBack row, .fail e _ => some (db.abort row, .rejected e.message)
  | _, _ => none

/-- The awaited calls of `resolveUrl`. -/
inductive ResolvePc
  | getting
  | selecting
  | populating (row : UrlRow)
  | returned (record : Option UrlRecord)
  | rejected (message : JsString)

/-- What `resolveUrl` makes of the value under its key; an empty string is no value. -/
def readCache (host : Host) (cachedData : Option JsString) : Option UrlRecord :=
  match cachedData with
  | none => none
  | some text => if text.isEmpty then none else decodeRecord host text

/-- One step of `resolveUrl(a)`. -/
def resolveStep (host : Host) (a : JsString) (reply : Reply) (db : Db) (pc : ResolvePc) :
    Option (Db × ResolvePc) :=
  match pc, reply with
  | .getting, .done =>
    match readCache host (db.cache (urlKey a)) with
    | some record => some (db, .returned (some record))
    | none => some (db, .selecting)
  | .getting, .fail _ _ => some (db, .selecting)
  | .selecting, .done =>
    match db.urls.find? fun row => row.alias = a with
    | none => some (db, .returned none)
    | some row => some (db, .populating row)
  | .selecting, .fail _ _ => some (db, .rejected resolutionError)
  | .populating row, .done =>
    some (db.set (urlKey a) (rowText row), .returned (some (recordOfRow row)))
  | .populating row, .fail _ applied =>
    some (if applied then db.set (urlKey a) (rowText row) else db,
      .returned (some (recordOfRow row)))
  | _, _ => none

/-- The replies that a resolution may still have to wait for. -/
def ResolvePc.awaits : ResolvePc → ℕ
  | .getting => 3
  | .selecting => 2
  | .populating _ => 1
  | .returned _ | .rejected _ => 0

/-- Redis or Postgres answers, with success or with an error. -/
def Reply.Answers : Reply → Prop
  | .done | .fail _ _ => True
  | .id _ | .clock _ => False

/-- Every answer takes a resolution forward, whatever the stores hold. -/
theorem resolveStep_answers (host : Host) (a : JsString) (db : Db) {r : Reply} {pc : ResolvePc}
    (hr : r.Answers) (hpc : pc.awaits ≠ 0) : ∃ db' pc',
      resolveStep host a r db pc = some (db', pc') ∧ pc'.awaits < pc.awaits := by
  cases r with
  | id | clock => cases hr
  | done =>
    cases pc with
    | getting =>
      cases hc : readCache host (db.cache (urlKey a)) with
      | none => exact ⟨db, .selecting, by simp [resolveStep, hc], by simp [ResolvePc.awaits]⟩
      | some record =>
        exact ⟨db, .returned (some record), by simp [resolveStep, hc], by simp [ResolvePc.awaits]⟩
    | selecting =>
      cases hf : db.urls.find? fun row => row.alias = a with
      | none => exact ⟨db, .returned none, by simp [resolveStep, hf], by simp [ResolvePc.awaits]⟩
      | some row =>
        exact ⟨db, .populating row, by simp [resolveStep, hf], by simp [ResolvePc.awaits]⟩
    | populating row => exact ⟨_, _, rfl, by simp [ResolvePc.awaits]⟩
    | returned | rejected => exact absurd rfl hpc
  | fail e applied =>
    cases pc with
    | getting | selecting | populating => exact ⟨_, _, rfl, by simp [ResolvePc.awaits]⟩
    | returned | rejected => exact absurd rfl hpc

/-! One call of `shortenUrl` on its own, after its client is acquired. -/

/-- The outcome of each awaited step: `none` where it succeeds, its value where it has
one. A failing SET may or may not have stored the entry. -/
structure ShortenReplies where
  onBegin : Option DbError
  onNextval : Except DbError ℕ
  onInsert : Except DbError ℤ
  onCommit : Option DbError
  now : ℤ
  onSet : Option (DbError × Bool)
  onRollback : Option DbError

/-- The `catch` block: roll back, then throw. -/
def rollback (o : ShortenReplies) : Except JsString JsString :=
  match o.onRollback with
  | none => .error creationError
  | some e => .error e.message

def shortenUrl (o : ShortenReplies) (db : Db) (originalUrl : JsString)
    (ownerId : Option JsString) : Except JsString JsString × Db :=
  match o.onBegin with
  | some _ => (rollback o, db)
  | none =>
    match o.onNextval with
    | .error _ => (rollback o, db)
    | .ok n =>
      let db := { db with used := n :: db.used }
      match generateAlias n with
      | .error _ => (rollback o, db)
      | .ok a =>
        match o.onInsert with
        | .error _ => (rollback o, db)
        | .ok time =>
          match o.onCommit with
          | some _ => (rollback o, db)
          | none =>
            let row : UrlRow := ⟨n, a, originalUrl, ownerId, time⟩
            let db := { db with urls := db.urls ++ [row] }
            match o.onSet with
            | none => (.ok a, db.set (urlKey a) (warmText row o.now))
            | some (_, applied) =>
              (rollback o, if applied then db.set (urlKey a) (warmText row o.now) else db)

/-- The replies in the order in which the call gets them. -/
def ShortenReplies.script (o : ShortenReplies) : List Reply :=
  let onRollback := match o.onRollback with
    | none => .done
    | some e => .fail e false
  match o.onBegin with
  | some e => [.fail e false, onRollback]
  | none => .done ::
    match o.onNextval with
    | .error e => [.fail e false, onRollback]
    | .ok n => .id n ::
      match o.onInsert with
      | .error e => [.fail e false, onRollback]
      | .ok time => .clock time ::
        match o.onCommit with
        | some e => [.fail e false, onRollback]
        | none => .clock o.now ::
          match o.onSet with
          | none => [.done]
          | some (e, applied) => [.fail e applied, onRollback]

/-- The call taken step by step, with no other in between. -/
def shortenAlone (originalUrl : JsString) (ownerId : Option JsString) :
    System (Db × ShortenPc) Reply where
  next reply s := shortenStep originalUrl ownerId reply s.1 s.2

def outcomePc : Except JsString JsString → ShortenPc
  | .ok a => .returned a
  | .error message => .rejected message

/-- The values of the sequence are fresh, and an INSERT succeeds only on a free key. -/
def ShortenReplies.Possible (o : ShortenReplies) (db : Db) : Prop :=
  ∀ n, o.onNextval = .ok n → (1 ≤ n ∧ n ≤ MAX_BIGINT ∧ n ∉ db.used) ∧
    ∀ time, o.onInsert = .ok time →
      conflicts db.urls n (numeral n) = false ∧ conflicts db.pending n (numeral n) = false

/-- The reported outcome and the table agree. -/
def Atomic (db : Db) (originalUrl : JsString) (result : Except JsString JsString × Db) : Prop :=
  match result.1 with
  | .error _ => result.2.urls = db.urls
  | .ok a => ∃ row : UrlRow, result.2.urls = db.urls ++ [row] ∧ row.alias = a ∧
      row.original_url = originalUrl

/-- The transaction commits and then the cache-warming SET fails. -/
def CacheFailsAfterCommit (o : ShortenReplies) : Prop :=
  o.onBegin = none ∧ (∃ n, o.onNextval = .ok n) ∧ (∃ time, o.onInsert = .ok time) ∧
    o.onCommit = none ∧ o.onSet ≠ none

/-- A script that fails runs into the `catch` block. -/
lemma run_rollback (o : ShortenReplies) (originalUrl : JsString) (ownerId : Option JsString)
    (db : Db) (row : Option UrlRow) :
    (shortenAlone originalUrl ownerId).run
      [match o.onRollback with
        | none => .done
        | some e => .fail e false] (db, .rollingBack row) =
      some (db.abort row, outcomePc (rollback o)) := by
  cases h : o.onRollback <;>
    simp [System.run, shortenAlone, shortenStep, rollback, h, outcomePc]

/-- The big step is the run of the small steps on the same replies. -/
theorem run_script {o : ShortenReplies} {db : Db} (ho : o.Possible db) (originalUrl : JsString)
    (ownerId : Option JsString) :
    (shortenAlone originalUrl ownerId).run o.script (db, .beginning) =
      some ((shortenUrl o db originalUrl ownerId).2,
        outcomePc (shortenUrl o db originalUrl ownerId).1) := by
  have hroll := run_rollback o originalUrl ownerId
  have hcons : ∀ {reply : Reply} {rest : List Reply} {s t : Db × ShortenPc},
      shortenStep originalUrl ownerId reply s.1 s.2 = some t →
      (shortenAlone originalUrl ownerId).run (reply :: rest) s =
        (shortenAlone originalUrl ownerId).run rest t := fun h => System.run_cons_of_next h
  rw [ShortenReplies.script, shortenUrl]
  cases hb : o.onBegin with
  | some e => exact (hcons rfl).trans (hroll db none)
  | none =>
  apply (hcons rfl).trans
  cases hn : o.onNextval with
  | error e => exact (hcons rfl).trans (hroll db none)
  | ok n =>
  obtain ⟨hfresh, hfree⟩ := ho n hn
  refine (hcons (t := ({ db with used := n :: db.used }, .inserting n (numeral n)))
    (by simp [shortenStep, hfresh, generateAlias_natCast])).trans ?_
  simp only [generateAlias_natCast]
  cases hi : o.onInsert with
  | error e => exact (hcons rfl).trans (hroll _ none)
  | ok time =>
  obtain ⟨hu, hp⟩ := hfree time hi
  let row : UrlRow := ⟨n, numeral n, originalUrl, ownerId, time⟩
  refine (hcons (t := ({ db with used := n :: db.used, pending := row :: db.pending },
    .committing row)) (by simp [shortenStep, hu, hp, row])).trans ?_
  cases hc : o.onCommit with
  | some e =>
    refine (hcons rfl).trans ((hroll _ (some row)).trans ?_)
    simp [Db.abort]
  | none =>
  have hcommit : Db.commit { db with used := n :: db.used, pending := row :: db.pending } row =
      { db with used := n :: db.used, urls := db.urls ++ [row] } := by
    simp [Db.commit]
  refine (hcons (t := ({ db with used := n :: db.used, urls := db.urls ++ [row] },
    .warming row o.now)) (by rw [← hcommit]; rfl)).trans ?_
  cases hs : o.onSet with
  | none => exact hcons rfl
  | some p => exact (hcons rfl).trans (hroll _ none)

lemma rollback_error (o : ShortenReplies) : ∃ message, rollback o = .error message := by
  cases h : o.onRollback <;> simp [rollback, h]

/-- A call that resolves has got a sequence value and added the row that it names. -/
theorem shortenUrl_ok {o : ShortenReplies} {db : Db} {originalUrl a : JsString}
    {ownerId : Option JsString} (h : (shortenUrl o db originalUrl ownerId).1 = .ok a) :
    ∃ n time, o.onNextval = .ok n ∧ a = numeral n ∧
      (shortenUrl o db originalUrl ownerId).2.urls =
        db.urls ++ [⟨n, a, originalUrl, ownerId, time⟩] := by
  obtain ⟨message, hr⟩ := rollback_error o
  cases hb : o.onBegin with
  | some e => simp [shortenUrl, hb, hr] at h
  | none =>
  cases hn : o.onNextval with
  | error e => simp [shortenUrl, hb, hn, hr] at h
  | ok n =>
  cases hi : o.onInsert with
  | error e => simp [shortenUrl, hb, hn, hi, hr, generateAlias_natCast] at h
  | ok time =>
  cases hc : o.onCommit with
  | some e => simp [shortenUrl, hb, hn, hi, hc, hr, generateAlias_natCast] at h
  | none =>
  cases hs : o.onSet with
  | some p => simp [shortenUrl, hb, hn, hi, hc, hs, hr, generateAlias_natCast] at h
  | none =>
    simp only [shortenUrl, hb, hn, hi, hc, hs, generateAlias_natCast, Except.ok.injEq] at h
    subst h
    refine ⟨n, time, rfl, rfl, ?_⟩
    simp [shortenUrl, hb, hn, hi, hc, hs, generateAlias_natCast, Db.set]

/-- A call that ends in its `catch` block is atomic when it has left the table alone. -/
lemma atomic_rollback_iff (o : ShortenReplies) (db db' : Db) (originalUrl : JsString) :
    Atomic db originalUrl (rollback o, db') ↔ db'.urls = db.urls := by
  obtain ⟨message, h⟩ := rollback_error o
  rw [Atomic, h]

/-- `shortenUrl` is atomic in every case but one: a SET that fails after the commit. -/
theorem shortenUrl_atomic_iff (o : ShortenReplies) (db : Db) (originalUrl : JsString)
    (ownerId : Option JsString) :
    Atomic db originalUrl (shortenUrl o db originalUrl ownerId) ↔
      ¬ CacheFailsAfterCommit o := by
  cases hb : o.onBegin with
  | some e => simp [shortenUrl, hb, atomic_rollback_iff, CacheFailsAfterCommit]
  | none =>
  cases hn : o.onNextval with
  | error e => simp [shortenUrl, hb, hn, atomic_rollback_iff, CacheFailsAfterCommit]
  | ok n =>
  cases hi : o.onInsert with
  | error e =>
    simp [shortenUrl, hb, hn, hi, generateAlias_natCast, atomic_rollback_iff,
      CacheFailsAfterCommit]
  | ok time =>
  cases hc : o.onCommit with
  | some e =>
    simp [shortenUrl, hb, hn, hi, hc, generateAlias_natCast, atomic_rollback_iff,
      CacheFailsAfterCommit]
  | none =>
  cases hs : o.onSet with
  | none =>
    simp [shortenUrl, hb, hn, hi, hc, hs, generateAlias_natCast, CacheFailsAfterCommit,
      Atomic, Db.set]
  | some p =>
    obtain ⟨e, applied⟩ := p
    cases applied <;>
      simp [shortenUrl, hb, hn, hi, hc, hs, generateAlias_natCast, atomic_rollback_iff,
        CacheFailsAfterCommit, Db.set]

/-- The first call on an empty database, with a cache that has gone down. -/
def cacheDown : ShortenReplies :=
  ⟨none, .ok 1, .ok 0, none, 0, some (⟨none, js "Connection is closed."⟩, false), none⟩

/-- The call rejects although its row is committed. -/
theorem shortenUrl_not_atomic :
    ¬ Atomic Db.empty (js "https://example.com")
      (shortenUrl cacheDown Db.empty (js "https://example.com") none) := by
  have ha : generateAlias 1 = .ok (numeral 1) := generateAlias_natCast 1
  simp [shortenUrl, cacheDown, rollback, Db.empty, Atomic, ha]

end UrlShortener.UrlService
