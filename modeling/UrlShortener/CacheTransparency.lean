import UrlShortener.UrlServiceSafety
import UrlShortener.IsoDate

/-! One call of `resolveUrl` on its own, and the record that it returns from each place where
one may be: the entry that `shortenUrl` wrote, the entry that an earlier call wrote, the row. -/
namespace UrlShortener.UrlService
open Js Json AliasGenerator Transition

/-- `new Date` reads the interchange form of a date. -/
def Host.ReadsDates (host : Host) : Prop :=
  ∀ s t, parseISO s = some t → host.newDate (some (.str s)) = some (some t)

/-- The record in the entry that `shortenUrl` writes: without an owner it has no owner field,
and its date is that of the writing. -/
def warmRecord (row : UrlRow) (now : ℤ) : UrlRecord :=
  ⟨row.id, some (.str row.alias), some (.str row.original_url), row.owner_id.map .str, some now⟩

/-- The call taken step by step, with no other in between. -/
def resolveAlone (host : Host) (a : JsString) : System (Db × ResolvePc) Reply where
  next reply s := resolveStep host a reply s.1 s.2

section Entries
variable {host : Host} {row : UrlRow}

lemma decodeRecord_nil (host : Host) : decodeRecord host [] = none := by
  rw [decodeRecord, parse_nil]

lemma readCache_some {text : JsString} {record : UrlRecord}
    (h : decodeRecord host text = some record) : readCache host (some text) = some record := by
  cases text with
  | nil =>
    rw [decodeRecord_nil] at h
    cases h
  | cons c text => exact h

lemma Host.ReadsDates.newDate (hdates : host.ReadsDates) {t : ℤ} (ht : IsTime t) :
    host.newDate (some (.str (toISOString t))) = some (some t) :=
  hdates _ _ (parseISO_toISOString ht)

lemma readCache_warmText (hdates : host.ReadsDates) {now : ℤ} (hnow : IsTime now) :
    readCache host (some (warmText row now)) = some (warmRecord row now) :=
  readCache_some (decodeRecord_recordText_of_date _ _ _ wellFormed_owner (hdates.newDate hnow))

lemma readCache_rowText (hdates : host.ReadsDates) (hcreated : IsTime row.created_at) :
    readCache host (some (rowText row)) = some (recordOfRow row) :=
  readCache_some
    (decodeRecord_recordText_of_date _ _ _ wellFormed_ownerJson (hdates.newDate hcreated))

end Entries

section Run
variable {host : Host} {a : JsString} {db db' : Db} {result : Option UrlRecord}

lemma next_of_hit {record : UrlRecord}
    (h : readCache host (db.cache (urlKey a)) = some record) :
    (resolveAlone host a).next .done (db, .getting) = some (db, .returned (some record)) := by
  simp [resolveAlone, resolveStep, h]

lemma next_of_miss (h : readCache host (db.cache (urlKey a)) = none) :
    (resolveAlone host a).next .done (db, .getting) = some (db, .selecting) := by
  simp [resolveAlone, resolveStep, h]

lemma next_of_absent (h : db.urls.find? (fun row => row.alias = a) = none) :
    (resolveAlone host a).next .done (db, .selecting) = some (db, .returned none) := by
  simp [resolveAlone, resolveStep, h]

lemma next_of_found {row : UrlRow} (h : db.urls.find? (fun row => row.alias = a) = some row) :
    (resolveAlone host a).next .done (db, .selecting) = some (db, .populating row) := by
  simp [resolveAlone, resolveStep, h]

lemma run_from_returned {record : Option UrlRecord} {replies : List Reply}
    (h : (resolveAlone host a).run replies (db, .returned record) =
      some (db', .returned result)) : replies = [] ∧ db' = db ∧ result = record := by
  cases replies with
  | nil =>
    cases h
    exact ⟨rfl, rfl, rfl⟩
  | cons reply replies => cases h

/-- The row as the table has it, and perhaps a new entry for it. -/
lemma run_from_selecting {replies : List Reply}
    (h : (resolveAlone host a).run replies (db, .selecting) = some (db', .returned result)) :
    result = (db.urls.find? fun row => row.alias = a).map recordOfRow ∧
      (db' = db ∨ ∃ row, db.urls.find? (fun row => row.alias = a) = some row ∧
        db' = db.set (urlKey a) (rowText row)) := by
  cases replies with
  | nil => cases h
  | cons reply replies =>
    cases reply with
    | done =>
      cases hfind : db.urls.find? fun row => row.alias = a with
      | none =>
        rw [System.run_cons_of_next (next_of_absent hfind)] at h
        obtain ⟨-, hdb, hresult⟩ := run_from_returned h
        exact ⟨hresult, .inl hdb⟩
      | some row =>
        rw [System.run_cons_of_next (next_of_found hfind)] at h
        cases replies with
        | nil => cases h
        | cons reply replies =>
          cases reply with
          | done =>
            obtain ⟨-, hdb, hresult⟩ := run_from_returned h
            exact ⟨hresult, .inr ⟨row, rfl, hdb⟩⟩
          | fail e applied =>
            obtain ⟨-, hdb, hresult⟩ := run_from_returned h
            cases applied with
            | false => exact ⟨hresult, .inl hdb⟩
            | true => exact ⟨hresult, .inr ⟨row, rfl, hdb⟩⟩
          | id | clock => cases h
    | fail e applied => cases replies <;> cases h
    | id | clock => cases h

lemma run_from_getting {replies : List Reply}
    (h : (resolveAlone host a).run replies (db, .getting) = some (db', .returned result)) :
    (replies.head? = some .done ∧ db' = db ∧
      ∃ record, readCache host (db.cache (urlKey a)) = some record ∧ result = some record) ∨
    ((replies.head? = some .done → readCache host (db.cache (urlKey a)) = none) ∧
      ∃ rest, (resolveAlone host a).run rest (db, .selecting) = some (db', .returned result)) := by
  cases replies with
  | nil => cases h
  | cons reply replies =>
    cases reply with
    | done =>
      cases hread : readCache host (db.cache (urlKey a)) with
      | none =>
        rw [System.run_cons_of_next (next_of_miss hread)] at h
        exact .inr ⟨fun _ => rfl, replies, h⟩
      | some record =>
        rw [System.run_cons_of_next (next_of_hit hread)] at h
        obtain ⟨-, hdb, hresult⟩ := run_from_returned h
        exact .inl ⟨rfl, hdb, record, rfl, hresult⟩
    | fail e applied => exact .inr ⟨fun hhead => (by cases hhead), replies, h⟩
    | id | clock => cases h

/-- An entry that can be read is returned, whatever the table has. -/
lemma run_hit {record : UrlRecord} (h : readCache host (db.cache (urlKey a)) = some record) :
    (resolveAlone host a).run [.done] (db, .getting) = some (db, .returned (some record)) := by
  rw [System.run_cons_of_next (next_of_hit h)]
  rfl

end Run

/-! Which entries there are, in any interleaving of calls. -/

/-- Every entry was written for a committed row, by one function or the other. -/
def Written (db : Db) : Prop :=
  ∀ key text, db.cache key = some text → ∃ row ∈ db.urls, key = urlKey row.alias ∧
    (text = rowText row ∨ ∃ now, text = warmText row now)

section Written
variable {host : Host} {db db' : Db}

lemma Written.of_cache (h : Written db) (hcache : db'.cache = db.cache)
    (hurls : db.urls ⊆ db'.urls) : Written db' := by
  intro key text hk
  rw [hcache] at hk
  obtain ⟨row, hrow, hrest⟩ := h key text hk
  exact ⟨row, hurls hrow, hrest⟩

lemma Written.set (h : Written db) {row : UrlRow} {text : JsString} (hrow : row ∈ db.urls)
    (htext : text = rowText row ∨ ∃ now, text = warmText row now) :
    Written (db.set (urlKey row.alias) text) := by
  intro key other hk
  by_cases hkey : key = urlKey row.alias
  · subst hkey
    obtain rfl : text = other := by simpa [Db.set] using hk
    exact ⟨row, hrow, rfl, htext⟩
  · exact h key other (by simpa [Db.set, hkey] using hk)

lemma Written.call {l l' : Call} (h : Written db) (hl : l.Holds db)
    (hmove : CallMove host db l db' l') : Written db' := by
  cases hmove with
  | startShorten | startResolve => exact h
  | shorten hmove =>
    cases hmove with
    | quiet | lose => exact h
    | reserve | insert | abort => exact h.of_cache rfl (List.Subset.refl _)
    | commit => exact h.of_cache rfl (List.subset_append_left _ _)
    | @warm row now => exact h.set hl.1 (.inr ⟨now, rfl⟩)
  | resolve hmove =>
    cases hmove with
    | hit | miss | absent | found | reject | keep => exact h
    | @populate row =>
      obtain ⟨hrow, rfl⟩ := hl
      exact h.set hrow (.inl rfl)

lemma Written.surroundings {e : Surroundings} (h : Written db)
    (hstep : surroundingsStep e db = some db') : Written db' := by
  cases e with
  | burn n =>
    cases hstep
    exact h
  | evict key =>
    cases hstep
    intro other text hk
    by_cases hkey : other = key
    · simp [hkey] at hk
    · exact h other text (by simpa [hkey] using hk)

end Written

/-- The row of an alias, and no entry for it but that of `shortenUrl`, written at a time, or
that of an earlier `resolveUrl`. -/
structure Kept (row : UrlRow) (now : ℤ) (db : Db) : Prop where
  found : db.urls.find? (fun r => r.alias = row.alias) = some row
  written : ∀ text, db.cache (urlKey row.alias) = some text →
    text = warmText row now ∨ text = rowText row

lemma Coherent.find_alias {host : Host} {db : Db} (h : Coherent host db) {row : UrlRow}
    (hrow : row ∈ db.urls) : db.urls.find? (fun r => r.alias = row.alias) = some row := by
  have hsome : (db.urls.find? fun r => r.alias = row.alias).isSome :=
    List.find?_isSome.mpr ⟨row, hrow, by simp⟩
  obtain ⟨found, hfound⟩ := Option.isSome_iff_exists.mp hsome
  have halias : found.alias = row.alias := by simpa using List.find?_some hfound
  rw [hfound, h.alias_injective (List.mem_of_find?_eq_some hfound) hrow halias]

/-- So it is for every committed row, in every state that the calls can reach. -/
theorem kept_of_reaches (host : Host) {ι : Type} [DecidableEq ι] {c : Db × (ι → Call)}
    (h : ((calls host).system ι).Reaches started c) {row : UrlRow} (hrow : row ∈ c.1.urls) :
    ∃ now, Kept row now c.1 := by
  have hwritten : (outline host).Holds c ∧ Written c.1 := by
    refine h.invariant (P := fun c => (outline host).Holds c ∧ Written c.1)
      (fun act s t hs hnext => ⟨(outline host).holds_next hs.1 hnext, ?_⟩) ?_
    · cases act with
      | inl act =>
        obtain ⟨i, r⟩ := act
        obtain ⟨db', l', hstep, rfl⟩ := Threads.next_thread hnext
        exact hs.2.call (hs.1.thread i) (callMove_of_step hstep)
      | inr e =>
        obtain ⟨db', hstep, rfl⟩ := Threads.next_env hnext
        exact hs.2.surroundings hstep
    · refine ⟨outline_started host, fun key text hk => ?_⟩
      cases hk
  obtain ⟨hholds, hentries⟩ := hwritten
  have hcoherent : Coherent host c.1 := hholds.shared
  cases hcache : c.1.cache (urlKey row.alias) with
  | none =>
    refine ⟨0, hcoherent.find_alias hrow, fun text htext => ?_⟩
    rw [hcache] at htext
    cases htext
  | some entry =>
    obtain ⟨row', hrow', hkey, hentry⟩ := hentries _ _ hcache
    obtain rfl := hcoherent.alias_injective hrow hrow' (urlKey_injective hkey)
    have hnow : ∃ now, entry = warmText row now ∨ entry = rowText row := by
      rcases hentry with hentry | ⟨now, hentry⟩
      · exact ⟨0, .inr hentry⟩
      · exact ⟨now, .inl hentry⟩
    obtain ⟨now, hentry⟩ := hnow
    refine ⟨now, hcoherent.find_alias hrow, fun text htext => ?_⟩
    rw [hcache] at htext
    obtain rfl := Option.some.inj htext
    exact hentry

/-! What a call returns. -/

/-- GET is served, with the entry of `shortenUrl`. -/
def ServedWarm (row : UrlRow) (now : ℤ) (db : Db) (replies : List Reply) : Prop :=
  replies.head? = some .done ∧ db.cache (urlKey row.alias) = some (warmText row now)

section Source
variable {host : Host} {row : UrlRow} {now : ℤ} {db db' : Db} {replies : List Reply}
  {result : Option UrlRecord}

lemma Kept.set_rowText (h : Kept row now db) :
    Kept row now (db.set (urlKey row.alias) (rowText row)) := by
  refine ⟨h.found, fun text htext => .inr ?_⟩
  simpa [Db.set] using htext.symm

/-- The record of the warm entry, or else that of the row. -/
lemma Kept.resolved (h : Kept row now db) (hdates : host.ReadsDates)
    (hcreated : IsTime row.created_at) (hnow : IsTime now)
    (hrun : (resolveAlone host row.alias).run replies (db, .getting) =
      some (db', .returned result)) :
    Kept row now db' ∧ ∃ record, result = some record ∧
      (ServedWarm row now db replies → record = warmRecord row now) ∧
      (¬ ServedWarm row now db replies → record = recordOfRow row) := by
  have hwarm : db.cache (urlKey row.alias) = some (warmText row now) →
      readCache host (db.cache (urlKey row.alias)) = some (warmRecord row now) := by
    intro hcache
    rw [hcache, readCache_warmText hdates hnow]
  rcases run_from_getting hrun with ⟨hhead, hdb, record, hread, hresult⟩ | ⟨hmiss, rest, hrest⟩
  · rw [hdb]
    refine ⟨h, record, hresult, fun hserved => ?_, fun hserved => ?_⟩
    · rw [hwarm hserved.2] at hread
      exact (Option.some.inj hread).symm
    · cases hcache : db.cache (urlKey row.alias) with
      | none =>
        rw [hcache] at hread
        cases hread
      | some text =>
        rcases h.written text hcache with rfl | rfl
        · exact absurd ⟨hhead, hcache⟩ hserved
        · rw [hcache, readCache_rowText hdates hcreated] at hread
          exact (Option.some.inj hread).symm
  · obtain ⟨hresult, hdb⟩ := run_from_selecting hrest
    rw [h.found] at hresult
    refine ⟨?_, recordOfRow row, hresult, fun hserved => ?_, fun _ => rfl⟩
    · rcases hdb with hdb | ⟨found, hfound, rfl⟩
      · rw [hdb]
        exact h
      · rw [h.found, Option.some.injEq] at hfound
        rw [← hfound]
        exact h.set_rowText
    · have hnone := hmiss hserved.1
      rw [hwarm hserved.2] at hnone
      cases hnone

/-- What the two records have in common. -/
lemma describes_of_source {served : Prop} {record : UrlRecord}
    (hwarm : served → record = warmRecord row now) (hrow : ¬ served → record = recordOfRow row) :
    Describes record row ∧
      (row.owner_id ≠ none → record.owner_id = some (ownerJson row.owner_id)) := by
  by_cases hserved : served
  · rw [hwarm hserved]
    refine ⟨⟨rfl, rfl, rfl⟩, fun howner => ?_⟩
    obtain ⟨o, ho⟩ := Option.ne_none_iff_exists'.mp howner
    rw [warmRecord, ho]
    rfl
  · rw [hrow hserved]
    exact ⟨recordOfRow_describes row, fun _ => rfl⟩

end Source

/-- Two calls, with no write between them but what the cache does, return the same record if
GET is served with the entry of `shortenUrl` in both of them or in neither. In any case the
records agree on the identity, and on the owner if there is one; the date is that of the row,
or in the entry of `shortenUrl` that of its writing. -/
theorem resolve_transparent {host : Host} (hdates : host.ReadsDates) {row : UrlRow} {now : ℤ}
    (hcreated : IsTime row.created_at) (hnow : IsTime now) {db₁ db₁' db₂ db₂' : Db}
    {replies₁ replies₂ : List Reply} {result₁ result₂ : Option UrlRecord}
    (h₁ : Kept row now db₁) (h₂ : Kept row now db₂)
    (hrun₁ : (resolveAlone host row.alias).run replies₁ (db₁, .getting) =
      some (db₁', .returned result₁))
    (hrun₂ : (resolveAlone host row.alias).run replies₂ (db₂, .getting) =
      some (db₂', .returned result₂)) :
    Kept row now db₁' ∧ ∃ record₁ record₂, result₁ = some record₁ ∧ result₂ = some record₂ ∧
      ((ServedWarm row now db₁ replies₁ ↔ ServedWarm row now db₂ replies₂) →
        record₁ = record₂) ∧
      (record₁.id = record₂.id ∧ record₁.alias = record₂.alias ∧
        record₁.original_url = record₂.original_url) ∧
      (row.owner_id ≠ none → record₁.owner_id = record₂.owner_id) ∧
      (ServedWarm row now db₁ replies₁ → record₁.created_at = some now) ∧
      (¬ ServedWarm row now db₁ replies₁ → record₁ = recordOfRow row) := by
  obtain ⟨hkept, record₁, hresult₁, hwarm₁, hrow₁⟩ := h₁.resolved hdates hcreated hnow hrun₁
  obtain ⟨-, record₂, hresult₂, hwarm₂, hrow₂⟩ := h₂.resolved hdates hcreated hnow hrun₂
  obtain ⟨⟨hid₁, ha₁, hu₁⟩, ho₁⟩ := describes_of_source hwarm₁ hrow₁
  obtain ⟨⟨hid₂, ha₂, hu₂⟩, ho₂⟩ := describes_of_source hwarm₂ hrow₂
  refine ⟨hkept, record₁, record₂, hresult₁, hresult₂, fun hiff => ?_,
    ⟨hid₁.trans hid₂.symm, ha₁.trans ha₂.symm, hu₁.trans hu₂.symm⟩,
    fun howner => (ho₁ howner).trans (ho₂ howner).symm, fun hserved => ?_, hrow₁⟩
  · by_cases hserved : ServedWarm row now db₁ replies₁
    · rw [hwarm₁ hserved, hwarm₂ (hiff.mp hserved)]
    · rw [hrow₁ hserved, hrow₂ fun h => hserved (hiff.mpr h)]
  · rw [hwarm₁ hserved]
    rfl

/-- An engine that reads dates in the interchange form only. -/
def isoHost : Host where
  bigIntOfNumber := bigIntOfString
  numberText literal := literal
  newDate
    | some (.str s) => some (parseISO s)
    | _ => some none
  newDate_str _ := rfl

/-- A row with an owner, inserted at the epoch. -/
def ownedRow : UrlRow := ⟨1, js "1", js "https://example.com", some (js "owner"), 0⟩

/-- Its cache was warmed a millisecond later. -/
def warmedDb : Db :=
  { Db.empty with urls := [ownedRow] }.set (urlKey (js "1")) (warmText ownedRow 1)

/-- GET and SET time out. -/
def redisDown : List Reply :=
  [.fail ⟨none, js "timeout"⟩ false, .done, .fail ⟨none, js "timeout"⟩ false]

lemma isoHost_readsDates : isoHost.ReadsDates := by
  intro s t h
  exact congrArg some h

lemma kept_warmedDb : Kept ownedRow 1 warmedDb := by
  refine ⟨by decide, fun text htext => .inl ?_⟩
  simpa [warmedDb, Db.set, ownedRow] using htext.symm

lemma run_warmed : (resolveAlone isoHost ownedRow.alias).run [.done] (warmedDb, .getting) =
    some (warmedDb, .returned (some (warmRecord ownedRow 1))) := by
  apply run_hit
  have hcache : warmedDb.cache (urlKey ownedRow.alias) = some (warmText ownedRow 1) := by
    simp [warmedDb, Db.set, ownedRow]
  rw [hcache, readCache_warmText isoHost_readsDates (by decide)]

lemma run_redisDown : (resolveAlone isoHost ownedRow.alias).run redisDown (warmedDb, .getting) =
    some (warmedDb, .returned (some (recordOfRow ownedRow))) := rfl

theorem resolve_transparent_owned : ∃ record₁ record₂ : UrlRecord,
    (resolveAlone isoHost ownedRow.alias).run [.done] (warmedDb, .getting) =
      some (warmedDb, .returned (some record₁)) ∧
    (resolveAlone isoHost ownedRow.alias).run redisDown (warmedDb, .getting) =
      some (warmedDb, .returned (some record₂)) ∧
    Kept ownedRow 1 warmedDb ∧
    ((ServedWarm ownedRow 1 warmedDb [.done] ↔ ServedWarm ownedRow 1 warmedDb redisDown) →
      record₁ = record₂) ∧
    (record₁.id = record₂.id ∧ record₁.alias = record₂.alias ∧
      record₁.original_url = record₂.original_url) ∧
    record₁.owner_id = record₂.owner_id ∧ record₁.created_at = some 1 ∧
    record₂.created_at = some 0 := by
  obtain ⟨hkept, record₁, record₂, hresult₁, hresult₂, hsame, hfields, howner, hserved, -⟩ :=
    resolve_transparent isoHost_readsDates (by decide) (by decide) kept_warmedDb kept_warmedDb
      run_warmed run_redisDown
  have hwarm : ServedWarm ownedRow 1 warmedDb [.done] := by
    refine ⟨rfl, ?_⟩
    simp [warmedDb, Db.set, ownedRow]
  refine ⟨record₁, record₂, hresult₁ ▸ run_warmed, hresult₂ ▸ run_redisDown, hkept, hsame,
    hfields, howner (by decide), hserved hwarm, ?_⟩
  rw [← Option.some.inj hresult₂]
  rfl

/-- The date of the record depends on whether GET was served. -/
theorem cached_date_differs : ¬ ∀ (row : UrlRow) (now : ℤ) (db db₁ db₂ : Db)
    (replies₁ replies₂ : List Reply) (result₁ result₂ : Option UrlRecord), Kept row now db →
    (resolveAlone isoHost row.alias).run replies₁ (db, .getting) =
      some (db₁, .returned result₁) →
    (resolveAlone isoHost row.alias).run replies₂ (db, .getting) =
      some (db₂, .returned result₂) → result₁ = result₂ := by
  intro htransparent
  have hsame := htransparent _ _ _ _ _ _ _ _ _ kept_warmedDb run_warmed run_redisDown
  have hdate := congrArg UrlRecord.created_at (Option.some.inj hsame)
  exact absurd hdate (by decide)

end UrlShortener.UrlService
