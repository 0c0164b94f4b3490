import UrlShortener.CacheTransparency

/-! What `resolveUrl` makes of any text under the key of an alias: which texts it refuses, and
which ones it takes for a record. -/
namespace UrlShortener.UrlService
open Js Json Transition

/-- The text of an integer. -/
def integer (id : ℤ) : JsString :=
  if id < 0 then unit '-' :: decimal id.natAbs else decimal id.natAbs

/-- The fields of a record of an alias, as `JSON.stringify` writes them. -/
structure RecordShaped (a : JsString) (value : Json) : Prop where
  id : ∃ id, value.prop "id" = some (.str (integer id))
  alias_eq : value.prop "alias" = some (.str a)
  original_url : ∃ originalUrl, value.prop "original_url" = some (.str originalUrl)
  owner_id : value.prop "owner_id" = none ∨
    ∃ owner, value.prop "owner_id" = some (ownerJson owner)
  created_at : ∃ created, value.prop "created_at" = some (.str (toISOString created))

/-- A text of a record of the alias, whatever the order of its fields. It may have others beside
them, and dates that no clock shows. -/
def Serialised (a v : JsString) : Prop :=
  ∃ fields, parse v = some (.obj fields) ∧ RecordShaped a (.obj fields)

/-- The empty text, no JSON or no object, an id that `BigInt` throws on, or a date that
`new Date` throws on. -/
def Refuses (host : Host) (v : JsString) : Prop :=
  v = [] ∨ ∀ fields, parse v = some (.obj fields) →
    toBigInt host ((Json.obj fields).prop "id") = none ∨
      host.newDate ((Json.obj fields).prop "created_at") = none

section Refusal
variable {host : Host} {a v : JsString} {db : Db}

lemma decodeRecord_obj {fields : List (JsString × Json)} (h : parse v = some (.obj fields)) :
    decodeRecord host v = none ↔ toBigInt host ((Json.obj fields).prop "id") = none ∨
      host.newDate ((Json.obj fields).prop "created_at") = none := by
  rw [decodeRecord, h]
  dsimp only
  cases toBigInt host ((Json.obj fields).prop "id") with
  | none => simp
  | some id =>
    cases host.newDate ((Json.obj fields).prop "created_at") with
    | none => simp
    | some date => simp

lemma decodeRecord_of_not_obj (h : ∀ fields, parse v ≠ some (.obj fields)) :
    decodeRecord host v = none := by
  rw [decodeRecord]
  cases hparse : parse v with
  | none => rfl
  | some value =>
    cases value with
    | null => rfl
    | bool | num | str | arr => rfl
    | obj fields => exact absurd hparse (h fields)

/-- The texts after which the table is asked. -/
theorem readCache_eq_none_iff : readCache host (some v) = none ↔ Refuses host v := by
  cases v with
  | nil => exact iff_of_true rfl (.inl rfl)
  | cons c v =>
    change decodeRecord host (c :: v) = none ↔ _
    by_cases hobj : ∃ fields, parse (c :: v) = some (.obj fields)
    · obtain ⟨fields, hfields⟩ := hobj
      rw [decodeRecord_obj hfields, Refuses, or_iff_right (List.cons_ne_nil c v)]
      constructor
      · intro h other hother
        rw [hfields] at hother
        cases hother
        exact h
      · intro h
        exact h fields hfields
    · have hnone : ∀ fields, parse (c :: v) ≠ some (.obj fields) :=
        fun fields h => hobj ⟨fields, h⟩
      exact iff_of_true (decodeRecord_of_not_obj hnone)
        (.inr fun fields h => absurd h (hnone fields))

/-- The entry that a refill writes is a text of the record. -/
lemma serialised_rowText (row : UrlRow) : Serialised row.alias (rowText row) := by
  refine ⟨_, parse_stringify (recordFields_wellFormed row.id row.alias row.original_url
    row.created_at wellFormed_ownerJson), ⟨row.id, ?_⟩, prop_alias .., ⟨_, prop_original_url ..⟩,
    .inr ⟨row.owner_id, prop_owner_id ..⟩, ⟨_, prop_created_at ..⟩⟩
  rw [prop_id, integer, if_neg (by omega), Int.natAbs_natCast]

/-- A miss with Redis and Postgres answering. -/
lemma run_miss (h : readCache host (db.cache (urlKey a)) = none) : ∃ n db',
    (resolveAlone host a).run (List.replicate n .done) (db, .getting) = some (db',
        .returned ((db.urls.find? fun row => row.alias = a).map recordOfRow)) ∧
      ∀ row, db.urls.find? (fun row => row.alias = a) = some row →
        db'.cache (urlKey a) = some (rowText row) := by
  have hget := next_of_miss h
  cases hfind : db.urls.find? fun row => row.alias = a with
  | none =>
    refine ⟨2, db, ?_, fun row hrow => (by cases hrow)⟩
    rw [List.replicate_succ, System.run_cons_of_next hget, List.replicate_one,
      System.run_cons_of_next (next_of_absent hfind)]
    rfl
  | some row =>
    refine ⟨3, db.set (urlKey a) (rowText row), ?_, fun row' hrow' => ?_⟩
    · rw [List.replicate_succ, System.run_cons_of_next hget, List.replicate_succ,
        System.run_cons_of_next (next_of_found hfind)]
      rfl
    · obtain rfl := Option.some.inj hrow'
      simp [Db.set]

/-- A text that is returned like the row and stays in its place is the row's own. -/
lemma serialised_of_kept {record : UrlRecord} (hcache : db.cache (urlKey a) = some v)
    (hresult : some record = (db.urls.find? fun row => row.alias = a).map recordOfRow)
    (hentry : ∀ row, db.urls.find? (fun row => row.alias = a) = some row →
      db.cache (urlKey a) = some (rowText row)) : Serialised a v := by
  cases hfind : db.urls.find? fun row => row.alias = a with
  | none =>
    rw [hfind] at hresult
    cases hresult
  | some row =>
    have htext := hentry row hfind
    rw [hcache, Option.some.injEq] at htext
    have halias : row.alias = a := by simpa using List.find?_some hfind
    rw [htext, ← halias]
    exact serialised_rowText row

end Refusal

/-- With Redis and Postgres answering no text keeps a call from returning. It returns what the
table has, and a row replaces the text, for every text that is no record of the alias exactly
when the text is refused; a record of the alias it may return. -/
theorem corrupt_entry_iff (host : Host) (a v : JsString) (db : Db) :
    ∃ n db' result, (resolveAlone host a).run (List.replicate n .done)
        (db.set (urlKey a) v, .getting) = some (db', .returned result) ∧
      ((¬ Serialised a v →
        result = (db.urls.find? fun row => row.alias = a).map recordOfRow ∧
        ∀ row, db.urls.find? (fun row => row.alias = a) = some row →
          db'.cache (urlKey a) = some (rowText row)) ↔
        Refuses host v ∨ Serialised a v) := by
  have hcache : (db.set (urlKey a) v).cache (urlKey a) = some v := by simp [Db.set]
  rw [← readCache_eq_none_iff]
  cases hread : readCache host (some v) with
  | none =>
    have hmiss : readCache host ((db.set (urlKey a) v).cache (urlKey a)) = none := by
      rw [hcache, hread]
    obtain ⟨n, db', hrun, hentry⟩ := run_miss hmiss
    exact ⟨n, db', _, hrun, iff_of_true (fun _ => ⟨rfl, hentry⟩) (.inl rfl)⟩
  | some record =>
    have hhit : readCache host ((db.set (urlKey a) v).cache (urlKey a)) = some record := by
      rw [hcache, hread]
    refine ⟨1, _, _, run_hit hhit, ?_⟩
    constructor
    · intro h
      refine .inr ?_
      by_contra hnot
      obtain ⟨hresult, hentry⟩ := h hnot
      exact hnot (serialised_of_kept hcache hresult hentry)
    · intro h hnot
      rcases h with h | h
      · cases h
      · exact absurd h hnot

/-- An object with an id and nothing else. -/
def shapeless : JsString := stringify (.obj [(js "id", .str (js "1"))])

/-- It is returned for a record, although the row is there. -/
theorem shapeless_entry_returned : ¬ ∀ (host : Host) (a v : JsString) (db db' : Db) (n : ℕ)
    (result : Option UrlRecord), ¬ Serialised a v →
    (resolveAlone host a).run (List.replicate n .done) (db.set (urlKey a) v, .getting) =
      some (db', .returned result) →
    result = (db.urls.find? fun row => row.alias = a).map recordOfRow := by
  intro hmiss
  let db : Db := { Db.empty with urls := [ownedRow] }
  have hparse : parse shapeless = some (.obj [(js "id", .str (js "1"))]) :=
    parse_stringify ⟨List.nodup_singleton _, trivial, trivial⟩
  have hnot : ¬ Serialised (js "1") shapeless := by
    intro hserialised
    obtain ⟨fields, hfields, hshape⟩ := hserialised
    rw [hparse] at hfields
    cases hfields
    have halias := hshape.alias_eq
    cases halias
  have hread : readCache isoHost ((db.set (urlKey (js "1")) shapeless).cache (urlKey (js "1"))) =
      some ⟨1, none, none, none, none⟩ := by
    have hid : bigIntOfString (js "1") = some 1 := by decide +kernel
    have hcache : (db.set (urlKey (js "1")) shapeless).cache (urlKey (js "1")) =
        some shapeless := by
      simp [Db.set]
    rw [hcache]
    apply readCache_some
    rw [decodeRecord, hparse]
    change (bigIntOfString (js "1")).bind _ = _
    rw [hid]
    rfl
  have hresult := hmiss isoHost (js "1") shapeless db _ 1 _ hnot (run_hit hread)
  have halias := congrArg (Option.map UrlRecord.alias) hresult
  cases halias

end UrlShortener.UrlService
