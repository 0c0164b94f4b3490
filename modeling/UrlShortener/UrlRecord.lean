import UrlShortener.JsonRoundtrip
import UrlShortener.JsNumber
import UrlShortener.AliasGenerator

/-! Rows of `urls`, the records that `resolveUrl` returns, and the text under which a
record is cached. -/
namespace UrlShortener.UrlService
open Js Json AliasGenerator

/-- A row of the `urls` table; `created_at` in milliseconds, as the driver reads it. -/
structure UrlRow where
  id : ℕ
  «alias» : JsString
  original_url : JsString
  owner_id : Option JsString
  created_at : ℤ
  deriving DecidableEq

/-- What the engine computes on values that are no integers or strings of this code:
`BigInt` of a number literal, the text of a number, and `new Date(value)`, which
throws (`none`) or may be an invalid date (`some none`). -/
structure Host where
  bigIntOfNumber : JsString → Option ℤ
  numberText : JsString → JsString
  newDate : Option Json → Option (Option ℤ)
  newDate_str : ∀ s, (newDate (some (.str s))).isSome

/-- The record of `resolveUrl`; fields read from a cache entry may be anything. -/
structure UrlRecord where
  id : ℤ
  «alias» : Option Json
  original_url : Option Json
  owner_id : Option Json
  created_at : Option ℤ

mutual
/-- Conversion of an array element to a string. -/
def itemText (host : Host) : Json → JsString
  | .null => []
  | .bool b => if b then js "true" else js "false"
  | .num literal => host.numberText literal
  | .str s => s
  | .arr items => itemsText host items
  | .obj _ => js "[object Object]"

def itemsText (host : Host) : List Json → JsString
  | [] => []
  | v :: vs => itemText host v ++ moreItemsText host vs

def moreItemsText (host : Host) : List Json → JsString
  | [] => []
  | v :: vs => unit ',' :: itemText host v ++ moreItemsText host vs
end

/-- `BigInt(value)`; `none` stands for a thrown error. -/
def toBigInt (host : Host) : Option Json → Option ℤ
  | none => none
  | some .null => none
  | some (.bool b) => some (if b then 1 else 0)
  | some (.num literal) => host.bigIntOfNumber literal
  | some (.str s) => bigIntOfString s
  | some (.arr items) => bigIntOfString (itemsText host items)
  | some (.obj _) => none

/-- Reading a cache entry back: `none` where parsing or a conversion throws. -/
def decodeRecord (host : Host) (cachedData : JsString) : Option UrlRecord :=
  match parse cachedData with
  | none => none
  | some .null => none
  | some parsed => do
    let id ← toBigInt host (parsed.prop "id")
    let created ← host.newDate (parsed.prop "created_at")
    some ⟨id, parsed.prop "alias", parsed.prop "original_url", parsed.prop "owner_id", created⟩

/-- The fields that `JSON.stringify` writes; an undefined owner is left out. -/
def recordFields (id : ℕ) (a originalUrl : JsString) (owner : Option Json) (created : ℤ) :
    List (JsString × Json) :=
  (js "id", .str (decimal id)) :: (js "alias", .str a) ::
    (js "original_url", .str originalUrl) ::
    ((owner.map (Prod.mk (js "owner_id"))).toList ++
      [(js "created_at", .str (toISOString created))])

def recordText (id : ℕ) (a originalUrl : JsString) (owner : Option Json) (created : ℤ) :
    JsString := stringify (.obj (recordFields id a originalUrl owner created))

/-- The cache entry that `shortenUrl` writes for its row. -/
def warmText (row : UrlRow) (now : ℤ) : JsString :=
  recordText row.id row.alias row.original_url (row.owner_id.map .str) now

def ownerJson : Option JsString → Json
  | none => .null
  | some o => .str o

/-- The record that `resolveUrl` builds from a row. -/
def recordOfRow (row : UrlRow) : UrlRecord :=
  ⟨row.id, some (.str row.alias), some (.str row.original_url), some (ownerJson row.owner_id),
    some row.created_at⟩

/-- The cache entry that `resolveUrl` writes for a row. -/
def rowText (row : UrlRow) : JsString :=
  recordText row.id row.alias row.original_url (some (ownerJson row.owner_id)) row.created_at

def urlKey (a : JsString) : JsString := js "url:" ++ a

lemma urlKey_injective : Function.Injective urlKey := fun _ _ h => List.append_cancel_left h

/-- A record that carries the identity of a row. -/
def Describes (rec : UrlRecord) (row : UrlRow) : Prop :=
  rec.id = row.id ∧ rec.alias = some (.str row.alias) ∧
    rec.original_url = some (.str row.original_url)

section Fields
variable (id : ℕ) (a originalUrl : JsString) (owner : Option Json) (created : ℤ)

lemma recordFields_nodup :
    ((recordFields id a originalUrl owner created).map Prod.fst).Nodup := by
  cases owner with
  | none =>
    have hkeys : (recordFields id a originalUrl none created).map Prod.fst =
        [js "id", js "alias", js "original_url", js "created_at"] := rfl
    rw [hkeys]
    decide
  | some o =>
    have hkeys : (recordFields id a originalUrl (some o) created).map Prod.fst =
        [js "id", js "alias", js "original_url", js "owner_id", js "created_at"] := rfl
    rw [hkeys]
    decide

variable {owner}

lemma recordFields_wellFormed (ho : ∀ o, owner = some o → WellFormed o) :
    WellFormed (.obj (recordFields id a originalUrl owner created)) := by
  refine ⟨recordFields_nodup id a originalUrl owner created, ?_⟩
  cases owner with
  | none => exact ⟨trivial, trivial, trivial, trivial, trivial⟩
  | some o => exact ⟨trivial, trivial, trivial, ho o rfl, trivial, trivial⟩

variable (owner)

lemma prop_id :
    (Json.obj (recordFields id a originalUrl owner created)).prop "id" =
      some (.str (decimal id)) :=
  prop_of_mem (recordFields_nodup id a originalUrl owner created) (.head _)

lemma prop_alias :
    (Json.obj (recordFields id a originalUrl owner created)).prop "alias" = some (.str a) :=
  prop_of_mem (recordFields_nodup id a originalUrl owner created) (.tail _ (.head _))

lemma prop_original_url :
    (Json.obj (recordFields id a originalUrl owner created)).prop "original_url" =
      some (.str originalUrl) :=
  prop_of_mem (recordFields_nodup id a originalUrl owner created) (.tail _ (.tail _ (.head _)))

lemma prop_owner_id :
    (Json.obj (recordFields id a originalUrl owner created)).prop "owner_id" = owner := by
  rw [recordFields, prop_tail (by decide), prop_tail (by decide), prop_tail (by decide)]
  cases owner with
  | none => exact prop_tail (by decide) _ _
  | some o => exact prop_head _ _ _

lemma prop_created_at :
    (Json.obj (recordFields id a originalUrl owner created)).prop "created_at" =
      some (.str (toISOString created)) := by
  apply prop_of_mem (recordFields_nodup id a originalUrl owner created)
  simp [recordFields]

end Fields

/-- A cached record is read back as it was, up to its date. -/
theorem decodeRecord_recordText_of_date {host : Host} (id : ℕ) (a originalUrl : JsString)
    {owner : Option Json} (ho : ∀ o, owner = some o → WellFormed o) {created : ℤ}
    {date : Option ℤ} (hd : host.newDate (some (.str (toISOString created))) = some date) :
    decodeRecord host (recordText id a originalUrl owner created) =
      some ⟨id, some (.str a), some (.str originalUrl), owner, date⟩ := by
  have hp : parse (recordText id a originalUrl owner created) =
      some (.obj (recordFields id a originalUrl owner created)) :=
    parse_stringify (recordFields_wellFormed id a originalUrl created ho)
  rw [decodeRecord, hp]
  simp only [prop_id, prop_alias, prop_original_url, prop_owner_id, prop_created_at, toBigInt,
    bigIntOfString_decimal, hd, Option.bind_eq_bind, Option.bind_some]

/-- A cached record is read back with its identity. -/
theorem decodeRecord_recordText (host : Host) (id : ℕ) (a originalUrl : JsString)
    {owner : Option Json} (ho : ∀ o, owner = some o → WellFormed o) (created : ℤ) :
    ∃ date, decodeRecord host (recordText id a originalUrl owner created) =
      some ⟨id, some (.str a), some (.str originalUrl), owner, date⟩ := by
  obtain ⟨date, hd⟩ := Option.isSome_iff_exists.mp (host.newDate_str (toISOString created))
  exact ⟨date, decodeRecord_recordText_of_date id a originalUrl ho hd⟩

lemma wellFormed_owner {row : UrlRow} : ∀ o, row.owner_id.map Json.str = some o → WellFormed o := by
  intro o h
  obtain ⟨s, -, rfl⟩ := Option.map_eq_some_iff.mp h
  trivial

lemma wellFormed_ownerJson {row : UrlRow} :
    ∀ o, some (ownerJson row.owner_id) = some o → WellFormed o := by
  intro o h
  obtain rfl := Option.some.inj h
  cases row.owner_id <;> trivial

/-- Either cache entry for a row describes the row. -/
theorem warmText_describes (host : Host) (row : UrlRow) (now : ℤ) :
    ∃ rec, decodeRecord host (warmText row now) = some rec ∧ Describes rec row := by
  obtain ⟨date, h⟩ :=
    decodeRecord_recordText host row.id row.alias row.original_url wellFormed_owner now
  exact ⟨_, h, rfl, rfl, rfl⟩

theorem rowText_describes (host : Host) (row : UrlRow) :
    ∃ rec, decodeRecord host (rowText row) = some rec ∧ Describes rec row := by
  obtain ⟨date, h⟩ := decodeRecord_recordText host row.id row.alias row.original_url
    wellFormed_ownerJson row.created_at
  exact ⟨_, h, rfl, rfl, rfl⟩

lemma recordOfRow_describes (row : UrlRow) : Describes (recordOfRow row) row := ⟨rfl, rfl, rfl⟩

end UrlShortener.UrlService
