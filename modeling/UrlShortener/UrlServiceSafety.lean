import UrlShortener.UrlService

/-! Any number of `shortenUrl` and `resolveUrl` calls over one database and one cache:
aliases never collide, and what a call has returned is what later calls resolve. -/
namespace UrlShortener.UrlService
open Js AliasGenerator Transition

inductive Call
  | idle
  | shorten (originalUrl : JsString) (ownerId : Option JsString) (pc : ShortenPc)
  | resolve (a : JsString) (pc : ResolvePc)

/-- What a `shortenUrl` call was given and has returned. -/
def Call.shortened : Call → Option (JsString × JsString)
  | .shorten u _ (.returned a) => some (u, a)
  | _ => none

/-- What a `resolveUrl` call was given and has returned. -/
def Call.resolved : Call → Option (JsString × Option UrlRecord)
  | .resolve a (.returned record) => some (a, record)
  | _ => none

/-- A call begins, or gets the reply it waits for. -/
inductive CallEvent
  | shorten (originalUrl : JsString) (ownerId : Option JsString)
  | resolve (a : JsString)
  | reply (r : Reply)

/-- What happens outside every call: a cache entry expires or is evicted, and a
sequence value is consumed whose reply never arrives. -/
inductive Surroundings
  | evict (key : JsString)
  | burn (n : ℕ)

def callStep (host : Host) : CallEvent → Db → Call → Option (Db × Call)
  | .shorten u o, db, .idle => some (db, .shorten u o .connecting)
  | .resolve a, db, .idle => some (db, .resolve a .getting)
  | .reply r, db, .shorten u o pc =>
    (shortenStep u o r db pc).map fun d => (d.1, .shorten u o d.2)
  | .reply r, db, .resolve a pc =>
    (resolveStep host a r db pc).map fun d => (d.1, .resolve a d.2)
  | _, _, _ => none

def surroundingsStep : Surroundings → Db → Option Db
  | .evict key, db => some { db with cache := Function.update db.cache key none }
  | .burn n, db => some { db with used := n :: db.used }

def calls (host : Host) : Threads Db Call CallEvent Surroundings where
  step := callStep host
  env := surroundingsStep

variable {host : Host} {u a : JsString} {o : Option JsString} {db db' : Db}

lemma Call.eq_of_shortened {l : Call} (h : l.shortened = some (u, a)) :
    ∃ o, l = .shorten u o (.returned a) := by
  revert h
  fun_cases Call.shortened l with
  | case1 v o b =>
    intro h
    cases h
    exact ⟨o, rfl⟩
  | case2 => nofun

lemma Call.eq_of_resolved {l : Call} {record : Option UrlRecord}
    (h : l.resolved = some (a, record)) : l = .resolve a (.returned record) := by
  revert h
  fun_cases Call.resolved l with
  | case1 b r =>
    intro h
    cases h
    rfl
  | case2 => nofun

/-! What a step of `shortenUrl` can do. -/

/-- A call that holds no identifier. -/
def ShortenPc.Blank : ShortenPc → Prop
  | .beginning | .fetchingId | .rollingBack none | .rejected _ => True
  | _ => False

inductive ShortenMove (u : JsString) (o : Option JsString) (db : Db) :
    ShortenPc → Db → ShortenPc → Prop
  | quiet {pc pc' : ShortenPc} (h : pc'.Blank) : ShortenMove u o db pc db pc'
  | reserve {n : ℕ} (h : n ∉ db.used) :
    ShortenMove u o db .fetchingId { db with used := n :: db.used } (.inserting n (numeral n))
  | insert {n : ℕ} {a : JsString} {time : ℤ} :
    ShortenMove u o db (.inserting n a)
      { db with pending := ⟨n, a, u, o, time⟩ :: db.pending } (.committing ⟨n, a, u, o, time⟩)
  | commit {row : UrlRow} {pc' : ShortenPc} (h : pc'.Blank ∨ ∃ now, pc' = .warming row now) :
    ShortenMove u o db (.committing row) (db.commit row) pc'
  | lose {row : UrlRow} : ShortenMove u o db (.committing row) db (.rollingBack (some row))
  | warm {row : UrlRow} {now : ℤ} {pc' : ShortenPc}
    (h : pc'.Blank ∨ pc' = .returned row.alias) :
    ShortenMove u o db (.warming row now) (db.set (urlKey row.alias) (warmText row now)) pc'
  | abort {row : Option UrlRow} {message : JsString} :
    ShortenMove u o db (.rollingBack row) (db.abort row) (.rejected message)

theorem shortenMove_of_step {r : Reply} {pc pc' : ShortenPc}
    (h : shortenStep u o r db pc = some (db', pc')) : ShortenMove u o db pc db' pc' := by
  revert h
  fun_cases shortenStep u o r db pc with
  | case5 n hn a ha =>
    intro h
    cases h
    obtain rfl : numeral n = a := by simpa [generateAlias_natCast] using ha
    exact .reserve hn.2.2
  | case6 n hn e he => simp [generateAlias_natCast] at he
  | case11 id a time _ _ row =>
    intro h
    cases h
    exact .insert
  | case13 row now =>
    intro h
    cases h
    exact .commit (.inr ⟨now, rfl⟩)
  | case14 row e =>
    intro h
    cases h
    exact .commit (.inl trivial)
  | case15 row e =>
    intro h
    cases h
    exact .lose
  | case16 row now =>
    intro h
    cases h
    exact .warm (.inr rfl)
  | case17 row now e applied =>
    intro h
    cases h
    cases applied
    · exact .quiet trivial
    · exact .warm (.inl trivial)
  | case18 row | case19 row =>
    intro h
    cases h
    exact .abort
  | case7 | case10 | case20 =>
    intro h
    cases h
  | _ =>
    intro h
    cases h
    exact .quiet trivial

/-! What a step of `resolveUrl` can do. -/

inductive ResolveMove (host : Host) (a : JsString) (db : Db) :
    ResolvePc → Db → ResolvePc → Prop
  | hit {text : JsString} {rec : UrlRecord} (hc : db.cache (urlKey a) = some text)
    (hd : decodeRecord host text = some rec) :
    ResolveMove host a db .getting db (.returned (some rec))
  | miss : ResolveMove host a db .getting db .selecting
  | absent (h : ∀ row ∈ db.urls, row.alias ≠ a) :
    ResolveMove host a db .selecting db (.returned none)
  | found {row : UrlRow} (h : row ∈ db.urls) (ha : row.alias = a) :
    ResolveMove host a db .selecting db (.populating row)
  | reject : ResolveMove host a db .selecting db (.rejected resolutionError)
  | keep {row : UrlRow} :
    ResolveMove host a db (.populating row) db (.returned (some (recordOfRow row)))
  | populate {row : UrlRow} :
    ResolveMove host a db (.populating row) (db.set (urlKey a) (rowText row))
      (.returned (some (recordOfRow row)))

lemma readCache_eq_some {cachedData : Option JsString} {rec : UrlRecord}
    (h : readCache host cachedData = some rec) :
    ∃ text, cachedData = some text ∧ decodeRecord host text = some rec := by
  cases cachedData with
  | none => cases h
  | some text =>
    refine ⟨text, rfl, ?_⟩
    by_cases ht : text.isEmpty <;> simp_all [readCache]

theorem resolveMove_of_step {r : Reply} {pc pc' : ResolvePc}
    (h : resolveStep host a r db pc = some (db', pc')) : ResolveMove host a db pc db' pc' := by
  revert h
  fun_cases resolveStep host a r db pc with
  | case1 rec hrec =>
    intro h
    cases h
    obtain ⟨text, hc, hd⟩ := readCache_eq_some hrec
    exact .hit hc hd
  | case2 | case3 =>
    intro h
    cases h
    exact .miss
  | case4 hnone =>
    intro h
    cases h
    exact .absent (by simpa using hnone)
  | case5 row hrow =>
    intro h
    cases h
    exact .found (List.mem_of_find?_eq_some hrow) (by simpa using List.find?_some hrow)
  | case6 =>
    intro h
    cases h
    exact .reject
  | case7 row =>
    intro h
    cases h
    exact .populate
  | case8 row e applied =>
    intro h
    cases h
    cases applied
    · exact .keep
    · exact .populate
  | case9 =>
    intro h
    cases h

/-! The invariant. -/

/-- Every row is named by its identifier and every cache entry describes the committed
row that it is filed under. -/
structure Coherent (host : Host) (db : Db) : Prop where
  named : ∀ row ∈ db.urls ++ db.pending, row.alias = numeral row.id ∧ row.id ∈ db.used
  nodup : ((db.urls ++ db.pending).map UrlRow.id).Nodup
  cached : ∀ key text, db.cache key = some text → ∃ row ∈ db.urls,
    key = urlKey row.alias ∧ ∃ rec, decodeRecord host text = some rec ∧ Describes rec row

def ShortenPc.Holds (u : JsString) (db : Db) : ShortenPc → Prop
  | .inserting n a => a = numeral n ∧ n ∈ db.used ∧ ∀ row ∈ db.urls ++ db.pending, row.id ≠ n
  | .committing row | .rollingBack (some row) => row ∈ db.pending ∧ row.original_url = u
  | .warming row _ => row ∈ db.urls ∧ row.original_url = u
  | .returned a => ∃ row ∈ db.urls, row.alias = a ∧ row.original_url = u
  | _ => True

def ResolvePc.Holds (a : JsString) (db : Db) : ResolvePc → Prop
  | .populating row => row ∈ db.urls ∧ row.alias = a
  | .returned (some rec) => ∃ row ∈ db.urls, row.alias = a ∧ Describes rec row
  | _ => True

def Call.Holds (db : Db) : Call → Prop
  | .idle => True
  | .shorten u _ pc => pc.Holds u db
  | .resolve a pc => pc.Holds a db

/-- The alias that a call of `shortenUrl` has to itself. -/
def ShortenPc.reserved : ShortenPc → Option JsString
  | .inserting _ a | .returned a => some a
  | .committing row | .rollingBack (some row) | .warming row _ => some row.alias
  | _ => none

def Call.reserved : Call → Option JsString
  | .shorten _ _ pc => pc.reserved
  | _ => none

def Apart (l m : Call) : Prop := ∀ a, l.reserved = some a → m.reserved ≠ some a

/-- What a call that has the alias `mine` to itself may do to the database. -/
structure Touches (mine : Option JsString) (db db' : Db) : Prop where
  used : db.used ⊆ db'.used
  urls : db.urls ⊆ db'.urls
  pending : ∀ row ∈ db.pending, row ∈ db'.pending ∨ mine = some row.alias
  rows : ∀ row ∈ db'.urls ++ db'.pending,
    row ∈ db.urls ++ db.pending ∨ mine = some row.alias

lemma Touches.of_eq {mine : Option JsString} (hn : db.used ⊆ db'.used)
    (hu : db'.urls = db.urls) (hp : db'.pending = db.pending) : Touches mine db db' := by
  refine ⟨hn, ?_, ?_, ?_⟩
  · simp [hu]
  · simp +contextual [hp]
  · simp +contextual [hu, hp]

lemma ShortenPc.Blank.reserved {pc : ShortenPc} (h : pc.Blank) : pc.reserved = none := by
  fun_cases Blank pc <;> simp_all [ShortenPc.reserved, ShortenPc.Blank]

lemma ShortenPc.Blank.holds {pc : ShortenPc} (h : pc.Blank) : pc.Holds u db := by
  fun_cases Blank pc <;> simp_all [ShortenPc.Holds, ShortenPc.Blank]

lemma Coherent.set (hc : Coherent host db) {row : UrlRow} {text : JsString} (hr : row ∈ db.urls)
    (ht : ∃ rec, decodeRecord host text = some rec ∧ Describes rec row) :
    Coherent host (db.set (urlKey row.alias) text) := by
  refine ⟨hc.named, hc.nodup, fun key t hk => ?_⟩
  by_cases h : key = urlKey row.alias
  · subst h
    obtain rfl : text = t := by simpa [Db.set] using hk
    exact ⟨row, hr, rfl, ht⟩
  · exact hc.cached key t (by simpa [Db.set, h] using hk)

lemma commit_perm {row : UrlRow} (hr : row ∈ db.pending) :
    ((db.commit row).urls ++ (db.commit row).pending).Perm (db.urls ++ db.pending) := by
  have hp : (row :: db.pending.erase row).Perm db.pending := (List.perm_cons_erase hr).symm
  simpa [Db.commit] using hp.append_left db.urls

lemma Coherent.commit (hc : Coherent host db) {row : UrlRow} (hr : row ∈ db.pending) :
    Coherent host (db.commit row) := by
  have hp := commit_perm hr
  refine ⟨fun r h => hc.named r (hp.subset h), ((hp.map _).nodup_iff).mpr hc.nodup, ?_⟩
  intro key text hk
  obtain ⟨r, h, rest⟩ := hc.cached key text hk
  exact ⟨r, List.mem_append_left _ h, rest⟩

lemma Coherent.abort (hc : Coherent host db) (row : Option UrlRow) :
    Coherent host (db.abort row) := by
  have hs : (db.abort row).pending.Sublist db.pending := by
    cases row with
    | none => exact .refl _
    | some r => exact List.erase_sublist
  have hs := hs.append_left db.urls
  exact ⟨fun r h => hc.named r (hs.subset h), hc.nodup.sublist (hs.map _), hc.cached⟩

/-! Each step keeps the invariant and leaves what other calls hold. -/

theorem ShortenMove.own {pc pc' : ShortenPc} (h : ShortenMove u o db pc db' pc')
    (hc : Coherent host db) (hp : pc.Holds u db) : Coherent host db' ∧ pc'.Holds u db' := by
  cases h with
  | quiet hb => exact ⟨hc, hb.holds⟩
  | @reserve n hn =>
    refine ⟨⟨fun row hr => ?_, hc.nodup, hc.cached⟩, rfl, List.mem_cons_self, fun row hr => ?_⟩
    · exact ⟨(hc.named row hr).1, List.mem_cons_of_mem _ (hc.named row hr).2⟩
    · have hused := (hc.named row hr).2
      exact fun h => hn (h ▸ hused)
  | @insert n a time =>
    obtain ⟨rfl, hn, hfree⟩ := hp
    refine ⟨⟨?_, ?_, hc.cached⟩, List.mem_cons_self, rfl⟩
    · intro row hr
      have hr : row = ⟨n, numeral n, u, o, time⟩ ∨ row ∈ db.urls ++ db.pending := by
        simp only [List.mem_append, List.mem_cons] at hr ⊢
        tauto
      rcases hr with rfl | hr
      · exact ⟨rfl, hn⟩
      · exact hc.named row hr
    · have hmap : ((db.urls ++ ⟨n, numeral n, u, o, time⟩ :: db.pending).map UrlRow.id).Perm
          (n :: (db.urls ++ db.pending).map UrlRow.id) :=
        List.perm_middle.map UrlRow.id
      refine hmap.nodup_iff.mpr (List.nodup_cons.mpr ⟨?_, hc.nodup⟩)
      intro hmem
      obtain ⟨row, hr, hid⟩ := List.mem_map.mp hmem
      exact hfree row hr hid
  | @commit row pc' h =>
    refine ⟨hc.commit hp.1, ?_⟩
    rcases h with hb | ⟨now, rfl⟩
    · exact hb.holds
    · exact ⟨List.mem_append_right _ List.mem_cons_self, hp.2⟩
  | lose => exact ⟨hc, hp⟩
  | @warm row now pc' h =>
    refine ⟨hc.set hp.1 (warmText_describes host row now), ?_⟩
    rcases h with hb | rfl
    · exact hb.holds
    · exact ⟨row, hp.1, rfl, hp.2⟩
  | @abort row message => exact ⟨hc.abort row, trivial⟩

lemma mem_erase_or {row r : UrlRow} {pending : List UrlRow} (hr : r ∈ pending) :
    r ∈ pending.erase row ∨ some row.alias = some r.alias := by
  by_cases hrow : r = row
  · exact .inr (by rw [hrow])
  · exact .inl ((List.mem_erase_of_ne hrow).mpr hr)

theorem ShortenMove.touches {pc pc' : ShortenPc} (h : ShortenMove u o db pc db' pc') :
    Touches pc.reserved db db' ∧ (pc'.reserved = none ∨ pc'.reserved = pc.reserved ∨
      ∃ n, n ∉ db.used ∧ pc'.reserved = some (numeral n)) := by
  cases h with
  | quiet hb => exact ⟨.of_eq (List.Subset.refl _) rfl rfl, .inl hb.reserved⟩
  | @reserve n hn => exact ⟨.of_eq (List.subset_cons_self _ _) rfl rfl, .inr (.inr ⟨n, hn, rfl⟩)⟩
  | @insert n a time =>
    refine ⟨⟨List.Subset.refl _, List.Subset.refl _, ?_, ?_⟩, .inr (.inl rfl)⟩
    · exact fun row hr => .inl (List.mem_cons_of_mem _ hr)
    · intro row hr
      simp only [List.mem_append, List.mem_cons] at hr ⊢
      rcases hr with hr | rfl | hr
      · exact .inl (.inl hr)
      · exact .inr rfl
      · exact .inl (.inr hr)
  | @commit row pc' h =>
    refine ⟨⟨List.Subset.refl _, List.subset_append_left _ _, ?_, ?_⟩, ?_⟩
    · exact fun r hr => mem_erase_or hr
    · intro r hr
      simp only [Db.commit, List.mem_append, List.mem_singleton] at hr ⊢
      rcases hr with (hr | rfl) | hr
      · exact .inl (.inl hr)
      · exact .inr rfl
      · exact .inl (.inr (List.mem_of_mem_erase hr))
    · rcases h with hb | ⟨now, rfl⟩
      · exact .inl hb.reserved
      · exact .inr (.inl rfl)
  | lose => exact ⟨.of_eq (List.Subset.refl _) rfl rfl, .inr (.inl rfl)⟩
  | @warm row now pc' h =>
    refine ⟨.of_eq (List.Subset.refl _) rfl rfl, ?_⟩
    rcases h with hb | rfl
    · exact .inl hb.reserved
    · exact .inr (.inl rfl)
  | @abort row message =>
    refine ⟨?_, .inl rfl⟩
    cases row with
    | none => exact .of_eq (List.Subset.refl _) rfl rfl
    | some row =>
      refine ⟨List.Subset.refl _, List.Subset.refl _, ?_, ?_⟩
      · exact fun r hr => mem_erase_or hr
      · intro r hr
        have hs : (db.urls ++ db.pending.erase row).Sublist (db.urls ++ db.pending) :=
          List.erase_sublist.append_left db.urls
        exact .inl (hs.subset hr)

theorem ResolveMove.own {pc pc' : ResolvePc} (h : ResolveMove host a db pc db' pc')
    (hc : Coherent host db) (hp : pc.Holds a db) : Coherent host db' ∧ pc'.Holds a db' := by
  cases h with
  | @hit text rec hk hd =>
    obtain ⟨row, hr, hkey, rec', hd', hdesc⟩ := hc.cached _ _ hk
    obtain rfl : rec' = rec := by simpa [hd] using hd'.symm
    exact ⟨hc, row, hr, (urlKey_injective hkey).symm, hdesc⟩
  | miss | absent | reject => exact ⟨hc, trivial⟩
  | found hr ha => exact ⟨hc, hr, ha⟩
  | @keep row => exact ⟨hc, row, hp.1, hp.2, recordOfRow_describes row⟩
  | @populate row =>
    obtain ⟨hr, rfl⟩ := hp
    exact ⟨hc.set hr (rowText_describes host row), row, hr, rfl, recordOfRow_describes row⟩

lemma ResolveMove.touches {pc pc' : ResolvePc} (h : ResolveMove host a db pc db' pc') :
    Touches none db db' := by
  cases h <;> exact .of_eq (List.Subset.refl _) rfl rfl

/-! The calls together. -/

inductive CallMove (host : Host) (db : Db) : Call → Db → Call → Prop
  | startShorten {u : JsString} {o : Option JsString} :
    CallMove host db .idle db (.shorten u o .connecting)
  | startResolve {a : JsString} : CallMove host db .idle db (.resolve a .getting)
  | shorten {u : JsString} {o : Option JsString} {pc pc' : ShortenPc} {db' : Db}
    (h : ShortenMove u o db pc db' pc') :
    CallMove host db (.shorten u o pc) db' (.shorten u o pc')
  | resolve {a : JsString} {pc pc' : ResolvePc} {db' : Db}
    (h : ResolveMove host a db pc db' pc') :
    CallMove host db (.resolve a pc) db' (.resolve a pc')

lemma callMove_of_step {r : CallEvent} {l l' : Call}
    (h : callStep host r db l = some (db', l')) : CallMove host db l db' l' := by
  revert h
  fun_cases callStep host r db l with
  | case1 | case2 =>
    intro h
    cases h
    constructor
  | case3 _ r u o pc =>
    intro h
    obtain ⟨d, hd, he⟩ := Option.map_eq_some_iff.mp h
    cases he
    exact .shorten (shortenMove_of_step hd)
  | case4 _ r a pc =>
    intro h
    obtain ⟨d, hd, he⟩ := Option.map_eq_some_iff.mp h
    cases he
    exact .resolve (resolveMove_of_step hd)
  | case5 =>
    intro h
    cases h

lemma CallMove.own {l l' : Call} (h : CallMove host db l db' l') (hc : Coherent host db)
    (hl : l.Holds db) : Coherent host db' ∧ l'.Holds db' := by
  cases h with
  | startShorten | startResolve => exact ⟨hc, trivial⟩
  | shorten h => exact h.own hc hl
  | resolve h => exact h.own hc hl

lemma CallMove.touches {l l' : Call} (h : CallMove host db l db' l') :
    Touches l.reserved db db' ∧ (l'.reserved = none ∨ l'.reserved = l.reserved ∨
      ∃ n, n ∉ db.used ∧ l'.reserved = some (numeral n)) := by
  cases h with
  | startShorten | startResolve => exact ⟨.of_eq (List.Subset.refl _) rfl rfl, .inl rfl⟩
  | shorten h => exact h.touches
  | resolve h => exact ⟨h.touches, .inl rfl⟩

/-- A reserved alias is the numeral of a value that the sequence has returned. -/
lemma Call.Holds.reserved_used {l : Call} (hl : l.Holds db) (hc : Coherent host db)
    (ha : l.reserved = some a) : ∃ n ∈ db.used, a = numeral n := by
  have hrow : ∀ row ∈ db.urls ++ db.pending, ∃ n ∈ db.used, row.alias = numeral n :=
    fun row hr => ⟨row.id, (hc.named row hr).2, (hc.named row hr).1⟩
  cases l with
  | idle | resolve => cases ha
  | shorten u o pc =>
    revert hl ha
    simp only [Call.Holds, Call.reserved]
    fun_cases ShortenPc.Holds u db pc with
    | case1 n b =>
      rintro ⟨rfl, hn, -⟩ ha
      cases ha
      exact ⟨n, hn, rfl⟩
    | case2 row | case3 row =>
      rintro ⟨hr, -⟩ ha
      cases ha
      exact hrow row (List.mem_append_right _ hr)
    | case4 row now =>
      rintro ⟨hr, -⟩ ha
      cases ha
      exact hrow row (List.mem_append_left _ hr)
    | case5 b =>
      rintro ⟨row, hr, hb, -⟩ ha
      cases ha
      exact hb ▸ hrow row (List.mem_append_left _ hr)
    | case6 =>
      intro _ ha
      cases pc <;> simp_all [ShortenPc.reserved]

/-- What another call does leaves a call's assertion alone. -/
lemma Call.Holds.stable {mine : Option JsString} {l : Call} (hl : l.Holds db)
    (ht : Touches mine db db') (hc : Coherent host db')
    (hm : ∀ a, mine = some a → l.reserved ≠ some a) :
    l.Holds db' := by
  cases l with
  | idle => trivial
  | shorten u o pc =>
    revert hl hm
    simp only [Call.Holds, Call.reserved]
    fun_cases ShortenPc.Holds u db pc with
    | case1 n b =>
      rintro ⟨rfl, hn, hfree⟩ hm
      refine ⟨rfl, ht.used hn, fun row hr hid => ?_⟩
      rcases ht.rows row hr with h | h
      · exact hfree row h hid
      · exact hm _ h (by rw [(hc.named row hr).1, hid]; rfl)
    | case2 row | case3 row =>
      rintro ⟨hr, hu⟩ hm
      refine ⟨?_, hu⟩
      rcases ht.pending row hr with h | h
      · exact h
      · exact absurd rfl (hm _ h)
    | case4 row now =>
      rintro ⟨hr, hu⟩ _
      exact ⟨ht.urls hr, hu⟩
    | case5 b =>
      rintro ⟨row, hr, hb⟩ _
      exact ⟨row, ht.urls hr, hb⟩
    | case6 =>
      intro _ _
      unfold ShortenPc.Holds
      split <;> simp_all
  | resolve a pc =>
    revert hl
    simp only [Call.Holds]
    fun_cases ResolvePc.Holds a db pc with
    | case1 row =>
      rintro ⟨hr, ha⟩
      exact ⟨ht.urls hr, ha⟩
    | case2 rec =>
      rintro ⟨row, hr, hrow⟩
      exact ⟨row, ht.urls hr, hrow⟩
    | case3 =>
      intro _
      unfold ResolvePc.Holds
      split <;> simp_all

lemma Coherent.surroundings {e : Surroundings} (hc : Coherent host db)
    (h : surroundingsStep e db = some db') : Coherent host db' ∧ Touches none db db' := by
  cases e with
  | evict key =>
    cases h
    refine ⟨⟨hc.named, hc.nodup, fun k text hk => ?_⟩, .of_eq (List.Subset.refl _) rfl rfl⟩
    by_cases hkey : k = key
    · simp [hkey] at hk
    · exact hc.cached k text (by simpa [hkey] using hk)
  | burn n =>
    cases h
    have hnamed := fun row hr => (hc.named row hr).imp_right (List.mem_cons_of_mem n)
    exact ⟨⟨hnamed, hc.nodup, hc.cached⟩, .of_eq (List.subset_cons_self _ _) rfl rfl⟩

/-- An alias that a call newly reserves is that of a fresh value, and no other call's. -/
lemma Apart.step {l l' m : Call} (hpair : Apart l m) (hm : m.Holds db) (hc : Coherent host db)
    (hres : l'.reserved = none ∨ l'.reserved = l.reserved ∨
      ∃ n, n ∉ db.used ∧ l'.reserved = some (numeral n)) : Apart l' m := by
  intro a ha hma
  obtain hr | hr | ⟨n, hn, hr⟩ := hres
  · simp [hr] at ha
  · exact hpair a (hr ▸ ha) hma
  · obtain ⟨k, hk, rfl⟩ := hm.reserved_used hc hma
    have hkn : numeral n = numeral k := by simpa [hr] using ha
    exact hn (numeral_injective hkn ▸ hk)

/-- The proof outline of the two functions. -/
def outline (host : Host) : Outline (calls host) where
  shared := Coherent host
  thread := fun db l => l.Holds db
  pair := Apart
  pair_symm l m h a hm hl := h a hl hm
  own _ _ _ _ _ hc hl h := (callMove_of_step h).own hc hl
  other r db l db' l' m hc hl hm hpair h := by
    have hmove := callMove_of_step h
    obtain ⟨ht, hres⟩ := hmove.touches
    exact ⟨hm.stable ht (hmove.own hc hl).1 hpair, hpair.step hm hc hres⟩
  env_shared _ _ _ hc h := (hc.surroundings h).1
  env_thread _ _ _ _ hc hl h :=
    hl.stable (hc.surroundings h).2 (hc.surroundings h).1 (fun _ => nofun)

section Runs
variable {ι : Type} [DecidableEq ι]

/-- Empty stores, no call begun. -/
def started : Db × (ι → Call) := (Db.empty, fun _ => .idle)

omit [DecidableEq ι] in
lemma outline_started (host : Host) : (outline host).Holds (started : Db × (ι → Call)) := by
  refine ⟨⟨?_, ?_, ?_⟩, fun _ => trivial, fun _ _ _ _ => nofun⟩
  · simp [started, Db.empty]
  · simp [started, Db.empty]
  · simp [started, Db.empty]

lemma outline_reached {c : Db × (ι → Call)}
    (h : ((calls host).system ι).Reaches started c) : (outline host).Holds c :=
  (outline host).holds_of_reaches h (outline_started host)

lemma conflicts_eq_false {rows : List UrlRow} {n : ℕ} (hn : ∀ row ∈ rows, row.id ≠ n)
    (hrows : ∀ row ∈ rows, row.alias = numeral row.id) :
    conflicts rows n (numeral n) = false := by
  apply List.any_eq_false.mpr
  intro row hr
  have hne : row.alias ≠ numeral n := by
    rw [hrows row hr]
    exact fun h => hn row hr (numeral_injective h)
  simp [hn row hr, hne]

/-- An engine that knows the dates of the epoch. -/
def epochHost : Host where
  bigIntOfNumber := bigIntOfString
  numberText literal := literal
  newDate
    | some (.str s) => some (if s = toISOString 0 then some 0 else none)
    | _ => some none
  newDate_str _ := rfl

def replies (i : ℕ) (rs : List Reply) : List (ℕ × CallEvent ⊕ Surroundings) :=
  rs.map fun r => .inl (i, .reply r)

/-- Two calls whose transactions overlap, and a third that is rolled back. -/
def threeShortenings : List (ℕ × CallEvent ⊕ Surroundings) :=
  .inl (0, .shorten (js "https://a.example") none) ::
  .inl (1, .shorten (js "https://b.example") none) ::
  .inl (2, .shorten (js "https://b.example") none) ::
  (replies 0 [.done, .done, .id 1] ++ replies 1 [.done, .done, .id 2] ++
    replies 2 [.done, .done, .id 3, .clock 0, .fail ⟨none, js "timeout"⟩ false] ++
    replies 1 [.clock 0, .clock 0] ++ replies 0 [.clock 0, .clock 0, .done] ++
    replies 2 [.done] ++ replies 1 [.done])

/-- One call of `shortenUrl` and then one of `resolveUrl` that the cache answers. -/
def firstShortening : List (ℕ × CallEvent ⊕ Surroundings) :=
  .inl (0, .shorten (js "https://a.example") none) ::
    replies 0 [.done, .done, .id 1, .clock 0, .clock 0, .done]

def thenResolution : List (ℕ × CallEvent ⊕ Surroundings) :=
  .inl (1, .resolve (js "1")) :: replies 1 [.done]

/-- In every interleaving each row is named by its identifier, no INSERT meets a row
with its key, committed or not, and no two calls return the same alias. -/
theorem no_collision (host : Host) {c : Db × (ι → Call)}
    (h : ((calls host).system ι).Reaches started c) :
    (∀ row ∈ c.1.urls, generateAlias row.id = .ok row.alias) ∧
    (∀ i u o id a, c.2 i = .shorten u o (.inserting id a) →
      conflicts (c.1.urls ++ c.1.pending) id a = false) ∧
    ∀ i j u v a b, i ≠ j → (c.2 i).shortened = some (u, a) →
      (c.2 j).shortened = some (v, b) → a ≠ b := by
  have hO := outline_reached h
  refine ⟨?_, ?_, ?_⟩
  · intro row hr
    rw [generateAlias_natCast, (hO.shared.named row (List.mem_append_left _ hr)).1]
  · intro i u o id a hi
    have hth := hO.thread i
    rw [hi] at hth
    obtain ⟨rfl, -, hfree⟩ := hth
    exact conflicts_eq_false hfree fun row hr => (hO.shared.named row hr).1
  · intro i j u v a b hij hi hj
    obtain ⟨o, hi⟩ := Call.eq_of_shortened hi
    obtain ⟨p, hj⟩ := Call.eq_of_shortened hj
    have hpair := hO.pair i j hij
    rw [hi, hj] at hpair
    rintro rfl
    exact hpair a rfl rfl

theorem no_collision_three : ∃ c : Db × (ℕ → Call),
    ((calls epochHost).system ℕ).run threeShortenings started = some c ∧
    (c.2 0).shortened = some (js "https://a.example", js "1") ∧
    (c.2 1).shortened = some (js "https://b.example", js "2") ∧
    (∀ row ∈ c.1.urls, generateAlias row.id = .ok row.alias) ∧
    (∀ i u o id a, c.2 i = .shorten u o (.inserting id a) →
      conflicts (c.1.urls ++ c.1.pending) id a = false) ∧
    ∀ i j u v a b, i ≠ j → (c.2 i).shortened = some (u, a) →
      (c.2 j).shortened = some (v, b) → a ≠ b := by
  have hrun : (((calls epochHost).system ℕ).run threeShortenings started).map
      (fun c => ((c.2 0).shortened, (c.2 1).shortened)) =
      some (some (js "https://a.example", js "1"), some (js "https://b.example", js "2")) := by
    decide +kernel
  obtain ⟨c, hc, hret⟩ := Option.map_eq_some_iff.mp hrun
  obtain ⟨hfirst, hsecond⟩ := Prod.mk.inj hret
  exact ⟨c, hc, hfirst, hsecond, no_collision epochHost ⟨threeShortenings, hc⟩⟩

/-- The run takes the step in which the SELECT of call `j` for `a` fails. -/
def SelectFailed (host : Host) (s : Db × (ι → Call)) (as : List (ι × CallEvent ⊕ Surroundings))
    (j : ι) (a : JsString) : Prop :=
  ∃ before e applied after u, as = before ++ .inl (j, .reply (.fail e applied)) :: after ∧
    ((calls host).system ι).run before s = some u ∧ u.2 j = .resolve a .selecting

/-- Committed rows have different aliases. -/
lemma Coherent.alias_injective (hc : Coherent host db) {row row' : UrlRow} (h : row ∈ db.urls)
    (h' : row' ∈ db.urls) (ha : row.alias = row'.alias) : row = row' := by
  have hm := List.mem_append_left db.pending h
  have hm' := List.mem_append_left db.pending h'
  have hid : row.id = row'.id := by
    apply numeral_injective
    rw [← (hc.named row hm).1, ← (hc.named row' hm').1, ha]
  exact List.inj_on_of_nodup_map hc.nodup hm hm' hid

/-- A committed row stays, and a call that has yet to start will not miss it. -/
lemma row_stays {s t : Db × (ι → Call)} {as : List (ι × CallEvent ⊕ Surroundings)}
    (h : ((calls host).system ι).run as s = some t) {row : UrlRow} {j : ι}
    (hr : row ∈ s.1.urls) (hj : s.2 j = .idle) :
    row ∈ t.1.urls ∧ t.2 j ≠ .resolve row.alias (.returned none) := by
  refine System.run_invariant
    (P := fun c => row ∈ c.1.urls ∧ c.2 j ≠ .resolve row.alias (.returned none))
    (fun act c d hc hn => ?_) h ⟨hr, by simp [hj]⟩
  obtain ⟨hrow, hmiss⟩ := hc
  cases act with
  | inl act =>
    obtain ⟨i, r⟩ := act
    obtain ⟨db', l', hs, rfl⟩ := Threads.next_thread hn
    have hmove := callMove_of_step hs
    refine ⟨hmove.touches.1.urls hrow, ?_⟩
    by_cases hij : j = i
    · subst hij
      simp only [Function.update_self]
      rintro rfl
      generalize hl : c.2 j = l at hmove
      cases hmove with
      | resolve h =>
        cases h with
        | absent hall => exact hall row hrow rfl
    · simpa [hij] using hmiss
  | inr e =>
    obtain ⟨db', hs, rfl⟩ := Threads.next_env hn
    cases e <;> cases hs <;> exact ⟨hrow, hmiss⟩

omit [DecidableEq ι] in
lemma reply_of_resolving {r : CallEvent} {l : Call} {pc' : ResolvePc}
    (h : callStep host r db l = some (db', .resolve a pc')) :
    pc' = .getting ∨ ∃ q pc, r = .reply q ∧ l = .resolve a pc ∧
      resolveStep host a q db pc = some (db', pc') := by
  cases r with
  | shorten u o => cases l <;> cases h
  | resolve b =>
    cases l with
    | idle =>
      cases h
      exact .inl rfl
    | shorten | resolve => cases h
  | reply q =>
    cases l with
    | idle => cases h
    | shorten u o pc =>
      obtain ⟨d, -, he⟩ := Option.map_eq_some_iff.mp h
      cases he
    | resolve b pc =>
      obtain ⟨d, hd, he⟩ := Option.map_eq_some_iff.mp h
      cases he
      exact .inr ⟨q, pc, rfl, rfl, hd⟩

omit [DecidableEq ι] in
lemma failed_of_rejecting {r : Reply} {pc : ResolvePc} {message : JsString}
    (h : resolveStep host a r db pc = some (db', .rejected message)) :
    (∃ e applied, r = .fail e applied) ∧ pc = .selecting := by
  revert h
  fun_cases resolveStep host a r db pc with
  | case6 e applied => exact fun _ => ⟨⟨e, applied, rfl⟩, rfl⟩
  | _ =>
    intro h
    cases h

/-- A resolution that has thrown is one whose SELECT failed. -/
lemma selectFailed_of_rejected {s t : Db × (ι → Call)}
    {as : List (ι × CallEvent ⊕ Surroundings)} (h : ((calls host).system ι).run as s = some t)
    {j : ι} {message : JsString} (hj : s.2 j = .idle)
    (ht : t.2 j = .resolve a (.rejected message)) : SelectFailed host s as j a := by
  obtain ⟨before, act, after, u, v, rfl, hu, hn, hPu, hPv⟩ :=
    System.run_crosses (P := fun c => c.2 j = .resolve a (.rejected message)) h
      (by simp [hj]) ht
  cases act with
  | inl act =>
    obtain ⟨i, r⟩ := act
    obtain ⟨db', l', hs, rfl⟩ := Threads.next_thread hn
    by_cases hij : j = i
    · subst hij
      obtain rfl : l' = .resolve a (.rejected message) := by simpa using hPv
      rcases reply_of_resolving hs with hget | ⟨q, pc, rfl, hl, hd⟩
      · cases hget
      · obtain ⟨⟨e, applied, rfl⟩, rfl⟩ := failed_of_rejecting hd
        exact ⟨before, e, applied, after, u, rfl, hu, hl⟩
    · exact absurd (by simpa [hij] using hPv) hPu
  | inr e =>
    obtain ⟨db', hs, rfl⟩ := Threads.next_env hn
    exact absurd hPv hPu

/-- In every state an answer takes a waiting resolution forward. -/
lemma resolution_advances {c : Db × (ι → Call)} {j : ι} {pc : ResolvePc} {r : Reply}
    (hj : c.2 j = .resolve a pc) (hpc : pc.awaits ≠ 0) (hr : r.Answers) :
    ∃ d pc', ((calls host).system ι).next (.inl (j, .reply r)) c = some d ∧
      d.2 j = .resolve a pc' ∧ pc'.awaits < pc.awaits := by
  obtain ⟨db', pc', hstep, hlt⟩ := resolveStep_answers host a c.1 hr hpc
  have hcall : (calls host).step (.reply r) c.1 (c.2 j) = some (db', .resolve a pc') := by
    rw [hj]
    simp [calls, callStep, hstep]
  exact ⟨_, pc', Threads.next_of_step hcall, by simp, hlt⟩

/-- Whatever is cached for an alias is the record of its committed row, and an alias that
`shortenUrl` has returned resolves from then on to the URL that it was returned for,
unless the SELECT of that resolution fails. A resolution settles within three answers. -/
theorem read_after_write (host : Host) {s : Db × (ι → Call)}
    (hs : ((calls host).system ι).Reaches started s) :
    (∀ a text, s.1.cache (urlKey a) = some text → ∃ row ∈ s.1.urls, row.alias = a ∧
      ∃ rec, decodeRecord host text = some rec ∧ Describes rec row) ∧
    ∀ i u a, (s.2 i).shortened = some (u, a) → ∀ j, s.2 j = .idle →
      ∀ as t, ((calls host).system ι).run as s = some t →
        (∀ pc r, t.2 j = .resolve a pc → pc.awaits ≠ 0 → r.Answers →
          ∃ v pc', ((calls host).system ι).next (.inl (j, .reply r)) t = some v ∧
            v.2 j = .resolve a pc' ∧ pc'.awaits < pc.awaits) ∧
        (∀ message, t.2 j = .resolve a (.rejected message) → SelectFailed host s as j a) ∧
        ∀ record, (t.2 j).resolved = some (a, record) →
          ∃ rec n, record = some rec ∧ decodeAlias a = .ok n ∧ rec.id = n ∧
            rec.alias = some (.str a) ∧ rec.original_url = some (.str u) := by
  have hO := outline_reached hs
  refine ⟨fun a text hk => ?_, fun i u a hi j hj as t ht => ⟨?_, ?_, ?_⟩⟩
  · obtain ⟨row, hr, hkey, hrec⟩ := hO.shared.cached _ _ hk
    exact ⟨row, hr, (urlKey_injective hkey).symm, hrec⟩
  · exact fun pc r hpc hawaits hr => resolution_advances hpc hawaits hr
  · exact fun message h => selectFailed_of_rejected ht hj h
  · intro record h
    obtain ⟨o, hi⟩ := Call.eq_of_shortened hi
    have h := Call.eq_of_resolved h
    have hth := hO.thread i
    rw [hi] at hth
    obtain ⟨row, hr, rfl, hu⟩ := hth
    obtain ⟨hrow, hmiss⟩ := row_stays ht hr hj
    have hOt := outline_reached (hs.trans ⟨as, ht⟩)
    have hres := hOt.thread j
    rw [h] at hres
    cases record with
    | none => exact absurd h hmiss
    | some rec =>
      obtain ⟨row', hr', ha', hdesc⟩ := hres
      obtain rfl : row' = row := hOt.shared.alias_injective hr' hrow ha'
      refine ⟨rec, row'.id, rfl, ?_, hdesc.1, hdesc.2.1, hu ▸ hdesc.2.2⟩
      rw [(hOt.shared.named row' (List.mem_append_left _ hrow)).1]
      exact decodeAlias_numeral row'.id

theorem read_after_write_cached : ∃ s t : Db × (ℕ → Call),
    ((calls epochHost).system ℕ).run firstShortening started = some s ∧
    ((calls epochHost).system ℕ).run thenResolution s = some t ∧
    (s.2 0).shortened = some (js "https://a.example", js "1") ∧
    (∃ text, s.1.cache (urlKey (js "1")) = some text ∧ ∃ row ∈ s.1.urls, row.alias = js "1" ∧
      ∃ rec, decodeRecord epochHost text = some rec ∧ Describes rec row) ∧
    ∃ rec n, (t.2 1).resolved = some (js "1", some rec) ∧ decodeAlias (js "1") = .ok n ∧
      rec.id = n ∧ rec.alias = some (.str (js "1")) ∧
      rec.original_url = some (.str (js "https://a.example")) := by
  have hfirst : (((calls epochHost).system ℕ).run firstShortening started).map
      (fun c => ((c.2 0).shortened, c.2 1 matches .idle, (c.1.cache (urlKey (js "1"))).isSome)) =
      some (some (js "https://a.example", js "1"), true, true) := by
    decide +kernel
  obtain ⟨s, hs, hview⟩ := Option.map_eq_some_iff.mp hfirst
  obtain ⟨hret, hview⟩ := Prod.mk.inj hview
  obtain ⟨hidle, hcached⟩ := Prod.mk.inj hview
  have hboth : (((calls epochHost).system ℕ).run (firstShortening ++ thenResolution)
      started).map (fun c => (c.2 1).resolved.map Prod.fst) = some (some (js "1")) := by
    decide +kernel
  obtain ⟨t, ht, hres⟩ := Option.map_eq_some_iff.mp hboth
  obtain ⟨⟨a, record⟩, hrec, rfl⟩ := Option.map_eq_some_iff.mp hres
  rw [System.run_append, hs] at ht
  have hidle : s.2 1 = .idle := by
    cases h : s.2 1 <;> simp_all
  obtain ⟨text, htext⟩ := Option.isSome_iff_exists.mp hcached
  obtain ⟨hcache, hresolve⟩ := read_after_write epochHost ⟨firstShortening, hs⟩
  obtain ⟨rec, n, rfl, h⟩ := (hresolve 0 _ _ hret 1 hidle thenResolution t ht).2.2 record hrec
  exact ⟨s, t, hs, ht, hret, ⟨text, htext, hcache _ text htext⟩, rec, n, hrec, h⟩

end Runs

end UrlShortener.UrlService
