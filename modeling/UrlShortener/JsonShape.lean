import UrlShortener.JsonRoundtrip

/-! The shape of JSON values: where a value lies in another one, the values that a text
parses to, and changes of strings and of keys throughout a value. -/
namespace UrlShortener.Json
open Js

/-! What is parsed is well formed. -/

lemma wellFormedItems_append {vs : List Json} {v : Json} (h : WellFormedItems vs)
    (hv : WellFormed v) : WellFormedItems (vs ++ [v]) := by
  induction vs with
  | nil => exact ⟨hv, trivial⟩
  | cons w vs ih => exact ⟨h.1, ih h.2⟩

lemma wellFormedFields_iff {fields : List (JsString × Json)} :
    WellFormedFields fields ↔ ∀ f ∈ fields, WellFormed f.2 := by
  induction fields with
  | nil => simp [WellFormedFields]
  | cons f fields ih =>
    obtain ⟨k, v⟩ := f
    simp [WellFormedFields, ih]

lemma setField_keys (fields : List (JsString × Json)) (key : JsString) (v : Json) :
    (setField fields key v).map Prod.fst =
      if key ∈ fields.map Prod.fst then fields.map Prod.fst else fields.map Prod.fst ++ [key] := by
  by_cases hkey : key ∈ fields.map Prod.fst
  · have hany : fields.any (fun f => f.1 = key) = true := by
      obtain ⟨f, hf, rfl⟩ := List.mem_map.mp hkey
      exact List.any_eq_true.mpr ⟨f, hf, by simp⟩
    rw [setField, if_pos hany, if_pos hkey, List.map_map]
    apply List.map_congr_left
    intro f _
    by_cases hf : f.1 = key <;> simp [hf]
  · rw [setField_append hkey, if_neg hkey]
    simp

lemma wellFormed_setField {fields : List (JsString × Json)} {key : JsString} {v : Json}
    (h : WellFormed (.obj fields)) (hv : WellFormed v) :
    WellFormed (.obj (setField fields key v)) := by
  obtain ⟨hkeys, hfields⟩ := h
  rw [wellFormedFields_iff] at hfields
  refine ⟨?_, wellFormedFields_iff.mpr fun f hf => ?_⟩
  · rw [setField_keys]
    split_ifs with hkey
    · exact hkeys
    · refine List.nodup_append.mpr ⟨hkeys, List.nodup_singleton _, fun k hk l hl => ?_⟩
      obtain rfl := List.mem_singleton.mp hl
      rintro rfl
      exact hkey hk
  · rw [setField] at hf
    split_ifs at hf
    · obtain ⟨g, hg, rfl⟩ := List.mem_map.mp hf
      split_ifs
      · exact hv
      · exact hfields g hg
    · rcases List.mem_append.mp hf with hf | hf
      · exact hfields f hf
      · obtain rfl := List.mem_singleton.mp hf
        exact hv

lemma readNumber_wellFormed {s t : JsString} {v : Json} (h : readNumber s = some (v, t)) :
    WellFormed v := by
  simp only [readNumber, Option.ite_none_right_eq_some, Option.some.injEq, Prod.mk.injEq] at h
  obtain ⟨hliteral, rfl, -⟩ := h
  refine ⟨hliteral, fun c hc => ?_⟩
  exact List.mem_takeWhile_imp hc

lemma readWord_wellFormed {word : String} {v w : Json} {s t : JsString}
    (hv : WellFormed v) (h : readWord word v s = some (w, t)) : WellFormed w := by
  simp only [readWord, Option.ite_none_right_eq_some, Option.some.injEq, Prod.mk.injEq] at h
  obtain ⟨-, rfl, -⟩ := h
  exact hv

mutual
theorem parseValue_wellFormed (fuel : ℕ) {s t : JsString} {v : Json}
    (h : parseValue fuel s = some (v, t)) : WellFormed v := by
  cases fuel with
  | zero => cases h
  | succ fuel =>
    cases hs : skipSpace s with
    | nil => simp [parseValue, hs] at h
    | cons c u =>
      rw [parseValue, hs] at h
      dsimp only at h
      split_ifs at h
      · obtain ⟨r, -, heq⟩ := Option.map_eq_some_iff.mp h
        cases heq
        trivial
      · split at h
        · cases h
          trivial
        · exact @parseItems_wellFormed fuel [] _ _ _ trivial h
      · split at h
        · cases h
          exact ⟨List.nodup_nil, trivial⟩
        · exact @parseFields_wellFormed fuel [] _ _ _ ⟨List.nodup_nil, trivial⟩ h
      · exact readWord_wellFormed (v := .null) trivial h
      · exact readWord_wellFormed (v := .bool true) trivial h
      · exact readWord_wellFormed (v := .bool false) trivial h
      · exact readNumber_wellFormed h

theorem parseItems_wellFormed (fuel : ℕ) {acc : List Json} {s t : JsString} {v : Json}
    (hacc : WellFormedItems acc) (h : parseItems fuel acc s = some (v, t)) : WellFormed v := by
  cases fuel with
  | zero => cases h
  | succ fuel =>
    rw [parseItems] at h
    split at h
    · cases h
    · rename_i w u hw
      have hall : WellFormedItems (acc ++ [w]) :=
        wellFormedItems_append hacc (parseValue_wellFormed fuel hw)
      split at h
      · exact parseItems_wellFormed fuel hall h
      · obtain ⟨r, -, heq⟩ := Option.map_eq_some_iff.mp h
        cases heq
        exact hall

theorem parseFields_wellFormed (fuel : ℕ) {acc : List (JsString × Json)} {s t : JsString}
    {v : Json} (hacc : WellFormed (.obj acc)) (h : parseFields fuel acc s = some (v, t)) :
    WellFormed v := by
  cases fuel with
  | zero => cases h
  | succ fuel =>
    rw [parseFields] at h
    split at h
    · cases h
    · rename_i k rest hkey
      split at h
      · cases h
      · rename_i w u hw
        have hall : WellFormed (.obj (setField acc k w)) :=
          wellFormed_setField hacc (parseValue_wellFormed fuel hw)
        split at h
        · exact parseFields_wellFormed fuel hall h
        · obtain ⟨r, -, heq⟩ := Option.map_eq_some_iff.mp h
          cases heq
          exact hall
end

/-- Objects that are parsed have distinct keys, and numbers are literals. -/
theorem parse_wellFormed {s : JsString} {v : Json} (h : parse s = some v) : WellFormed v := by
  obtain ⟨⟨w, t⟩, hvalue, hrest⟩ := Option.bind_eq_some_iff.mp h
  simp only [Option.ite_none_right_eq_some, Option.some.injEq] at hrest
  obtain ⟨-, rfl⟩ := hrest
  exact parseValue_wellFormed _ hvalue

/-! Where values lie. -/

/-- `Lies n v w`: the value `w` lies `n` levels below the root `v`. -/
inductive Lies : ℕ → Json → Json → Prop
  | root (v : Json) : Lies 0 v v
  | item {n : ℕ} {items : List Json} {v w : Json} (hv : v ∈ items) (h : Lies n v w) :
    Lies (n + 1) (.arr items) w
  | field {n : ℕ} {fields : List (JsString × Json)} {key : JsString} {v w : Json}
    (hv : (key, v) ∈ fields) (h : Lies n v w) : Lies (n + 1) (.obj fields) w

/-- Some value lies more than `limit` levels deep, the root being at level `level`. -/
def Exceeds (limit level : ℕ) (v : Json) : Prop := ∃ n w, limit < n + level ∧ Lies n v w

lemma exceeds_of_lt {limit level : ℕ} (h : limit < level) (v : Json) : Exceeds limit level v :=
  ⟨0, v, by omega, .root v⟩

lemma exceeds_leaf {limit level : ℕ} {v : Json} (hv : ∀ n w, Lies (n + 1) v w → False) :
    Exceeds limit level v ↔ limit < level := by
  refine ⟨fun h => ?_, fun h => exceeds_of_lt h v⟩
  obtain ⟨n, w, hn, hlies⟩ := h
  cases n with
  | zero => omega
  | succ n => exact absurd hlies (hv n w)

lemma exceeds_arr {limit level : ℕ} {items : List Json} (h : level ≤ limit) :
    Exceeds limit level (.arr items) ↔ ∃ v ∈ items, Exceeds limit (level + 1) v := by
  constructor
  · intro hex
    obtain ⟨n, w, hn, hlies⟩ := hex
    cases hlies with
    | root => omega
    | @item n _ v _ hv hlies => exact ⟨v, hv, n, w, by omega, hlies⟩
  · intro hex
    obtain ⟨v, hv, n, w, hn, hlies⟩ := hex
    exact ⟨n + 1, w, by omega, .item hv hlies⟩

lemma exceeds_obj {limit level : ℕ} {fields : List (JsString × Json)} (h : level ≤ limit) :
    Exceeds limit level (.obj fields) ↔ ∃ f ∈ fields, Exceeds limit (level + 1) f.2 := by
  constructor
  · intro hex
    obtain ⟨n, w, hn, hlies⟩ := hex
    cases hlies with
    | root => omega
    | @field n _ key v _ hv hlies => exact ⟨(key, v), hv, n, w, by omega, hlies⟩
  · intro hex
    obtain ⟨⟨key, v⟩, hv, n, w, hn, hlies⟩ := hex
    exact ⟨n + 1, w, by omega, .field hv hlies⟩

/-! Changing every string, and dropping a key, throughout a value. -/

mutual
def mapStrings (f : JsString → JsString) : Json → Json
  | .null => .null
  | .bool b => .bool b
  | .num literal => .num literal
  | .str s => .str (f s)
  | .arr items => .arr (mapStringsItems f items)
  | .obj fields => .obj (mapStringsFields f fields)

def mapStringsItems (f : JsString → JsString) : List Json → List Json
  | [] => []
  | v :: vs => mapStrings f v :: mapStringsItems f vs

def mapStringsFields (f : JsString → JsString) :
    List (JsString × Json) → List (JsString × Json)
  | [] => []
  | (k, v) :: fs => (k, mapStrings f v) :: mapStringsFields f fs
end

mutual
def dropKey (key : JsString) : Json → Json
  | .null => .null
  | .bool b => .bool b
  | .num literal => .num literal
  | .str s => .str s
  | .arr items => .arr (dropKeyItems key items)
  | .obj fields => .obj (dropKeyFields key fields)

def dropKeyItems (key : JsString) : List Json → List Json
  | [] => []
  | v :: vs => dropKey key v :: dropKeyItems key vs

def dropKeyFields (key : JsString) : List (JsString × Json) → List (JsString × Json)
  | [] => []
  | (k, v) :: fs =>
    if k = key then dropKeyFields key fs else (k, dropKey key v) :: dropKeyFields key fs
end

/-- No object in the value has the key. -/
def Lacks (key : JsString) (v : Json) : Prop :=
  ∀ n fields, Lies n v (.obj fields) → key ∉ fields.map Prod.fst

lemma lacks_arr {key : JsString} {items : List Json} :
    Lacks key (.arr items) ↔ ∀ v ∈ items, Lacks key v := by
  constructor
  · intro h v hv n fields hlies
    exact h (n + 1) fields (.item hv hlies)
  · intro h n fields hlies
    cases hlies with
    | item hv hlies => exact h _ hv _ _ hlies

lemma lacks_obj {key : JsString} {fields : List (JsString × Json)} :
    Lacks key (.obj fields) ↔ ∀ f ∈ fields, f.1 ≠ key ∧ Lacks key f.2 := by
  constructor
  · intro h f hf
    refine ⟨?_, fun n fields' hlies => h (n + 1) fields' (.field hf hlies)⟩
    rintro rfl
    exact h 0 fields (.root _) (List.mem_map_of_mem hf)
  · intro h n fields' hlies
    cases hlies with
    | root =>
      intro hkey
      obtain ⟨f, hf, rfl⟩ := List.mem_map.mp hkey
      exact (h f hf).1 rfl
    | field hv hlies => exact (h _ hv).2 _ _ hlies

lemma lacks_of_leaf {key : JsString} {v : Json} (h : ∀ n fields, ¬ Lies n v (.obj fields)) :
    Lacks key v := fun n fields hlies => absurd hlies (h n fields)

lemma dropKeyFields_length (key : JsString) (fields : List (JsString × Json)) :
    (dropKeyFields key fields).length ≤ fields.length := by
  induction fields with
  | nil => exact le_rfl
  | cons f fields ih =>
    obtain ⟨k, v⟩ := f
    rw [dropKeyFields]
    split_ifs
    · exact ih.trans (Nat.le_succ _)
    · exact Nat.succ_le_succ ih

mutual
/-- Dropping a key changes nothing exactly where no object has it; the strings do not matter. -/
theorem dropKey_mapStrings_iff (key : JsString) (f : JsString → JsString) (v : Json) :
    dropKey key (mapStrings f v) = mapStrings f v ↔ Lacks key v := by
  cases v with
  | null | bool | num | str => exact iff_of_true rfl (lacks_of_leaf fun n fields h => by cases h)
  | arr items =>
    rw [lacks_arr, ← dropKeyItems_mapStrings_iff key f items]
    simp [mapStrings, dropKey]
  | obj fields =>
    rw [lacks_obj, ← dropKeyFields_mapStrings_iff key f fields]
    simp [mapStrings, dropKey]

theorem dropKeyItems_mapStrings_iff (key : JsString) (f : JsString → JsString)
    (items : List Json) :
    dropKeyItems key (mapStringsItems f items) = mapStringsItems f items ↔
      ∀ v ∈ items, Lacks key v := by
  cases items with
  | nil => simp [mapStringsItems, dropKeyItems]
  | cons v items =>
    rw [mapStringsItems, dropKeyItems, List.cons.injEq, dropKey_mapStrings_iff key f v,
      dropKeyItems_mapStrings_iff key f items, List.forall_mem_cons]

theorem dropKeyFields_mapStrings_iff (key : JsString) (f : JsString → JsString)
    (fields : List (JsString × Json)) :
    dropKeyFields key (mapStringsFields f fields) = mapStringsFields f fields ↔
      ∀ g ∈ fields, g.1 ≠ key ∧ Lacks key g.2 := by
  cases fields with
  | nil => simp [mapStringsFields, dropKeyFields]
  | cons g fields =>
    obtain ⟨k, v⟩ := g
    rw [mapStringsFields, dropKeyFields, List.forall_mem_cons]
    split_ifs with hk
    · -- the result is shorter
      refine iff_of_false (fun heq => ?_) (fun h => h.1.1 hk)
      have hle := dropKeyFields_length key (mapStringsFields f fields)
      rw [heq, List.length_cons] at hle
      omega
    · rw [List.cons.injEq, Prod.mk.injEq, dropKey_mapStrings_iff key f v,
        dropKeyFields_mapStrings_iff key f fields]
      simp [hk]
end

end UrlShortener.Json
