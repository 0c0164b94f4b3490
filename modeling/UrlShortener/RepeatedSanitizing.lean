import UrlShortener.InputStructure
import UrlShortener.TransitionRun

/-! `sanitizeInput` applied again and again: which values it leaves alone, and how soon it comes
to one of them. -/
namespace UrlShortener.Security
open Js Json Pattern Transition

/-- `sanitizeInput`, `k` times. -/
def sanitizeAgain : ℕ → Json → Except JsString Json
  | 0, v => .ok v
  | k + 1, v => (sanitizeInput v 0).bind (sanitizeAgain k)

mutual
/-- The length of the longest string in a value, keys aside. -/
def longest : Json → ℕ
  | .str s => s.length
  | .arr items => longestItem items
  | .obj fields => longestField fields
  | _ => 0

def longestItem : List Json → ℕ
  | [] => 0
  | v :: vs => max (longest v) (longestItem vs)

def longestField : List (JsString × Json) → ℕ
  | [] => 0
  | (_, v) :: fs => max (longest v) (longestField fs)
end

lemma longest_le_item {v : Json} {items : List Json} (h : v ∈ items) :
    longest v ≤ longestItem items := by
  induction items with
  | nil => cases h
  | cons w items ih =>
    rcases List.mem_cons.mp h with rfl | h
    · exact le_max_left _ _
    · exact (ih h).trans (le_max_right _ _)

lemma longest_le_field {key : JsString} {v : Json} {fields : List (JsString × Json)}
    (h : (key, v) ∈ fields) : longest v ≤ longestField fields := by
  induction fields with
  | nil => cases h
  | cons f fields ih =>
    rcases List.mem_cons.mp h with rfl | h
    · exact le_max_left _ _
    · exact (ih h).trans (le_max_right _ _)

lemma length_le_longest {n : ℕ} {v : Json} {s : JsString} (h : Lies n v (.str s)) :
    s.length ≤ longest v := by
  generalize hw : Json.str s = w at h
  induction h with
  | root v =>
    subst hw
    exact le_rfl
  | item hv _ ih => exact (ih hw).trans (longest_le_item hv)
  | field hv _ ih => exact (ih hw).trans (longest_le_field hv)

/-! Strings. -/

/-- A string that sanitising leaves alone. -/
lemma sanitized_fixed_iff {s : JsString} :
    sanitized s = s ↔ trim s = s ∧ ∀ p ∈ XSS_PATTERNS, ¬ Occurs p s := by
  constructor
  · intro h
    have htrim : trim s = s := by
      rw [← h]
      exact trim_sanitized s
    exact ⟨htrim, (sanitized_eq_trim_iff s).mp (h.trans htrim.symm)⟩
  · intro h
    exact (sanitized_of_clean h.2).trans h.1

/-- What a pass changes of a trimmed string is more than white space. -/
lemma visible_sanitized_lt {s : JsString} (htrim : trim s = s) (h : sanitized s ≠ s) :
    (sanitized s).countP (fun c => !isWhiteSpace c) < s.countP fun c => !isWhiteSpace c := by
  have hoccurs : ∃ p ∈ XSS_PATTERNS, Occurs p s := by
    by_contra hnone
    push Not at hnone
    exact h (sanitized_fixed_iff.mpr ⟨htrim, hnone⟩)
  rw [sanitized, trim, countP_trimBy]
  refine countP_deletePasses_lt (fun q hq => ⟨xss_selfContained q hq, fun _ _ _ _ hr => ?_⟩)
    hoccurs
  simp [xss_starts hq hr]

/-- The first pass trims; from then on every pass that changes the string shortens it. -/
lemma sanitized_converges {s : JsString} {k : ℕ} (hk : s.length < k) :
    sanitized (sanitized^[k] s) = sanitized^[k] s := by
  obtain ⟨k, rfl⟩ : ∃ n, k = n + 1 := ⟨k - 1, by omega⟩
  have hvisible : (sanitized s).countP (fun c => !isWhiteSpace c) ≤ k := by
    have hsub : (deletePasses XSS_PATTERNS s).Sublist s := deletePasses_sublist _ _
    calc (sanitized s).countP (fun c => !isWhiteSpace c)
        = (deletePasses XSS_PATTERNS s).countP (fun c => !isWhiteSpace c) := countP_trimBy _ _
      _ ≤ (deletePasses XSS_PATTERNS s).length := List.countP_le_length
      _ ≤ s.length := hsub.length_le
      _ ≤ k := Nat.lt_succ_iff.mp hk
  exact iterate_fixed_of_descent (fun s => trim s = s)
    (fun s => s.countP fun c => !isWhiteSpace c) (fun s _ => trim_sanitized s)
    (fun s htrim hne => visible_sanitized_lt htrim hne) (trim_sanitized s) hvisible

/-! Values. -/

lemma mem_dropKeyItems {key : JsString} {f : JsString → JsString} {items : List Json} {w : Json}
    (h : w ∈ dropKeyItems key (mapStringsItems f items)) :
    ∃ v ∈ items, w = dropKey key (mapStrings f v) := by
  induction items with
  | nil => cases h
  | cons v items ih =>
    rcases List.mem_cons.mp h with rfl | h
    · exact ⟨v, List.mem_cons_self, rfl⟩
    · obtain ⟨u, hu, heq⟩ := ih h
      exact ⟨u, List.mem_cons_of_mem _ hu, heq⟩

lemma mem_dropKeyFields {key k : JsString} {f : JsString → JsString}
    {fields : List (JsString × Json)} {w : Json}
    (h : (k, w) ∈ dropKeyFields key (mapStringsFields f fields)) :
    k ≠ key ∧ ∃ v, (k, v) ∈ fields ∧ w = dropKey key (mapStrings f v) := by
  induction fields with
  | nil => cases h
  | cons g fields ih =>
    obtain ⟨l, v⟩ := g
    have hrest : (k, w) ∈ dropKeyFields key (mapStringsFields f fields) →
        k ≠ key ∧ ∃ u, (k, u) ∈ (l, v) :: fields ∧ w = dropKey key (mapStrings f u) := by
      intro hmem
      obtain ⟨hk, u, hu, heq⟩ := ih hmem
      exact ⟨hk, u, List.mem_cons_of_mem _ hu, heq⟩
    rw [mapStringsFields, dropKeyFields] at h
    split_ifs at h with hl
    · exact hrest h
    · rcases List.mem_cons.mp h with heq | h
      · obtain ⟨rfl, rfl⟩ := Prod.mk.inj heq
        exact ⟨hl, v, List.mem_cons_self, rfl⟩
      · exact hrest h

/-- What lies in a sanitised value is what lay there, sanitised. -/
lemma lies_sanitizedInput {n : ℕ} {v w : Json} (h : Lies n (sanitizedInput v) w) :
    ∃ u, Lies n v u ∧ w = sanitizedInput u := by
  induction n generalizing v with
  | zero =>
    cases h
    exact ⟨v, .root v, rfl⟩
  | succ n ih =>
    cases v with
    | null | bool | num | str => cases h
    | arr items =>
      have h : Lies (n + 1)
          (.arr (dropKeyItems prototypeKey (mapStringsItems sanitized items))) w := h
      cases h with
      | item hv hlies =>
        obtain ⟨v, hmem, rfl⟩ := mem_dropKeyItems hv
        obtain ⟨u, hu, heq⟩ := ih hlies
        exact ⟨u, .item hmem hu, heq⟩
    | obj fields =>
      have h : Lies (n + 1)
          (.obj (dropKeyFields prototypeKey (mapStringsFields sanitized fields))) w := h
      cases h with
      | field hv hlies =>
        obtain ⟨-, v, hmem, rfl⟩ := mem_dropKeyFields hv
        obtain ⟨u, hu, heq⟩ := ih hlies
        exact ⟨u, .field hmem hu, heq⟩

lemma lacks_sanitizedInput (v : Json) : Lacks prototypeKey (sanitizedInput v) := by
  intro n fields hlies hkey
  obtain ⟨u, -, heq⟩ := lies_sanitizedInput hlies
  cases u with
  | null | bool | num | str | arr => cases heq
  | obj fields' =>
    cases heq
    obtain ⟨⟨k, w⟩, hmem, rfl⟩ := List.mem_map.mp hkey
    exact (mem_dropKeyFields hmem).1 rfl

lemma exceeds_of_sanitizedInput {limit level : ℕ} {v : Json}
    (h : Exceeds limit level (sanitizedInput v)) : Exceeds limit level v := by
  obtain ⟨n, w, hn, hlies⟩ := h
  obtain ⟨u, hu, -⟩ := lies_sanitizedInput hlies
  exact ⟨n, u, hn, hu⟩

lemma keys_dropKeyFields (key : JsString) (f : JsString → JsString)
    (fields : List (JsString × Json)) :
    ((dropKeyFields key (mapStringsFields f fields)).map Prod.fst).Sublist
      (fields.map Prod.fst) := by
  induction fields with
  | nil => exact List.Sublist.slnil
  | cons g fields ih =>
    obtain ⟨k, v⟩ := g
    rw [mapStringsFields, dropKeyFields]
    split_ifs
    · exact ih.cons k
    · exact ih.cons_cons k

mutual
theorem wellFormed_sanitizedInput (v : Json) (h : WellFormed v) :
    WellFormed (sanitizedInput v) := by
  cases v with
  | null | bool | num | str => exact h
  | arr items => exact wellFormed_sanitizedItems items h
  | obj fields =>
    exact ⟨h.1.sublist (keys_dropKeyFields _ _ _), wellFormed_sanitizedFields fields h.2⟩

theorem wellFormed_sanitizedItems (items : List Json) (h : WellFormedItems items) :
    WellFormedItems (dropKeyItems prototypeKey (mapStringsItems sanitized items)) := by
  cases items with
  | nil => exact h
  | cons v items =>
    exact ⟨wellFormed_sanitizedInput v h.1, wellFormed_sanitizedItems items h.2⟩

theorem wellFormed_sanitizedFields (fields : List (JsString × Json))
    (h : WellFormedFields fields) :
    WellFormedFields (dropKeyFields prototypeKey (mapStringsFields sanitized fields)) := by
  cases fields with
  | nil => exact h
  | cons f fields =>
    obtain ⟨k, v⟩ := f
    rw [mapStringsFields, dropKeyFields]
    split_ifs
    · exact wellFormed_sanitizedFields fields h.2
    · exact ⟨wellFormed_sanitizedInput v h.1, wellFormed_sanitizedFields fields h.2⟩
end

/-- Every string in a value has the property. -/
def Strings (P : JsString → Prop) (v : Json) : Prop := ∀ n s, Lies n v (.str s) → P s

lemma strings_arr {P : JsString → Prop} {items : List Json} :
    Strings P (.arr items) ↔ ∀ v ∈ items, Strings P v := by
  constructor
  · intro h v hv n s hlies
    exact h (n + 1) s (.item hv hlies)
  · intro h n s hlies
    cases hlies with
    | item hv hlies => exact h _ hv _ _ hlies

lemma strings_obj {P : JsString → Prop} {fields : List (JsString × Json)} :
    Strings P (.obj fields) ↔ ∀ f ∈ fields, Strings P f.2 := by
  constructor
  · intro h f hf n s hlies
    exact h (n + 1) s (.field hf hlies)
  · intro h n s hlies
    cases hlies with
    | field hv hlies => exact h _ hv _ _ hlies

mutual
theorem mapStrings_eq_self_iff (f : JsString → JsString) (v : Json) :
    mapStrings f v = v ↔ Strings (fun s => f s = s) v := by
  cases v with
  | null | bool | num =>
    exact iff_of_true rfl fun n s h => by cases h
  | str s =>
    rw [mapStrings, Json.str.injEq]
    constructor
    · intro h n t hlies
      cases hlies
      exact h
    · intro h
      exact h 0 s (.root _)
  | arr items => rw [mapStrings, Json.arr.injEq, strings_arr, mapStringsItems_eq_self_iff f items]
  | obj fields =>
    rw [mapStrings, Json.obj.injEq, strings_obj, mapStringsFields_eq_self_iff f fields]

theorem mapStringsItems_eq_self_iff (f : JsString → JsString) (items : List Json) :
    mapStringsItems f items = items ↔ ∀ v ∈ items, Strings (fun s => f s = s) v := by
  cases items with
  | nil => simp [mapStringsItems]
  | cons v items =>
    rw [mapStringsItems, List.cons.injEq, List.forall_mem_cons, mapStrings_eq_self_iff f v,
      mapStringsItems_eq_self_iff f items]

theorem mapStringsFields_eq_self_iff (f : JsString → JsString)
    (fields : List (JsString × Json)) :
    mapStringsFields f fields = fields ↔ ∀ g ∈ fields, Strings (fun s => f s = s) g.2 := by
  cases fields with
  | nil => simp [mapStringsFields]
  | cons g fields =>
    obtain ⟨k, v⟩ := g
    rw [mapStringsFields, List.cons.injEq, Prod.mk.injEq, List.forall_mem_cons,
      mapStrings_eq_self_iff f v, mapStringsFields_eq_self_iff f fields]
    simp
end

lemma sanitizedInput_eq_self_iff (v : Json) :
    sanitizedInput v = v ↔ Lacks prototypeKey v ∧ Strings (fun s => sanitized s = s) v := by
  have hcopied : Lacks prototypeKey v → sanitizedInput v = mapStrings sanitized v := fun h =>
    (dropKey_mapStrings_iff prototypeKey sanitized v).mpr h
  constructor
  · intro h
    have hlacks : Lacks prototypeKey v := by
      rw [← h]
      exact lacks_sanitizedInput v
    exact ⟨hlacks, (mapStrings_eq_self_iff sanitized v).mp ((hcopied hlacks).symm.trans h)⟩
  · intro h
    rw [hcopied h.1]
    exact (mapStrings_eq_self_iff sanitized v).mpr h.2

/-- `sanitizeInput` returns a value as it is exactly when the value is not too deep, no object in
it has a `__proto__` key, and every string in it is trimmed and free of the patterns. -/
theorem sanitizeInput_fixed_iff {text : JsString} {v : Json} (h : parse text = some v) :
    sanitizeInput v 0 = .ok v ↔ (¬ ∃ n w, 10 < n ∧ Lies n v w) ∧
      (∀ n fields, Lies n v (.obj fields) → js "__proto__" ∉ fields.map Prod.fst) ∧
      ∀ n s, Lies n v (.str s) → trim s = s ∧ ∀ p ∈ XSS_PATTERNS, ¬ Occurs p s := by
  rcases sanitizeInput_spec v (parse_wellFormed h) 0 with ⟨hdeep, heq⟩ | ⟨hshallow, heq⟩
  · refine iff_of_false (fun hok => ?_) (fun hall => hall.1 hdeep)
    rw [heq] at hok
    cases hok
  · have hnot : ¬ ∃ n w, 10 < n ∧ Lies n v w := hshallow
    have hstrings : Strings (fun s => sanitized s = s) v ↔
        ∀ n s, Lies n v (.str s) → trim s = s ∧ ∀ p ∈ XSS_PATTERNS, ¬ Occurs p s :=
      forall₃_congr fun _ _ _ => sanitized_fixed_iff
    rw [heq, Except.ok.injEq, sanitizedInput_eq_self_iff, hstrings, and_iff_right hnot]
    rfl

theorem sanitizeInput_fixed_iff_online :
    trim (js "online") = js "online" ∧ ¬ Occurs eventHandler (js "online") := by
  have hparse : parse (stringify (.str (js "online"))) = some (.str (js "online")) :=
    parse_stringify trivial
  have hsame : sanitized (js "online") = js "online" := by decide +kernel
  have hfixed : sanitizeInput (.str (js "online")) 0 = .ok (.str (js "online")) :=
    congrArg (fun s => Except.ok (Json.str s)) hsame
  obtain ⟨-, -, hstrings⟩ := (sanitizeInput_fixed_iff hparse).mp hfixed
  obtain ⟨htrim, hclean⟩ := hstrings 0 _ (.root _)
  exact ⟨htrim, hclean eventHandler (by simp [XSS_PATTERNS])⟩

/-! Passes. -/

lemma sanitizeAgain_eq {v : Json} (hwell : WellFormed v) (hshallow : ¬ Exceeds MAX_DEPTH 0 v)
    (k : ℕ) : sanitizeAgain k v = .ok (sanitizedInput^[k] v) := by
  induction k generalizing v with
  | zero => rfl
  | succ k ih =>
    rcases sanitizeInput_spec v hwell 0 with ⟨hdeep, -⟩ | ⟨-, heq⟩
    · exact absurd hdeep hshallow
    · rw [sanitizeAgain, heq]
      exact ih (wellFormed_sanitizedInput v hwell) (mt exceeds_of_sanitizedInput hshallow)

/-- A string that lies in the value after some passes is one that lay there before, after as many
passes. -/
lemma string_of_iterate {n k : ℕ} {v : Json} {s : JsString}
    (h : Lies n (sanitizedInput^[k] v) (.str s)) :
    ∃ t, Lies n v (.str t) ∧ s = sanitized^[k] t := by
  induction k generalizing s with
  | zero => exact ⟨s, h, rfl⟩
  | succ k ih =>
    rw [Function.iterate_succ_apply'] at h
    obtain ⟨u, hu, heq⟩ := lies_sanitizedInput h
    cases u with
    | null | bool | num | arr | obj => cases heq
    | str t =>
      obtain ⟨t', ht', rfl⟩ := ih hu
      refine ⟨t', ht', ?_⟩
      rw [Function.iterate_succ_apply']
      exact Json.str.inj heq

lemma iterate_sanitizedInput_fixed {v : Json} {k : ℕ} (hk : longest v < k) :
    sanitizedInput (sanitizedInput^[k] v) = sanitizedInput^[k] v := by
  refine (sanitizedInput_eq_self_iff _).mpr ⟨?_, fun n s hlies => ?_⟩
  · obtain ⟨k, rfl⟩ : ∃ n, k = n + 1 := ⟨k - 1, by omega⟩
    rw [Function.iterate_succ_apply']
    exact lacks_sanitizedInput _
  · obtain ⟨t, ht, rfl⟩ := string_of_iterate hlies
    exact sanitized_converges ((length_le_longest ht).trans_lt hk)

/-- Whatever is not refused at once comes to rest, clean, after at most one pass more than its
longest string has units. -/
theorem sanitizing_converges {text : JsString} {v : Json} (h : parse text = some v)
    (hshallow : ¬ ∃ n w, 10 < n ∧ Lies n v w) {k : ℕ} (hk : longest v < k) :
    ∃ r, sanitizeAgain k v = .ok r ∧ sanitizeInput r 0 = .ok r ∧
      ∀ n s, Lies n r (.str s) → ∀ p ∈ XSS_PATTERNS, ¬ Occurs p s := by
  have hwell := parse_wellFormed h
  have hfixed := iterate_sanitizedInput_fixed hk
  obtain ⟨hwell', hshallow'⟩ : WellFormed (sanitizedInput^[k] v) ∧
      ¬ Exceeds MAX_DEPTH 0 (sanitizedInput^[k] v) :=
    Function.Iterate.rec (fun v => WellFormed v ∧ ¬ Exceeds MAX_DEPTH 0 v) ⟨hwell, hshallow⟩
      (fun v hv => ⟨wellFormed_sanitizedInput v hv.1, mt exceeds_of_sanitizedInput hv.2⟩) k
  refine ⟨_, sanitizeAgain_eq hwell hshallow k, ?_, fun n s hlies => ?_⟩
  · rcases sanitizeInput_spec _ hwell' 0 with ⟨hdeep, -⟩ | ⟨-, heq⟩
    · exact absurd hdeep hshallow'
    · rw [heq, hfixed]
  · have hstring := ((sanitizedInput_eq_self_iff _).mp hfixed).2 n s hlies
    exact (sanitized_fixed_iff.mp hstring).2

/-- A string that takes two passes to become clean. -/
def folded : Json := .arr [.str (js "javajavascript:script:")]

theorem sanitizing_converges_folded : ∃ r, sanitizeAgain 23 folded = .ok r ∧
    sanitizeInput r 0 = .ok r := by
  have hparse : parse (stringify folded) = some folded := parse_stringify ⟨trivial, trivial⟩
  have hshallow : ¬ ∃ n w, 10 < n ∧ Lies n folded w := by
    intro hdeep
    obtain ⟨v, hv, hdeep⟩ := (exceeds_arr (Nat.zero_le 10)).mp hdeep
    rw [List.mem_singleton.mp hv, exceeds_leaf (fun n w hlies => by cases hlies)] at hdeep
    exact absurd hdeep (by decide)
  obtain ⟨r, hr, hfixed, -⟩ := sanitizing_converges hparse hshallow (k := 23) (by decide)
  exact ⟨r, hr, hfixed⟩

end UrlShortener.Security
