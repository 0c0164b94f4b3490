import UrlShortener.SecurityMiddleware
import UrlShortener.JsonShape

/-! What `sanitizeInput` makes of a JSON value: when it throws, and which keys the copy that
it builds by assignment loses. -/
namespace UrlShortener.Security
open Js Json

def depthError : JsString := js "Maximum recursion depth exceeded during sanitization"

/-- The key that assignment does not make an own key of. -/
def prototypeKey : JsString := js "__proto__"

/-- What a call that does not throw returns. -/
def sanitizedInput (v : Json) : Json := dropKey prototypeKey (mapStrings sanitized v)

lemma assignField_append {fields : List (JsString × Json)} {key : JsString}
    (hkey : key ≠ prototypeKey) (h : key ∉ fields.map Prod.fst) (v : Json) :
    assignField fields key v = fields ++ [(key, v)] := by
  have hne : key ≠ js "__proto__" := hkey
  rw [assignField, if_neg hne, setField_append h]

section Calls
variable {depth : ℕ}

lemma sanitizeInput_of_lt (v : Json) (h : MAX_DEPTH < depth) :
    sanitizeInput v depth = .error depthError := by
  rw [sanitizeInput.eq_def]
  exact if_pos h

variable (h : ¬ MAX_DEPTH < depth)
include h

lemma sanitizeInput_arr (items : List Json) :
    sanitizeInput (.arr items) depth = (sanitizeItems items (depth + 1)).map .arr := by
  rw [sanitizeInput.eq_def]
  exact if_neg h

lemma sanitizeInput_obj (fields : List (JsString × Json)) :
    sanitizeInput (.obj fields) depth = (sanitizeEntries fields (depth + 1) []).map .obj := by
  rw [sanitizeInput.eq_def]
  exact if_neg h

end Calls

mutual
/-- A value is either too deep and refused, or copied. -/
theorem sanitizeInput_spec (v : Json) (h : WellFormed v) (depth : ℕ) :
    (Exceeds MAX_DEPTH depth v ∧ sanitizeInput v depth = .error depthError) ∨
      (¬ Exceeds MAX_DEPTH depth v ∧ sanitizeInput v depth = .ok (sanitizedInput v)) := by
  by_cases hdepth : MAX_DEPTH < depth
  · exact .inl ⟨exceeds_of_lt hdepth v, sanitizeInput_of_lt v hdepth⟩
  cases v with
  | null | bool | num | str =>
    refine .inr ⟨?_, ?_⟩
    · rw [exceeds_leaf (fun n w hlies => by cases hlies)]
      exact hdepth
    · rw [sanitizeInput.eq_def]
      exact if_neg hdepth
  | arr items =>
    rw [exceeds_arr (not_lt.mp hdepth), sanitizeInput_arr hdepth]
    rcases sanitizeItems_spec items h (depth + 1) with ⟨hdeep, heq⟩ | ⟨hshallow, heq⟩
    · exact .inl ⟨hdeep, by rw [heq]; rfl⟩
    · exact .inr ⟨hshallow, by rw [heq]; rfl⟩
  | obj fields =>
    rw [exceeds_obj (not_lt.mp hdepth), sanitizeInput_obj hdepth]
    rcases sanitizeEntries_spec fields [] h.1 h.2 (depth + 1) with ⟨hdeep, heq⟩ | ⟨hshallow, heq⟩
    · exact .inl ⟨hdeep, by rw [heq]; rfl⟩
    · exact .inr ⟨hshallow, by rw [heq]; rfl⟩

theorem sanitizeItems_spec (items : List Json) (h : WellFormedItems items) (depth : ℕ) :
    ((∃ v ∈ items, Exceeds MAX_DEPTH depth v) ∧
        sanitizeItems items depth = .error depthError) ∨
      ((¬ ∃ v ∈ items, Exceeds MAX_DEPTH depth v) ∧ sanitizeItems items depth =
        .ok (dropKeyItems prototypeKey (mapStringsItems sanitized items))) := by
  cases items with
  | nil => exact .inr ⟨by simp, rfl⟩
  | cons v items =>
    rw [List.exists_mem_cons_iff, sanitizeItems]
    rcases sanitizeInput_spec v h.1 depth with ⟨hdeep, heq⟩ | ⟨hshallow, heq⟩
    · exact .inl ⟨.inl hdeep, by rw [heq]⟩
    rcases sanitizeItems_spec items h.2 depth with ⟨hdeeps, heqs⟩ | ⟨hshallows, heqs⟩
    · exact .inl ⟨.inr hdeeps, by rw [heq, heqs]; rfl⟩
    · exact .inr ⟨not_or.mpr ⟨hshallow, hshallows⟩, by rw [heq, heqs]; rfl⟩

/-- The entries that assignment keeps are appended. -/
theorem sanitizeEntries_spec (fields acc : List (JsString × Json))
    (hkeys : (acc.map Prod.fst ++ fields.map Prod.fst).Nodup) (h : WellFormedFields fields)
    (depth : ℕ) :
    ((∃ f ∈ fields, Exceeds MAX_DEPTH depth f.2) ∧
        sanitizeEntries fields depth acc = .error depthError) ∨
      ((¬ ∃ f ∈ fields, Exceeds MAX_DEPTH depth f.2) ∧ sanitizeEntries fields depth acc =
        .ok (acc ++ dropKeyFields prototypeKey (mapStringsFields sanitized fields))) := by
  cases fields with
  | nil => exact .inr ⟨by simp, by rw [sanitizeEntries]; simp [mapStringsFields, dropKeyFields]⟩
  | cons f fields =>
    obtain ⟨key, v⟩ := f
    rw [List.exists_mem_cons_iff, sanitizeEntries]
    rcases sanitizeInput_spec v h.1 depth with ⟨hdeep, heq⟩ | ⟨hshallow, heq⟩
    · exact .inl ⟨.inl hdeep, by rw [heq]⟩
    rw [heq]
    dsimp only
    by_cases hkey : key = prototypeKey
    · have hassign : assignField acc key (sanitizedInput v) = acc := if_pos hkey
      have hrest : (acc.map Prod.fst ++ fields.map Prod.fst).Nodup :=
        hkeys.sublist (List.Sublist.append_left (List.sublist_cons_self _ _) _)
      rw [hassign, mapStringsFields, dropKeyFields, if_pos hkey]
      rcases sanitizeEntries_spec fields acc hrest h.2 depth with ⟨hdeeps, heqs⟩ | ⟨hshallows, heqs⟩
      · exact .inl ⟨.inr hdeeps, heqs⟩
      · exact .inr ⟨not_or.mpr ⟨hshallow, hshallows⟩, heqs⟩
    · have hfresh : key ∉ acc.map Prod.fst := fun hmem =>
        (List.nodup_append.mp hkeys).2.2 key hmem key List.mem_cons_self rfl
      have hassign : assignField acc key (sanitizedInput v) = acc ++ [(key, sanitizedInput v)] :=
        assignField_append hkey hfresh _
      have hrest : ((acc ++ [(key, sanitizedInput v)]).map Prod.fst ++
          fields.map Prod.fst).Nodup := by simpa using hkeys
      rw [hassign, mapStringsFields, dropKeyFields, if_neg hkey]
      rcases sanitizeEntries_spec fields _ hrest h.2 depth with ⟨hdeeps, heqs⟩ | ⟨hshallows, heqs⟩
      · exact .inl ⟨.inr hdeeps, heqs⟩
      · refine .inr ⟨not_or.mpr ⟨hshallow, hshallows⟩, heqs.trans ?_⟩
        rw [List.append_assoc]
        rfl
end

/-- `sanitizeInput` throws exactly for a value more than ten levels down, and otherwise returns
the value with its strings sanitised and nothing else changed. -/
def PreservesStructure (v : Json) : Prop :=
  ((∃ e, sanitizeInput v 0 = .error e) ↔ ∃ n w, 10 < n ∧ Lies n v w) ∧
    ∀ r, sanitizeInput v 0 = .ok r → r = mapStrings sanitized v

/-- It does so for every value that is refused and every one without a `__proto__` key. -/
theorem preservesStructure_iff {text : JsString} {v : Json} (h : parse text = some v) :
    PreservesStructure v ↔ (∃ n w, 10 < n ∧ Lies n v w) ∨
      ∀ n fields, Lies n v (.obj fields) → js "__proto__" ∉ fields.map Prod.fst := by
  have hcopied : sanitizedInput v = mapStrings sanitized v ↔ Lacks prototypeKey v :=
    dropKey_mapStrings_iff prototypeKey sanitized v
  rcases sanitizeInput_spec v (parse_wellFormed h) 0 with ⟨hdeep, heq⟩ | ⟨hshallow, heq⟩
  · refine iff_of_true ⟨iff_of_true ⟨_, heq⟩ hdeep, fun r hr => ?_⟩ (.inl hdeep)
    rw [heq] at hr
    cases hr
  · have hnot : ¬ ∃ n w, 10 < n ∧ Lies n v w := hshallow
    rw [or_iff_right hnot]
    constructor
    · intro hp
      exact hcopied.mp (hp.2 _ heq)
    · intro hlacks
      refine ⟨iff_of_false (fun hthrows => ?_) hnot, fun r hr => ?_⟩
      · obtain ⟨e, he⟩ := hthrows
        rw [heq] at he
        cases he
      · rw [heq] at hr
        obtain rfl := Except.ok.inj hr
        exact hcopied.mpr hlacks

/-- A body with a list. -/
def tagged : Json := .obj [(js "tags", .arr [.str (js "javascript:x"), .null])]

theorem preservesStructure_iff_tagged : PreservesStructure tagged := by
  have hparse : parse (stringify tagged) = some tagged :=
    parse_stringify ⟨List.nodup_singleton _, ⟨trivial, trivial, trivial⟩, trivial⟩
  have hlacks : Lacks prototypeKey tagged := by
    refine lacks_obj.mpr fun f hf => ?_
    obtain rfl := List.mem_singleton.mp hf
    refine ⟨by decide, lacks_arr.mpr fun v hv => lacks_of_leaf fun n fields hlies => ?_⟩
    rcases List.mem_pair.mp hv with rfl | rfl <;> cases hlies
  exact (preservesStructure_iff hparse).mpr (.inr hlacks)

/-- A body with an own `__proto__` key, as `JSON.parse` returns it. -/
def poisoned : Json := .obj [(js "__proto__", .null)]

theorem prototype_key_lost : ¬ ∀ text v, parse text = some v → PreservesStructure v := by
  intro hall
  have hwell : WellFormed poisoned := ⟨List.nodup_singleton _, trivial, trivial⟩
  obtain ⟨-, hcopied⟩ := hall _ _ (parse_stringify hwell)
  have hcopy : dropKey prototypeKey (mapStrings sanitized poisoned) =
      mapStrings sanitized poisoned := by
    rcases sanitizeInput_spec poisoned hwell 0 with ⟨hdeep, heq⟩ | ⟨-, heq⟩
    · obtain ⟨f, hf, hdeep⟩ := (exceeds_obj (Nat.zero_le _)).mp hdeep
      obtain rfl := List.mem_singleton.mp hf
      rw [exceeds_leaf (fun n w hlies => by cases hlies)] at hdeep
      exact absurd hdeep (by decide)
    · exact hcopied _ heq
  have hlacks := (dropKey_mapStrings_iff prototypeKey sanitized poisoned).mp hcopy
  exact hlacks 0 _ (.root _) (List.mem_singleton.mpr rfl)

end UrlShortener.Security
