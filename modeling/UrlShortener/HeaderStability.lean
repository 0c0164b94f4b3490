import UrlShortener.BufferedClicks

/-! The headers of a click, sanitised before it is buffered and once more before it is
inserted. -/
namespace UrlShortener.Js

variable {α : Type*} {p : α → Bool}

/-- Truncation leaves the beginning of a trimmed string as it is. -/
lemma trimBy_take (s : List α) (n : ℕ) :
    trimBy p ((trimBy p s).take n) = ((trimBy p s).take n).rdropWhile p := by
  have hhead : ((trimBy p s).take n).dropWhile p = (trimBy p s).take n := by
    cases ht : (trimBy p s).take n with
    | nil => rfl
    | cons c t =>
      have hc : (trimBy p s).head? = some c := by
        obtain ⟨u, hu⟩ := List.take_prefix n (trimBy p s)
        rw [← hu, ht]
        rfl
      exact List.dropWhile_cons_of_neg (by simp [trimBy_head hc])
  rw [trimBy, hhead]

lemma rdropWhile_eq_self_iff_last (s : List α) :
    s.rdropWhile p = s ↔ ∀ c, s.getLast? = some c → p c = false := by
  rw [List.rdropWhile_eq_self_iff]
  constructor
  · intro h c hc
    have hne : s ≠ [] := by
      intro hnil
      simp [hnil] at hc
    have hlast := h hne
    rw [List.getLast?_eq_some_getLast hne, Option.some.injEq] at hc
    rwa [hc, Bool.not_eq_true] at hlast
  · intro h hne
    rw [h _ (List.getLast?_eq_some_getLast hne)]
    exact Bool.false_ne_true

/-- It may expose an element of the class at the end. -/
lemma take_trimBy_stable_iff (s : List α) (n : ℕ) :
    ((trimBy p s).take (n + 1)).rdropWhile p = (trimBy p s).take (n + 1) ↔
      ∀ c, (trimBy p s)[n]? = some c → p c = false := by
  rw [rdropWhile_eq_self_iff_last]
  refine forall_congr' fun c => ?_
  by_cases hlong : n < (trimBy p s).length
  · rw [List.getLast?_take, if_neg (by omega), Nat.add_sub_cancel,
      List.getElem?_eq_getElem hlong, Option.some_or]
  · rw [List.take_of_length_le (by omega), List.getElem?_eq_none (by omega)]
    simpa using fun hc => trimBy_last hc

end UrlShortener.Js

namespace UrlShortener.ClickConsumers
open Js Json FlushWorker Analytics

/-- The header without its angle brackets and the white space around it. -/
def cleaned (value : JsString) : JsString := trim (value.filter (noneOf "<>"))

/-- Sanitising once more drops the white space that truncation has left at the end. -/
lemma sanitize_sanitize (value : JsString) :
    Analytics.sanitize (Analytics.sanitize value) =
      (Analytics.sanitize value).rdropWhile isWhiteSpace := by
  have hfilter : (Analytics.sanitize value).filter (noneOf "<>") = Analytics.sanitize value :=
    List.filter_eq_self.mpr (sanitize_clean value)
  have htrim : trim (Analytics.sanitize value) =
      (Analytics.sanitize value).rdropWhile isWhiteSpace := trimBy_take _ 512
  have hlength : ((Analytics.sanitize value).rdropWhile isWhiteSpace).length ≤ 512 :=
    (List.rdropWhile_prefix _ _).length_le.trans (List.length_take_le _ _)
  rw [Analytics.sanitize, hfilter, htrim, List.take_of_length_le hlength]

lemma sanitize_stable_iff (value : JsString) :
    (Analytics.sanitize value).rdropWhile isWhiteSpace = Analytics.sanitize value ↔
      ∀ c, (cleaned value)[511]? = some c → isWhiteSpace c = false :=
  take_trimBy_stable_iff _ 511

section Rows
variable (c : TrackedClick)

lemma rowOfEntry_eventPayload (isZero : JsString → Bool) :
    rowOfEntry isZero (eventPayload c) = some (rowOfClick c) := by
  rw [rowOfEntry, parse_eventPayload]
  exact bindEvent_eventFields isZero c

/-- What the worker binds for a payload, if the rest of it is valid. -/
lemma mem_parsedRows_eventPayload {row : ClickRow} (h : row ∈ parsedRows [eventPayload c]) :
    row = workerRow c := by
  by_cases hvalid : isUrlId (.str c.url_id) && isAddress (.str c.ip_address)
  · simpa [parsedRows, parseEvent, parse_eventPayload, validateEvent, prop_url_id, prop_timestamp,
      prop_ip_address, prop_user_agent, prop_referer, hvalid, workerRow] using h
  · simp [parsedRows, parseEvent, parse_eventPayload, validateEvent, prop_url_id, prop_timestamp,
      prop_ip_address, prop_user_agent, prop_referer, hvalid] at h

end Rows

/-- Both consumers store the headers of the payload without the white space at their end; a
header has none there exactly when truncation does not cut it behind white space. -/
theorem stored_headers (isZero : JsString → Bool) :
    (∀ value, FlushWorker.sanitize (Analytics.sanitize value) =
        (Analytics.sanitize value).rdropWhile isWhiteSpace ∧
      Analytics.sanitize (Analytics.sanitize value) =
        (Analytics.sanitize value).rdropWhile isWhiteSpace ∧
      ((Analytics.sanitize value).rdropWhile isWhiteSpace = Analytics.sanitize value ↔
        ∀ c, (cleaned value)[511]? = some c → isWhiteSpace c = false)) ∧
    ∀ call : TrackCall,
      (∀ row ∈ parsedRows [eventPayload call.click],
        row.user_agent = call.click.user_agent.rdropWhile isWhiteSpace ∧
        row.referer = call.click.referer.rdropWhile isWhiteSpace) ∧
      ∃ row, rowOfEntry isZero (eventPayload call.click) = some row ∧
        row.user_agent = call.click.user_agent.rdropWhile isWhiteSpace ∧
        row.referer = call.click.referer.rdropWhile isWhiteSpace := by
  have hworker : ∀ value, FlushWorker.sanitize (Analytics.sanitize value) =
      (Analytics.sanitize value).rdropWhile isWhiteSpace := by
    intro value
    rw [sanitize_agree (sanitize_clean value), sanitize_sanitize]
  refine ⟨fun value => ⟨hworker value, sanitize_sanitize value, sanitize_stable_iff value⟩,
    fun call => ⟨fun row hrow => ?_, _, rowOfEntry_eventPayload call.click isZero, ?_⟩⟩
  · rw [mem_parsedRows_eventPayload _ hrow]
    exact ⟨hworker call.userAgent, hworker call.referer⟩
  · exact ⟨sanitize_sanitize call.userAgent, sanitize_sanitize call.referer⟩

/-- A header that is cut behind a blank. -/
def longHeader : JsString := List.replicate 511 (unit 'a') ++ js " b"

/-- The blank is in the fingerprint and not in the table. -/
theorem header_changed :
    FlushWorker.sanitize (Analytics.sanitize longHeader) ≠ Analytics.sanitize longHeader ∧
      Analytics.sanitize (Analytics.sanitize longHeader) ≠ Analytics.sanitize longHeader := by
  have hblank : (cleaned longHeader)[511]? = some (unit ' ') := by decide +kernel
  have hsame : Analytics.sanitize (Analytics.sanitize longHeader) ≠
      Analytics.sanitize longHeader := by
    rw [sanitize_sanitize]
    intro h
    have hspace := (sanitize_stable_iff longHeader).mp h _ hblank
    exact absurd hspace (by decide)
  refine ⟨?_, hsame⟩
  rwa [sanitize_agree (sanitize_clean longHeader)]

end UrlShortener.ClickConsumers
