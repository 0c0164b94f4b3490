import UrlShortener.ClickConsumers

/-! One call of `processBufferedClicks` as an account: where the entries that it pops go. -/
namespace UrlShortener.ClickConsumers
open Js Json FlushWorker

/-- What the loop over LPOP takes off the buffer; an empty entry is the last one. -/
def taken : ℕ → List JsString → List JsString
  | 0, _ | _, [] => []
  | n + 1, raw :: rest => if raw = [] then [raw] else raw :: taken n rest

/-- An entry with the event it is parsed to. -/
def parsedEntry (raw : JsString) : Option (JsString × Json) := (parse raw).map (raw, ·)

/-- The entries that JSON.parse accepts. -/
def parses (raw : JsString) : Bool := (parse raw).isSome

/-- `rawEvents` after the loop. -/
def batchOf (n : ℕ) (buffer : List JsString) : List JsString := (taken n buffer).filter parses

/-- What the loop leaves in the buffer. -/
def restOf (n : ℕ) (buffer : List JsString) : List JsString := buffer.drop (taken n buffer).length

/-- The row that is inserted for an entry. -/
def rowOfEntry (isZero : JsString → Bool) (raw : JsString) : Option BoundRow := do
  let event ← parse raw
  bindEvent isZero event

lemma taken_append_restOf (n : ℕ) (buffer : List JsString) :
    taken n buffer ++ restOf n buffer = buffer := by
  induction n generalizing buffer with
  | zero => cases buffer <;> rfl
  | succ n ih =>
    cases buffer with
    | nil => rfl
    | cons raw rest =>
      by_cases hraw : raw = []
      · simp [taken, restOf, hraw]
      · simpa [taken, restOf, hraw] using ih rest

lemma restOf_taken_perm (n : ℕ) (buffer : List JsString) :
    (restOf n buffer ++ taken n buffer).Perm buffer := by
  have hrotate : (restOf n buffer ++ taken n buffer).Perm (taken n buffer ++ restOf n buffer) :=
    List.perm_append_comm
  rwa [taken_append_restOf] at hrotate

/-- The loop while Redis answers. -/
lemma popEvents_eq (n : ℕ) (buffer : List JsString) :
    popEvents n none buffer =
      ⟨(taken n buffer).filterMap parsedEntry, restOf n buffer, false⟩ := by
  induction n generalizing buffer with
  | zero => cases buffer <;> rfl
  | succ n ih =>
    cases buffer with
    | nil => rfl
    | cons raw rest =>
      have hrest := ih rest
      by_cases hraw : raw = []
      · simp [taken, restOf, popEvents, hraw, parsedEntry, parse_nil]
      · cases hparse : parse raw with
        | none => simp [taken, restOf, popEvents, hraw, hparse, parsedEntry, hrest]
        | some event => simp [taken, restOf, popEvents, hraw, hparse, parsedEntry, hrest]

section Batch

lemma map_fst_parsedEntry (entries : List JsString) :
    (entries.filterMap parsedEntry).map Prod.fst = entries.filter parses := by
  induction entries with
  | nil => rfl
  | cons raw rest ih =>
    cases hparse : parse raw with
    | none => simpa [parsedEntry, parses, hparse] using ih
    | some event => simpa [parsedEntry, parses, hparse] using ih

lemma mapM_bindEvent_parsedEntry (isZero : JsString → Bool) (entries : List JsString) :
    ((entries.filterMap parsedEntry).mapM fun e => bindEvent isZero e.2) =
      (entries.filter parses).mapM (rowOfEntry isZero) := by
  induction entries with
  | nil => rfl
  | cons raw rest ih =>
    cases hparse : parse raw with
    | none => simpa [parsedEntry, parses, hparse] using ih
    | some event => simp [parsedEntry, parses, hparse, rowOfEntry, ih]

lemma batchOf_eq_nil {n : ℕ} {buffer : List JsString} :
    batchOf n buffer = [] ↔
      ∀ raw ∈ (buffer.take n).takeWhile (· ≠ []), parse raw = none := by
  rw [batchOf, List.filter_eq_nil_iff]
  induction n generalizing buffer with
  | zero => cases buffer <;> simp [taken]
  | succ n ih =>
    cases buffer with
    | nil => simp [taken]
    | cons raw rest =>
      by_cases hraw : raw = []
      · simp [taken, hraw, parses, parse_nil]
      · have hrest := @ih rest
        simp only [parses, Bool.not_eq_true, Option.isSome_eq_false_iff,
          Option.isNone_iff_eq_none] at hrest ⊢
        simp [taken, hraw, hrest]

end Batch

section Call
variable (isZero : JsString → Bool) (n : ℕ) (s : Drain)

/-- A call while Redis answers. -/
lemma processBufferedClicks_eq (onConnect onInsert : Option DbError) :
    processBufferedClicks isZero ⟨none, onConnect, onInsert, none⟩ n s =
      if batchOf n s.buffer = [] then (⟨restOf n s.buffer, s.clicks⟩, none)
      else
        match onConnect with
        | some err => (⟨restOf n s.buffer, s.clicks⟩, some (.database err))
        | none =>
          match (batchOf n s.buffer).mapM (rowOfEntry isZero) with
          | none => (⟨restOf n s.buffer ++ batchOf n s.buffer, s.clicks⟩, some .typeError)
          | some rows =>
            match onInsert with
            | some err =>
              (⟨restOf n s.buffer ++ batchOf n s.buffer, s.clicks⟩, some (.database err))
            | none => (⟨restOf n s.buffer, s.clicks ++ rows⟩, none) := by
  have hnil : (taken n s.buffer).filterMap parsedEntry = [] ↔ batchOf n s.buffer = [] := by
    rw [batchOf, ← map_fst_parsedEntry, List.map_eq_nil_iff]
  simp only [processBufferedClicks, popEvents_eq, Bool.false_eq_true, if_false, hnil,
    map_fst_parsedEntry, mapM_bindEvent_parsedEntry, requeueAll]
  rfl

end Call

/-- The entries that the loop has popped and dropped. -/
def discards (n : ℕ) (buffer : List JsString) : List JsString :=
  (taken n buffer).filter fun raw => !parses raw

lemma parse_of_mem_discards {n : ℕ} {buffer : List JsString} :
    ∀ raw ∈ discards n buffer, parse raw = none := by
  intro raw hraw
  have hparses := (List.mem_filter.mp hraw).2
  simpa [parses] using hparses

lemma restOf_batchOf_discards (n : ℕ) (buffer : List JsString) :
    (restOf n buffer ++ batchOf n buffer ++ discards n buffer).Perm buffer := by
  have hsplit : (batchOf n buffer ++ discards n buffer).Perm (taken n buffer) :=
    List.filter_append_perm parses _
  rw [List.append_assoc]
  exact (hsplit.append_left _).trans (restOf_taken_perm n buffer)

/-- What is in the buffer after the call, the entries whose rows were inserted and the popped
ones that are not JSON make up the buffer before it, and a call that rejects has left every
event there. -/
structure Accounts (isZero : JsString → Bool) (s s' : Drain) (thrown : Option Thrown) : Prop where
  balance : ∃ inserted discarded rows,
    (s'.buffer ++ inserted ++ discarded).Perm s.buffer ∧
    inserted.mapM (rowOfEntry isZero) = some rows ∧ s'.clicks = s.clicks ++ rows ∧
    ∀ raw ∈ discarded, parse raw = none
  restored : thrown ≠ none → ∀ raw, parse raw ≠ none → s'.buffer.count raw = s.buffer.count raw

section Accounts
variable {isZero : JsString → Bool} {s s' : Drain} {thrown : Option Thrown}

/-- Nothing was inserted, and only what is not JSON is gone. -/
lemma Accounts.of_kept {discarded : List JsString} (hclicks : s'.clicks = s.clicks)
    (hperm : (s'.buffer ++ discarded).Perm s.buffer)
    (hdiscarded : ∀ raw ∈ discarded, parse raw = none) : Accounts isZero s s' thrown := by
  refine ⟨⟨[], discarded, [], by simpa using hperm, rfl, by simp [hclicks], hdiscarded⟩, ?_⟩
  intro hthrown raw hraw
  have hcount := hperm.count_eq raw
  have hnone : discarded.count raw = 0 :=
    List.count_eq_zero.mpr fun hmem => hraw (hdiscarded raw hmem)
  rwa [List.count_append, hnone, Nat.add_zero] at hcount

/-- Without rows every entry that is gone is none of JSON. -/
lemma Accounts.parse_of_gone {gone : List JsString} (h : Accounts isZero s s' thrown)
    (hclicks : s'.clicks = s.clicks) (hgone : s.buffer.Perm (s'.buffer ++ gone)) :
    ∀ raw ∈ gone, parse raw = none := by
  obtain ⟨inserted, discarded, rows, hperm, hrows, hclicks', hdiscarded⟩ := h.balance
  obtain rfl : rows = [] := by simpa [hclicks] using hclicks'
  obtain rfl : inserted = [] := by
    cases inserted with
    | nil => rfl
    | cons raw rest => simp [Option.bind_eq_some_iff] at hrows
  rw [List.append_nil] at hperm
  have hsame : discarded.Perm gone := (List.perm_append_left_iff _).mp (hperm.trans hgone)
  exact fun raw hraw => hdiscarded raw (hsame.mem_iff.mpr hraw)

end Accounts

section Outcome
variable (isZero : JsString → Bool) (onConnect onInsert : Option DbError) {n : ℕ} {s : Drain}

lemma accounts_of_nil (h : batchOf n s.buffer = []) :
    let result := processBufferedClicks isZero ⟨none, onConnect, onInsert, none⟩ n s
    Accounts isZero s result.1 result.2 := by
  intro result
  have hresult : result = _ := processBufferedClicks_eq isZero n s onConnect onInsert
  have hbalance := restOf_batchOf_discards n s.buffer
  rw [h, List.append_nil] at hbalance
  rw [hresult, if_pos h]
  exact .of_kept rfl hbalance parse_of_mem_discards

/-- With a connection the batch is inserted or put back. -/
lemma accounts_of_connected (h : batchOf n s.buffer ≠ []) :
    let result := processBufferedClicks isZero ⟨none, none, onInsert, none⟩ n s
    Accounts isZero s result.1 result.2 := by
  intro result
  have hresult : result = _ := processBufferedClicks_eq isZero n s none onInsert
  have hbalance := restOf_batchOf_discards n s.buffer
  rw [if_neg h] at hresult
  cases hrows : (batchOf n s.buffer).mapM (rowOfEntry isZero) with
  | none =>
    rw [hrows] at hresult
    rw [hresult]
    exact .of_kept rfl hbalance parse_of_mem_discards
  | some rows =>
    rw [hrows] at hresult
    cases onInsert with
    | some err =>
      rw [hresult]
      exact .of_kept rfl hbalance parse_of_mem_discards
    | none =>
      rw [hresult]
      exact ⟨⟨_, _, rows, hbalance, hrows, rfl, parse_of_mem_discards⟩, fun h => (h rfl).elim⟩

/-- Without one it is lost: the `try` that would put it back is not entered. -/
lemma not_accounts_of_refused (err : DbError) (h : batchOf n s.buffer ≠ []) :
    let result := processBufferedClicks isZero ⟨none, some err, onInsert, none⟩ n s
    ¬ Accounts isZero s result.1 result.2 := by
  intro result haccounts
  have hresult : result = _ := processBufferedClicks_eq isZero n s (some err) onInsert
  rw [hresult, if_neg h] at haccounts
  have hgone := (restOf_batchOf_discards n s.buffer).symm
  rw [List.append_assoc] at hgone
  obtain ⟨raw, hraw⟩ := List.exists_mem_of_ne_nil _ h
  have hnone := haccounts.parse_of_gone rfl hgone raw (List.mem_append_left _ hraw)
  have hparses := (List.mem_filter.mp hraw).2
  simp [parses, hnone] at hparses

end Outcome

/-- A call that settles while Redis answers accounts for every entry exactly when the pool hands
out a connection, or no entry that the loop pops is JSON. -/
theorem accounts_iff (isZero : JsString → Bool) (onConnect onInsert : Option DbError) (n : ℕ)
    (s : Drain) :
    let result := processBufferedClicks isZero ⟨none, onConnect, onInsert, none⟩ n s
    Accounts isZero s result.1 result.2 ↔
      onConnect = none ∨ ∀ raw ∈ (s.buffer.take n).takeWhile (· ≠ []), parse raw = none := by
  intro result
  rw [← batchOf_eq_nil]
  by_cases hbatch : batchOf n s.buffer = []
  · exact iff_of_true (accounts_of_nil isZero onConnect onInsert hbatch) (.inr hbatch)
  cases onConnect with
  | some err =>
    exact iff_of_false (not_accounts_of_refused isZero onInsert err hbatch) (by simp [hbatch])
  | none => exact iff_of_true (accounts_of_connected isZero onInsert hbatch) (.inl rfl)

/-- The pool has no connection. -/
def refused : ConsumerReplies := ⟨none, some ⟨none, js "ECONNREFUSED"⟩, none, none⟩

/-- A valid click that was popped before the pool refused is neither in the buffer nor in
`clicks`. -/
theorem click_lost_by_refused_connection :
    let s : Drain := ⟨[sampleClick], []⟩
    let result := processBufferedClicks (· = js "0") refused 1 s
    result.1 = ⟨[], []⟩ ∧ ¬ Accounts (· = js "0") s result.1 result.2 := by
  intro s result
  have hbatch : batchOf 1 s.buffer = [sampleClick] := by decide +kernel
  have hrest : restOf 1 s.buffer = [] := by decide +kernel
  have hresult : result = (⟨[], []⟩, some (.database ⟨none, js "ECONNREFUSED"⟩)) := by
    rw [show result = _ from processBufferedClicks_eq (· = js "0") 1 s _ _, hbatch, hrest,
      if_neg (List.cons_ne_nil _ _)]
  rw [hresult]
  refine ⟨rfl, fun h => ?_⟩
  have hnone := h.parse_of_gone rfl (List.Perm.refl [sampleClick]) sampleClick (by simp)
  have hparses : parses sampleClick = true := by decide +kernel
  simp [parses, hnone] at hparses
end UrlShortener.ClickConsumers
