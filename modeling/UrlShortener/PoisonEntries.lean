import UrlShortener.BufferedClicks

/-! `processBufferedClicks` called again and again on a buffer without producers: what one
entry that cannot be inserted does to the others. -/
namespace UrlShortener.ClickConsumers
open Js Json FlushWorker Transition

/-- Which values the columns of `clicks` accept, and the error for a statement with a value
that one of them does not. -/
structure Columns where
  acceptsUrlId : Option Json → Bool
  acceptsTimestamp : Option Json → Bool
  acceptsAddress : Option Json → Bool
  acceptsUserAgent : JsString → Bool
  acceptsReferer : JsString → Bool
  refusal : List BoundRow → DbError

def Columns.accepts (db : Columns) (row : BoundRow) : Bool :=
  db.acceptsUrlId row.url_id && db.acceptsTimestamp row.timestamp &&
    db.acceptsAddress row.ip_address && db.acceptsUserAgent row.user_agent &&
    db.acceptsReferer row.referer

/-- Redis and Postgres answer; only the INSERT can fail, and only for its values. -/
def Columns.replies (db : Columns) (rows : List BoundRow) : ConsumerReplies :=
  ⟨none, none, if rows.all db.accepts then none else some (db.refusal rows), none⟩

section Server
variable (isZero : JsString → Bool) (db : Columns) (n : ℕ)

/-- A call against the server. -/
def drainInto (s : Drain) : Drain :=
  let rows := ((batchOf n s.buffer).mapM (rowOfEntry isZero)).getD []
  (processBufferedClicks isZero (db.replies rows) n s).1

/-- The buffer and the table after so many calls. -/
def drained (calls : ℕ) (s : Drain) : Drain := (drainInto isZero db n)^[calls] s

/-- The row of an entry that is accepted on its own. -/
def acceptedRow (raw : JsString) : Option BoundRow := (rowOfEntry isZero raw).filter db.accepts

/-- A call pops the batch and puts it back. -/
def Requeues (batch : List JsString) (s : Drain) : Prop :=
  batch ≠ [] ∧ batchOf n s.buffer = batch ∧
    drainInto isZero db n s = ⟨restOf n s.buffer ++ batch, s.clicks⟩

/-- After as many calls as there are entries every acceptable event is inserted, and no batch
is popped and put back for ever. -/
structure Unblocked (s : Drain) : Prop where
  inserted : ∃ rows, (drained isZero db n s.buffer.length s).clicks = s.clicks ++ rows ∧
    (s.buffer.filterMap (acceptedRow isZero db)).Subperm rows
  settled : ∀ batch, {calls | Requeues isZero db n batch (drained isZero db n calls s)}.Finite

end Server

section Step
variable {isZero : JsString → Bool} {db : Columns} {n : ℕ}

/-- The rows of a batch are accepted when each of them is. -/
lemma mapM_acceptedRow (entries : List JsString) :
    entries.mapM (acceptedRow isZero db) =
      (entries.mapM (rowOfEntry isZero)).filter fun rows => rows.all db.accepts := by
  induction entries with
  | nil => rfl
  | cons raw rest ih =>
    simp only [List.mapM_cons, acceptedRow, ih]
    cases rowOfEntry isZero raw with
    | none => rfl
    | some row =>
      cases rest.mapM (rowOfEntry isZero) with
      | none => simp
      | some rows =>
        by_cases hrow : db.accepts row
        · by_cases hrows : rows.all db.accepts
          · simp [Option.filter_some, hrow, hrows]
          · simp [Option.filter_some, hrow, hrows]
        · simp [Option.filter_some, hrow]

/-- A batch is inserted as a whole or put back as a whole. -/
lemma drainInto_eq (s : Drain) :
    drainInto isZero db n s =
      match (batchOf n s.buffer).mapM (acceptedRow isZero db) with
      | some rows => ⟨restOf n s.buffer, s.clicks ++ rows⟩
      | none => ⟨restOf n s.buffer ++ batchOf n s.buffer, s.clicks⟩ := by
  rw [drainInto, Columns.replies, processBufferedClicks_eq, mapM_acceptedRow]
  by_cases hbatch : batchOf n s.buffer = []
  · simp [hbatch, Option.filter_some]
  · rw [if_neg hbatch]
    cases (batchOf n s.buffer).mapM (rowOfEntry isZero) with
    | none => rfl
    | some rows =>
      by_cases hall : rows.all db.accepts
      · simp [hall, Option.filter_some]
      · simp [hall, Option.filter_some]

lemma length_restOf_lt (hn : 1 ≤ n) {buffer : List JsString} (hne : buffer ≠ []) :
    (restOf n buffer).length < buffer.length := by
  have hlength := congrArg List.length (taken_append_restOf n buffer)
  have htaken : taken n buffer ≠ [] := by
    obtain ⟨raw, rest, rfl⟩ := List.exists_cons_of_ne_nil hne
    obtain ⟨m, rfl⟩ : ∃ m, n = m + 1 := ⟨n - 1, by omega⟩
    rw [taken]
    split_ifs <;> simp
  have hpos := List.length_pos_of_ne_nil htaken
  rw [List.length_append] at hlength
  omega

/-! Without poison every call gets on. -/

/-- No event of the buffer is refused. -/
def Wholesome (isZero : JsString → Bool) (db : Columns) (buffer : List JsString) : Prop :=
  ∀ raw ∈ buffer, parse raw ≠ none → (acceptedRow isZero db raw).isSome

lemma mapM_of_isSome {α β : Type*} {f : α → Option β} {l : List α}
    (h : ∀ a ∈ l, (f a).isSome) : l.mapM f = some (l.filterMap f) := by
  induction l with
  | nil => rfl
  | cons a l ih =>
    obtain ⟨b, hb⟩ := Option.isSome_iff_exists.mp (h a (by simp))
    simp [hb, ih fun c hc => h c (by simp [hc])]

lemma isSome_of_mapM {α β : Type*} {f : α → Option β} {l : List α} {bs : List β}
    (h : l.mapM f = some bs) : ∀ a ∈ l, (f a).isSome := by
  induction l generalizing bs with
  | nil => simp
  | cons a l ih =>
    simp only [List.mapM_cons, Option.bind_eq_bind, Option.bind_eq_some_iff] at h
    obtain ⟨b, hb, cs, hcs, -⟩ := h
    intro c hc
    rcases List.mem_cons.mp hc with rfl | hc
    · rw [hb]
      rfl
    · exact ih hcs c hc

lemma filterMap_batchOf (buffer : List JsString) :
    (batchOf n buffer).filterMap (acceptedRow isZero db) =
      (taken n buffer).filterMap (acceptedRow isZero db) := by
  rw [batchOf, List.filterMap_filter]
  refine List.filterMap_congr fun raw _ => ?_
  cases hparse : parse raw with
  | none => simp [parses, acceptedRow, rowOfEntry, hparse]
  | some event => simp [parses, hparse]

lemma drainInto_of_wholesome {s : Drain} (h : Wholesome isZero db s.buffer) :
    drainInto isZero db n s =
      ⟨restOf n s.buffer,
        s.clicks ++ (taken n s.buffer).filterMap (acceptedRow isZero db)⟩ := by
  have hsome : ∀ raw ∈ batchOf n s.buffer, (acceptedRow isZero db raw).isSome := by
    intro raw hraw
    obtain ⟨htaken, hparses⟩ := List.mem_filter.mp hraw
    have hmem : raw ∈ s.buffer := by
      rw [← taken_append_restOf n s.buffer]
      exact List.mem_append_left _ htaken
    exact h raw hmem (Option.isSome_iff_ne_none.mp hparses)
  rw [drainInto_eq, mapM_of_isSome hsome, filterMap_batchOf]

lemma drained_of_wholesome (hn : 1 ≤ n) {s : Drain} (h : Wholesome isZero db s.buffer)
    (calls : ℕ) : ∃ gone, gone ++ (drained isZero db n calls s).buffer = s.buffer ∧
      (drained isZero db n calls s).clicks =
        s.clicks ++ gone.filterMap (acceptedRow isZero db) ∧
      (drained isZero db n calls s).buffer.length ≤ s.buffer.length - calls := by
  induction calls with
  | zero => exact ⟨[], rfl, by simp [drained], le_refl _⟩
  | succ calls ih =>
    obtain ⟨gone, hbuffer, hclicks, hlength⟩ := ih
    rw [drained, Function.iterate_succ_apply', ← drained]
    set d := drained isZero db n calls s
    have hd : Wholesome isZero db d.buffer := by
      intro raw hraw
      exact h raw (hbuffer ▸ List.mem_append_right _ hraw)
    rw [drainInto_of_wholesome hd]
    refine ⟨gone ++ taken n d.buffer, ?_, ?_, ?_⟩
    · rw [List.append_assoc, taken_append_restOf, hbuffer]
    · rw [hclicks, List.filterMap_append, List.append_assoc]
    · by_cases hne : d.buffer = []
      · simp [hne, restOf]
      · have hlt := length_restOf_lt hn hne
        change (restOf n d.buffer).length ≤ _
        omega

lemma not_requeues_of_wholesome {s : Drain} (h : Wholesome isZero db s.buffer)
    (batch : List JsString) : ¬ Requeues isZero db n batch s := by
  intro hrequeues
  obtain ⟨hne, -, hdrain⟩ := hrequeues
  rw [drainInto_of_wholesome h] at hdrain
  have hbuffer := congrArg Drain.buffer hdrain
  exact hne (List.self_eq_append_right.mp hbuffer)

/-! A refused event never leaves the buffer, and it is popped again and again. -/

lemma mem_drainInto_of_refused {raw : JsString} {s : Drain} (hparse : parse raw ≠ none)
    (hrefused : acceptedRow isZero db raw = none) (hmem : raw ∈ s.buffer) :
    raw ∈ (drainInto isZero db n s).buffer := by
  rw [← taken_append_restOf n s.buffer, List.mem_append] at hmem
  rw [drainInto_eq]
  cases hrows : (batchOf n s.buffer).mapM (acceptedRow isZero db) with
  | none =>
    refine List.mem_append.mpr (hmem.symm.imp_right fun htaken => ?_)
    exact List.mem_filter.mpr ⟨htaken, Option.isSome_iff_ne_none.mpr hparse⟩
  | some rows =>
    refine hmem.resolve_left fun htaken => ?_
    have hbatch : raw ∈ batchOf n s.buffer :=
      List.mem_filter.mpr ⟨htaken, Option.isSome_iff_ne_none.mpr hparse⟩
    have hsome := isSome_of_mapM hrows raw hbatch
    simp [hrefused] at hsome

lemma drainInto_subperm (s : Drain) : (drainInto isZero db n s).buffer.Subperm s.buffer := by
  have hsub : (drainInto isZero db n s).buffer.Sublist
      (restOf n s.buffer ++ taken n s.buffer) := by
    rw [drainInto_eq]
    cases (batchOf n s.buffer).mapM (acceptedRow isZero db) with
    | none => exact List.filter_sublist.append_left _
    | some rows => exact List.sublist_append_left _ _
  exact hsub.subperm.trans (restOf_taken_perm n s.buffer).subperm

lemma drained_subperm (calls : ℕ) (s : Drain) :
    (drained isZero db n calls s).buffer.Subperm s.buffer := by
  refine Function.Iterate.rec (fun d : Drain => d.buffer.Subperm s.buffer)
    (List.Subperm.refl _) (fun d hd => ?_) calls
  exact (drainInto_subperm d).trans hd

lemma batchOf_sublist (buffer : List JsString) : (batchOf n buffer).Sublist buffer := by
  have htaken : (taken n buffer).Sublist buffer := by
    conv_rhs => rw [← taken_append_restOf n buffer]
    exact List.sublist_append_left _ _
  exact List.filter_sublist.trans htaken

/-- The batches that can be made up from the entries of a buffer. -/
lemma finite_subperm (buffer : List JsString) :
    {batch : List JsString | batch.Subperm buffer}.Finite := by
  refine (List.finite_toSet (buffer.sublists.flatMap List.permutations)).subset ?_
  intro batch hbatch
  obtain ⟨l, hperm, hsub⟩ := hbatch
  exact List.mem_flatMap.mpr ⟨l, List.mem_sublists.mpr hsub, List.mem_permutations.mpr hperm.symm⟩

/-- Calls that put nothing back would come to its end, so some do, for ever; and there are
finitely many batches. -/
lemma requeues_of_refused (hn : 1 ≤ n) {raw : JsString} {s : Drain} (hparse : parse raw ≠ none)
    (hrefused : acceptedRow isZero db raw = none) (hmem : raw ∈ s.buffer) :
    ∃ batch, {calls | Requeues isZero db n batch (drained isZero db n calls s)}.Infinite := by
  have hinfinite : {calls | (batchOf n ((drainInto isZero db n)^[calls] s).buffer).mapM
      (acceptedRow isZero db) = none}.Infinite := by
    refine infinite_of_descent (fun d : Drain => raw ∈ d.buffer)
      (fun d => (batchOf n d.buffer).mapM (acceptedRow isZero db) = none)
      (fun d => d.buffer.length) (fun d => mem_drainInto_of_refused hparse hrefused)
      (fun d hd hrows => ?_) hmem
    obtain ⟨rows, hrows⟩ := Option.ne_none_iff_exists'.mp hrows
    rw [drainInto_eq, hrows]
    exact length_restOf_lt hn (List.ne_nil_of_mem hd)
  have hbatches : ∀ calls, batchOf n ((drainInto isZero db n)^[calls] s).buffer ∈
      {batch : List JsString | batch.Subperm s.buffer} := by
    intro calls
    exact (batchOf_sublist _).subperm.trans (drained_subperm calls s)
  obtain ⟨batch, hbatch⟩ := exists_infinite_value
    (fun d => (batchOf n d.buffer).mapM (acceptedRow isZero db) = none)
    (fun d : Drain => batchOf n d.buffer) (finite_subperm s.buffer) hbatches hinfinite
  refine ⟨batch, hbatch.mono fun calls hcalls => ?_⟩
  obtain ⟨hrows, rfl⟩ := hcalls
  refine ⟨?_, rfl, ?_⟩
  · intro hnil
    simp [hnil] at hrows
  · rw [drained, drainInto_eq, hrows]

end Step

/-- The calls get every acceptable event into the table and come to rest exactly when each
entry that is JSON is accepted on its own. -/
theorem unblocked_iff (isZero : JsString → Bool) (db : Columns) {n : ℕ} (hn : 1 ≤ n) (s : Drain) :
    Unblocked isZero db n s ↔
      ∀ raw ∈ s.buffer, ∀ event, parse raw = some event →
        ∃ row, bindEvent isZero event = some row ∧ db.accepts row = true := by
  have hwholesome : Wholesome isZero db s.buffer ↔ ∀ raw ∈ s.buffer, ∀ event,
      parse raw = some event → ∃ row, bindEvent isZero event = some row ∧ db.accepts row := by
    refine forall₂_congr fun raw _ => ?_
    cases hparse : parse raw with
    | none => simp
    | some event => simp [acceptedRow, rowOfEntry, hparse, Option.any_eq_true]
  rw [← hwholesome]
  constructor
  · intro hunblocked raw hmem hparse
    by_contra hrefused
    obtain ⟨batch, hinfinite⟩ :=
      requeues_of_refused hn hparse (Option.not_isSome_iff_eq_none.mp hrefused) hmem
    exact hinfinite (hunblocked.settled batch)
  · intro h
    refine ⟨?_, fun batch => ?_⟩
    · obtain ⟨gone, hbuffer, hclicks, hlength⟩ := drained_of_wholesome hn h s.buffer.length
      rw [Nat.sub_self, Nat.le_zero, List.length_eq_zero_iff] at hlength
      rw [hlength, List.append_nil] at hbuffer
      exact ⟨_, hclicks, by rw [hbuffer]⟩
    · have hnone : {calls | Requeues isZero db n batch (drained isZero db n calls s)} = ∅ := by
        refine Set.eq_empty_of_forall_notMem fun calls => ?_
        obtain ⟨gone, hbuffer, -⟩ := drained_of_wholesome hn h calls
        apply not_requeues_of_wholesome
        intro raw hraw
        exact h raw (hbuffer ▸ List.mem_append_right _ hraw)
      rw [hnone]
      exact Set.finite_empty

/-- Columns that accept whatever is bound. -/
def anyValue : Columns where
  acceptsUrlId _ := true
  acceptsTimestamp _ := true
  acceptsAddress _ := true
  acceptsUserAgent _ := true
  acceptsReferer _ := true
  refusal _ := ⟨some (js "22P02"), js "invalid input syntax"⟩

theorem unblocked_iff_click : Unblocked (· = js "0") anyValue 1 ⟨[sampleClick], []⟩ := by
  refine (unblocked_iff _ _ (le_refl 1) _).mpr fun raw hraw event hevent => ?_
  obtain rfl := List.mem_singleton.mp hraw
  have hsome : (rowOfEntry (· = js "0") sampleClick).isSome = true := by decide +kernel
  obtain ⟨row, hrow⟩ := Option.isSome_iff_exists.mp hsome
  rw [rowOfEntry, hevent] at hrow
  exact ⟨row, hrow, rfl⟩

/-- The entry `null` has no fields to bind: the click that is popped with it is never inserted. -/
theorem null_entry_blocks : ¬ Unblocked (· = js "0") anyValue 2 ⟨[js "null", sampleClick], []⟩ := by
  intro hunblocked
  have hbatch : batchOf 2 [js "null", sampleClick] = [js "null", sampleClick] := by decide +kernel
  have hrest : restOf 2 [js "null", sampleClick] = [] := by decide +kernel
  have hnull : acceptedRow (· = js "0") anyValue (js "null") = none := by
    have hnone : (acceptedRow (· = js "0") anyValue (js "null")).isNone = true := by decide +kernel
    exact Option.isNone_iff_eq_none.mp hnone
  have hsame : drainInto (· = js "0") anyValue 2 ⟨[js "null", sampleClick], []⟩ =
      ⟨[js "null", sampleClick], []⟩ := by
    rw [drainInto_eq, hbatch, hrest, List.mapM_cons, hnull]
    rfl
  have hall : {calls | Requeues (· = js "0") anyValue 2 [js "null", sampleClick]
      (drained (· = js "0") anyValue 2 calls ⟨[js "null", sampleClick], []⟩)} = Set.univ := by
    refine Set.eq_univ_of_forall fun calls => ?_
    rw [Set.mem_ofPred_eq, drained, Function.iterate_fixed hsame]
    exact ⟨List.cons_ne_nil _ _, hbatch, by rw [hsame, hrest, List.nil_append]⟩
  have hfinite := hunblocked.settled [js "null", sampleClick]
  rw [hall] at hfinite
  exact Set.infinite_univ hfinite

end UrlShortener.ClickConsumers
