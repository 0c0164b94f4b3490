import UrlShortener.ClickQueue

/-! The counters `metrics:clicks:*` beside the log of pushed events, when any command of a
call may fail. -/
namespace UrlShortener.ClickCounters
open Js Transition FlushWorker Analytics ClickQueue

/-- A call is begun, or its command is served or fails without effect. -/
inductive Request
  | track (call : TrackCall)
  | served (now : ℤ)
  | failed

def Request.event : Request → Event
  | .track call => .track call
  | .served now => .command ⟨.served, now⟩
  | .failed => .command ⟨.failed, 0⟩

/-- The queue, with the clicks of the calls whose HINCRBY was served, and of those whose
SADD or RPUSH failed. -/
structure Ledger where
  queue : Queue
  counted : List TrackedClick
  missed : List TrackedClick

def countedBy : Request → TrackPc → List TrackedClick
  | .served _, .counting c => [c]
  | _, _ => []

def missedBy : Request → TrackPc → List TrackedClick
  | .failed, .fingerprinting c _ => [c]
  | .failed, .pushing c => [c]
  | _, _ => []

def callerStep (r : Request) (l : Ledger) (pc : TrackPc) : Option (Ledger × TrackPc) :=
  (producerStep r.event l.queue pc).map fun d =>
    (⟨d.1, l.counted ++ countedBy r pc, l.missed ++ missedBy r pc⟩, d.2)

def callers : Threads Ledger TrackPc Request Empty where
  step := callerStep
  env e := nomatch e

def emptyLedger : Ledger := ⟨emptyQueue, [], []⟩

/-- How many of the clicks are clicks of a URL? -/
def clicksOf (urlId : JsString) (clicks : List TrackedClick) : ℕ :=
  clicks.countP fun c => c.url_id = urlId

/-- The click of a call that is counted and not yet pushed. -/
def owed : TrackPc → Multiset TrackedClick
  | .fingerprinting c _ | .pushing c => {c}
  | _ => 0

/-- Every counted click is pushed, missed or in a call under way. -/
structure Tallied (l : Ledger) (total : Multiset TrackedClick) : Prop where
  log : l.queue.store.buffer = l.queue.pushed.map eventPayload
  totals : ∀ urlId, l.queue.store.totals (clicksKey urlId) = clicksOf urlId l.counted
  counted : (l.counted : Multiset TrackedClick) = l.queue.pushed + l.missed + total

lemma clicksKey_injective : Function.Injective clicksKey := fun _ _ h =>
  List.append_cancel_left h

lemma hincrby_totals (s : Metrics) (c : TrackedClick) (urlId : JsString) :
    (s.hincrby (clicksKey c.url_id)).totals (clicksKey urlId) =
      s.totals (clicksKey urlId) + clicksOf urlId [c] := by
  by_cases h : c.url_id = urlId
  · subst h
    simp [Metrics.hincrby, clicksOf]
  · have hne : clicksKey urlId ≠ clicksKey c.url_id := fun hk => h (clicksKey_injective hk).symm
    simp [Metrics.hincrby, clicksOf, hne, h]

/-- What one step of a call does to the two records of clicks. -/
inductive TallyMove (l : Ledger) (pc : TrackPc) : Ledger → TrackPc → Prop
  | skip {store : Metrics} {pc' : TrackPc} (hstores : store.toStores = l.queue.store.toStores)
      (htotals : store.totals = l.queue.store.totals) (howed : owed pc' = owed pc) :
      TallyMove l pc ⟨⟨store, l.queue.pushed⟩, l.counted, l.missed⟩ pc'
  | count {c : TrackedClick} {pc' : TrackPc} (howed : owed pc = 0) (howed' : owed pc' = {c}) :
      TallyMove l pc ⟨⟨l.queue.store.hincrby (clicksKey c.url_id), l.queue.pushed⟩,
        l.counted ++ [c], l.missed⟩ pc'
  | push {c : TrackedClick} (howed : owed pc = {c}) :
      TallyMove l pc ⟨⟨l.queue.store.rpush (eventPayload c), l.queue.pushed ++ [c]⟩,
        l.counted, l.missed⟩ .finished
  | miss {c : TrackedClick} (howed : owed pc = {c}) :
      TallyMove l pc ⟨l.queue, l.counted, l.missed ++ [c]⟩ .finished

lemma tallyMove_of_step {r : Request} {l l' : Ledger} {pc pc' : TrackPc}
    (h : callerStep r l pc = some (l', pc')) : TallyMove l pc l' pc' := by
  obtain ⟨⟨q', pc''⟩, hstep, hd⟩ := Option.map_eq_some_iff.mp h
  obtain ⟨rfl, rfl⟩ := Prod.mk.inj hd
  cases r with
  | track call =>
    simp only [Request.event, producerStep, Option.ite_none_right_eq_some, Option.some.injEq,
      Prod.mk.injEq] at hstep
    obtain ⟨rfl, rfl, rfl⟩ := hstep
    simp only [countedBy, missedBy, List.append_nil]
    exact .skip rfl rfl (by unfold TrackCall.enter; split_ifs <;> rfl)
  | served now =>
    cases pc with
    | checking c =>
      cases hstep
      simp only [countedBy, missedBy, pushedBy, List.append_nil]
      exact .skip rfl rfl (by split_ifs <;> rfl)
    | counting c =>
      cases hstep
      simp only [countedBy, missedBy, pushedBy, List.append_nil]
      exact .count rfl rfl
    | fingerprinting c day =>
      cases hstep
      simp only [countedBy, missedBy, pushedBy, List.append_nil]
      exact .skip rfl rfl rfl
    | pushing c =>
      cases hstep
      simp only [countedBy, missedBy, pushedBy, List.append_nil]
      exact .push rfl
    | finished => cases hstep
  | failed =>
    cases pc with
    | checking c | counting c =>
      cases hstep
      simp only [countedBy, missedBy, pushedBy, List.append_nil]
      exact .skip rfl rfl rfl
    | fingerprinting c day | pushing c =>
      cases hstep
      simp only [countedBy, missedBy, pushedBy, List.append_nil, if_true]
      exact .miss rfl
    | finished => cases hstep

lemma TallyMove.tallied {l l' : Ledger} {pc pc' : TrackPc} {others : Multiset TrackedClick}
    (hmove : TallyMove l pc l' pc') (h : Tallied l (owed pc + others)) :
    Tallied l' (owed pc' + others) := by
  obtain ⟨hlog, htotals, hcounted⟩ := h
  cases hmove with
  | skip hstores htotals' howed =>
    refine ⟨?_, ?_, ?_⟩
    · rw [hstores]
      exact hlog
    · rw [htotals']
      exact htotals
    · rw [howed]
      exact hcounted
  | @count c pc' howed howed' =>
    refine ⟨hlog, fun urlId => ?_, ?_⟩
    · rw [hincrby_totals, htotals, clicksOf, clicksOf, clicksOf, List.countP_append]
    · rw [howed, zero_add] at hcounted
      rw [howed', ← Multiset.coe_add, hcounted, Multiset.coe_singleton]
      abel
  | @push c howed =>
    refine ⟨?_, htotals, ?_⟩
    · rw [List.map_append, ← hlog]
      rfl
    · rw [howed] at hcounted
      rw [hcounted, ← Multiset.coe_add, Multiset.coe_singleton]
      simp only [owed]
      abel
  | @miss c howed =>
    refine ⟨hlog, htotals, ?_⟩
    rw [howed] at hcounted
    rw [hcounted, ← Multiset.coe_add, Multiset.coe_singleton]
    simp only [owed]
    abel

lemma clicksOf_eq_count (urlId : JsString) (clicks : List TrackedClick) :
    clicksOf urlId clicks = (clicks : Multiset TrackedClick).countP fun c => c.url_id = urlId := by
  rw [Multiset.coe_countP, clicksOf]

section Runs
variable {ι : Type*} [DecidableEq ι] [Fintype ι]

/-- When no call is in flight, the counter of a URL shows its pushed clicks and the missed
ones, those of calls that failed after HINCRBY. -/
theorem counters_tally {d : Ledger × (ι → TrackPc)}
    (h : (callers.system ι).Reaches (emptyLedger, fun _ => .finished) d)
    (hrest : ∀ i, d.2 i = .finished) :
    d.1.queue.store.buffer = d.1.queue.pushed.map eventPayload ∧
    (d.1.counted : Multiset TrackedClick) = d.1.queue.pushed + d.1.missed ∧
    ∀ urlId, d.1.queue.store.totals (clicksKey urlId) =
        clicksOf urlId d.1.queue.pushed + clicksOf urlId d.1.missed ∧
      (d.1.queue.store.totals (clicksKey urlId) = clicksOf urlId d.1.queue.pushed ↔
        ∀ c ∈ d.1.missed, c.url_id ≠ urlId) := by
  have htallied : Tallied d.1 (∑ i, owed (d.2 i)) := by
    refine (Threads.total_invariant (fun _ => True) owed Tallied ?_ (fun e => e.elim) h
      (fun _ => trivial) ?_).2
    · intro r l pc l' pc' others _ hl hstep
      exact ⟨trivial, (tallyMove_of_step hstep).tallied hl⟩
    · exact ⟨rfl, fun _ => rfl, by simp [emptyLedger, emptyQueue, owed]⟩
  obtain ⟨hlog, htotals, hcounted⟩ := htallied
  simp only [hrest, owed, Finset.sum_const_zero, add_zero] at hcounted
  refine ⟨hlog, hcounted, fun urlId => ?_⟩
  have hsum : d.1.queue.store.totals (clicksKey urlId) =
      clicksOf urlId d.1.queue.pushed + clicksOf urlId d.1.missed := by
    rw [htotals, clicksOf_eq_count, hcounted, Multiset.countP_add, ← clicksOf_eq_count,
      ← clicksOf_eq_count]
  refine ⟨hsum, ?_⟩
  have hzero : clicksOf urlId d.1.missed = 0 ↔ ∀ c ∈ d.1.missed, c.url_id ≠ urlId := by
    simp [clicksOf, List.countP_eq_zero]
  rw [hsum, ← hzero]
  omega

end Runs

/-- A call whose RPUSH fails. -/
def pushFails : List (Unit × Request ⊕ Empty) :=
  [.inl ((), .track ⟨js "1", js "127.0.0.1", js "agent", [], 0⟩), .inl ((), .served 0),
    .inl ((), .served 0), .inl ((), .served 0), .inl ((), .failed)]

lemma run_pushFails : ∃ d, (callers.system Unit).run pushFails
    (emptyLedger, fun _ => .finished) = some d ∧ (∀ i, d.2 i = .finished) ∧
      d.1.queue.store.totals (clicksKey (js "1")) = 1 ∧ d.1.queue.pushed = [] := by
  have hrun : ((callers.system Unit).run pushFails (emptyLedger, fun _ => .finished)).map
      (fun d => (d.2 (), d.1.queue.store.totals (clicksKey (js "1")), d.1.queue.pushed)) =
        some (.finished, 1, []) := by decide +kernel
  obtain ⟨d, hd, hview⟩ := Option.map_eq_some_iff.mp hrun
  obtain ⟨hpc, hview⟩ := Prod.mk.inj hview
  obtain ⟨htotal, hpushed⟩ := Prod.mk.inj hview
  exact ⟨d, hd, fun _ => hpc, htotal, hpushed⟩

/-- The click is counted, although it was never pushed. -/
theorem click_only_counted : ¬ ∀ d : Ledger × (Unit → TrackPc),
    (callers.system Unit).Reaches (emptyLedger, fun _ => .finished) d →
    (∀ i, d.2 i = .finished) → ∀ urlId,
      d.1.queue.store.totals (clicksKey urlId) = clicksOf urlId d.1.queue.pushed := by
  intro hagree
  obtain ⟨d, hd, hrest, htotal, hpushed⟩ := run_pushFails
  have h := hagree d ⟨pushFails, hd⟩ hrest (js "1")
  rw [htotal, hpushed] at h
  exact absurd h (by decide)

theorem counters_tally_pushFails : ∃ d : Ledger × (Unit → TrackPc),
    (callers.system Unit).run pushFails (emptyLedger, fun _ => .finished) = some d ∧
    d.1.queue.store.totals (clicksKey (js "1")) = 1 ∧ d.1.queue.pushed = [] ∧
    d.1.queue.store.buffer = d.1.queue.pushed.map eventPayload ∧
    (d.1.counted : Multiset TrackedClick) = d.1.queue.pushed + d.1.missed ∧
    ∀ urlId, d.1.queue.store.totals (clicksKey urlId) =
        clicksOf urlId d.1.queue.pushed + clicksOf urlId d.1.missed ∧
      (d.1.queue.store.totals (clicksKey urlId) = clicksOf urlId d.1.queue.pushed ↔
        ∀ c ∈ d.1.missed, c.url_id ≠ urlId) := by
  obtain ⟨d, hd, hrest, htotal, hpushed⟩ := run_pushFails
  exact ⟨d, hd, htotal, hpushed, counters_tally ⟨pushFails, hd⟩ hrest⟩

end UrlShortener.ClickCounters
