import UrlShortener.GracefulShutdown

/-! `start` and `stop` of the flush worker: what a flush may still hold when `stop`
resolves. -/
namespace UrlShortener.FlushWorker
open Js Transition
open Shutdown (held pops exists_popping)

/-- `stop`: it awaits the flush that it has begun, or its `flush` has found another one
running and returned at once. -/
inductive StopPc
  | uncalled
  | awaitingFlush
  | flushSkipped
  | resolved
  deriving DecidableEq

/-- The worker with the stores that it shares with other processes. Its flush is running
unless `flushPc` is `idle`. -/
structure Worker where
  stores : Stores
  flushPc : FlushPc
  intervalHandle : Bool
  stopPc : StopPc

inductive WorkerAction
  | tick
  | reply (r : FlushReply)
  | others (stores : Stores)
  | stop
  | resolve

/-- `flush` up to its first `await`; it returns at once while another one is running. -/
def beginFlush (batchSize : ℕ) (pc : FlushPc) : FlushPc :=
  if pc = .idle then .popping batchSize [] else pc

/-- `stop` up to its `await`. -/
def callStop (batchSize : ℕ) (w : Worker) : Worker :=
  { w with
    intervalHandle := false
    flushPc := beginFlush batchSize w.flushPc
    stopPc := if w.flushPc = .idle then .awaitingFlush else .flushSkipped }

/-- One step of a worker that was started; other processes may change the stores at any time. -/
def workerStep (batchSize : ℕ) (action : WorkerAction) (w : Worker) : Option Worker :=
  match action with
  | .tick =>
    if w.intervalHandle then some { w with flushPc := beginFlush batchSize w.flushPc } else none
  | .reply r =>
    (flushStep r w.stores w.flushPc).map fun d => { w with stores := d.1, flushPc := d.2 }
  | .others stores => some { w with stores := stores }
  | .stop => if w.stopPc = .uncalled then some (callStop batchSize w) else none
  | .resolve =>
    if w.stopPc = .awaitingFlush ∧ w.flushPc = .idle ∨ w.stopPc = .flushSkipped then
      some { w with stopPc := .resolved }
    else none

def worker (batchSize : ℕ) : System Worker WorkerAction := ⟨workerStep batchSize⟩

/-- After `start`. -/
def started (stores : Stores) : Worker := ⟨stores, .idle, true, .uncalled⟩

/-- No event is held and none will be popped. -/
def EmptyHanded (pc : FlushPc) : Prop := held pc = [] ∧ pops pc = 0

lemma emptyHanded_idle : EmptyHanded .idle := ⟨rfl, rfl⟩

/-- A flush that holds nothing and pops nothing goes on so. -/
lemma EmptyHanded.step {r : FlushReply} {s s' : Stores} {pc pc' : FlushPc} (h : EmptyHanded pc)
    (hstep : flushStep r s pc = some (s', pc')) : EmptyHanded pc' := by
  obtain ⟨hheld, hle, -⟩ := Shutdown.flushStep_quiet h.1 (.inl h.2) hstep
  refine ⟨hheld, ?_⟩
  have hpops := h.2
  omega

section Stopped
variable {batchSize : ℕ}

/-- What `resolve` has waited for. -/
lemma eq_of_resolve {w u : Worker} (h : (worker batchSize).next .resolve w = some u) :
    (w.stopPc = .awaitingFlush ∧ w.flushPc = .idle ∨ w.stopPc = .flushSkipped) ∧
      u = { w with stopPc := .resolved } := by
  obtain ⟨hdone, hu⟩ := Option.ite_none_right_eq_some.mp h
  exact ⟨hdone, (Option.some.inj hu).symm⟩

/-- `stop` is called once. -/
lemma eq_of_stop {w u : Worker} (h : (worker batchSize).next .stop w = some u) :
    w.stopPc = .uncalled ∧ u = callStop batchSize w := by
  obtain ⟨huncalled, hu⟩ := Option.ite_none_right_eq_some.mp h
  exact ⟨huncalled, (Option.some.inj hu).symm⟩

/-- `stop` has been called; if it has skipped its flush, the running one is empty-handed. -/
structure Stopped (w : Worker) : Prop where
  cleared : w.intervalHandle = false
  called : w.stopPc ≠ .uncalled
  skipped : w.stopPc = .flushSkipped → EmptyHanded w.flushPc

lemma Stopped.next {action : WorkerAction} {w u : Worker} (h : Stopped w)
    (hnext : (worker batchSize).next action w = some u) : Stopped u := by
  cases action with
  | tick => simp [worker, workerStep, h.cleared] at hnext
  | reply r =>
    obtain ⟨⟨s', pc'⟩, hstep, rfl⟩ := Option.map_eq_some_iff.mp hnext
    exact ⟨h.cleared, h.called, fun hskip => (h.skipped hskip).step hstep⟩
  | others stores =>
    cases hnext
    exact ⟨h.cleared, h.called, h.skipped⟩
  | stop => exact absurd (eq_of_stop hnext).1 h.called
  | resolve =>
    obtain ⟨-, rfl⟩ := eq_of_resolve hnext
    exact ⟨h.cleared, StopPc.noConfusion, StopPc.noConfusion⟩

lemma Stopped.held_nil {w u : Worker} (h : Stopped w)
    (hnext : (worker batchSize).next .resolve w = some u) : held w.flushPc = [] := by
  obtain ⟨hdone, -⟩ := eq_of_resolve hnext
  rcases hdone with ⟨-, hidle⟩ | hskip
  · rw [hidle]
    rfl
  · exact (h.skipped hskip).1

/-- In no continuation does `stop`, called now, resolve while a popped event is held. -/
def StopsClean (batchSize : ℕ) (w : Worker) : Prop :=
  ∀ as t u, (worker batchSize).run (.stop :: as) w = some t →
    (worker batchSize).next .resolve t = some u → held t.flushPc = []

lemma callStop_stopped {w : Worker} (h : EmptyHanded w.flushPc) :
    Stopped (callStop batchSize w) := by
  by_cases hidle : w.flushPc = .idle
  · exact ⟨rfl, by simp [callStop, hidle], by simp [callStop, hidle]⟩
  · refine ⟨rfl, by simp [callStop, hidle], fun _ => ?_⟩
    simpa [callStop, beginFlush, hidle] using h

lemma stopsClean_of_emptyHanded {w : Worker} (h : EmptyHanded w.flushPc) :
    StopsClean batchSize w := by
  intro as t u hrun hnext
  rw [System.run] at hrun
  obtain ⟨v, hstop, hrun⟩ := Option.bind_eq_some_iff.mp hrun
  obtain ⟨-, rfl⟩ := eq_of_stop hstop
  have ht : Stopped t :=
    System.run_invariant (fun _ _ _ hs hn => hs.next hn) hrun (callStop_stopped h)
  exact ht.held_nil hnext

lemma run_stop {w : Worker} (huncalled : w.stopPc = .uncalled) (as : List WorkerAction) :
    (worker batchSize).run (.stop :: as) w = (worker batchSize).run as (callStop batchSize w) :=
  System.run_cons_of_next (if_pos huncalled)

/-- A `stop` that finds a flush running resolves at once. -/
lemma next_resolve {w : Worker} (hskip : w.stopPc = .flushSkipped) :
    (worker batchSize).next .resolve w = some { w with stopPc := .resolved } :=
  if_pos (.inr hskip)

lemma callStop_of_running {w : Worker} (hrunning : w.flushPc ≠ .idle) :
    callStop batchSize w = { w with intervalHandle := false, stopPc := .flushSkipped } := by
  simp [callStop, beginFlush, hrunning]

lemma not_stopsClean_of_held {w : Worker} (huncalled : w.stopPc = .uncalled)
    (h : held w.flushPc ≠ []) : ¬ StopsClean batchSize w := by
  have hrunning : w.flushPc ≠ .idle := by
    intro hidle
    exact h (by rw [hidle]; rfl)
  intro hclean
  have hrun : (worker batchSize).run [.stop] w =
      some { w with intervalHandle := false, stopPc := .flushSkipped } := by
    rw [run_stop huncalled, callStop_of_running hrunning]
    rfl
  have hheld := hclean [] _ _ hrun (next_resolve rfl)
  exact h hheld

/-- An event that another process pushes is popped before `stop` resolves. -/
lemma not_stopsClean_of_pops {w : Worker} (huncalled : w.stopPc = .uncalled)
    (h : pops w.flushPc ≠ 0) : ¬ StopsClean batchSize w := by
  obtain ⟨n, events, hpc⟩ := exists_popping h
  have hrunning : w.flushPc ≠ .idle := by simp [hpc]
  intro hclean
  have hrun := @run_stop batchSize w huncalled [.others ⟨[[]], []⟩, .reply .done]
  rw [callStop_of_running hrunning] at hrun
  have hstep : (worker batchSize).run [.others ⟨[[]], []⟩, .reply .done]
      { w with intervalHandle := false, stopPc := .flushSkipped } =
        some ⟨⟨[], []⟩, .popping n (events ++ [[]]), false, .flushSkipped⟩ := by
    simp [System.run, worker, workerStep, hpc, flushStep]
  have hheld : events ++ [[]] = [] := hclean _ _ _ (hrun.trans hstep) (next_resolve rfl)
  exact List.append_ne_nil_of_right_ne_nil _ (List.cons_ne_nil _ _) hheld

/-- `stop` leaves nothing in flight exactly when it finds no flush running, or one that
holds no event and has none left to pop. -/
theorem stop_clean_iff {stores : Stores} {before : List WorkerAction} {w : Worker}
    (hrun : (worker batchSize).run before (started stores) = some w)
    (huncalled : w.stopPc = .uncalled) :
    (∀ as t u, (worker batchSize).run (before ++ .stop :: as) (started stores) = some t →
      (worker batchSize).next .resolve t = some u → held t.flushPc = []) ↔
      w.flushPc = .idle ∨ held w.flushPc = [] ∧ pops w.flushPc = 0 := by
  have hafter : ∀ as, (worker batchSize).run (before ++ .stop :: as) (started stores) =
      (worker batchSize).run (.stop :: as) w := by
    intro as
    rw [System.run_append, hrun]
    rfl
  simp only [hafter]
  constructor
  · intro hclean
    have hheld : held w.flushPc = [] := by
      by_contra h
      exact not_stopsClean_of_held huncalled h hclean
    refine .inr ⟨hheld, ?_⟩
    by_contra h
    exact not_stopsClean_of_pops huncalled h hclean
  · intro h
    apply stopsClean_of_emptyHanded
    rcases h with hidle | h
    · rw [hidle]
      exact emptyHanded_idle
    · exact h

end Stopped

/-- No tick has begun a flush: `stop` begins one, and resolves when the click is inserted. -/
def stopWhenIdle : List WorkerAction := [.stop] ++ List.replicate 6 (.reply .done)

theorem stop_clean_iff_idle : ∃ t u, (worker 1).run stopWhenIdle (started ⟨[sampleClick], []⟩) =
    some t ∧ (worker 1).next .resolve t = some u ∧ t.stores.clicks.length = 1 ∧
      held t.flushPc = [] := by
  have hrun : ((worker 1).run stopWhenIdle (started ⟨[sampleClick], []⟩)).map
      (fun t => (t.stores.clicks.length, t.stopPc, t.flushPc)) =
        some (1, .awaitingFlush, .idle) := by decide +kernel
  obtain ⟨t, ht, heq⟩ := Option.map_eq_some_iff.mp hrun
  obtain ⟨hclicks, hstop, hpc⟩ : t.stores.clicks.length = 1 ∧ t.stopPc = .awaitingFlush ∧
      t.flushPc = .idle := by simpa using heq
  have hresolve : (worker 1).next .resolve t = some { t with stopPc := .resolved } :=
    if_pos (.inl ⟨hstop, hpc⟩)
  have hclean := (@stop_clean_iff 1 ⟨[sampleClick], []⟩ [] _ rfl rfl).mpr (.inl rfl)
  exact ⟨t, _, ht, hresolve, hclicks, hclean _ t _ ht hresolve⟩

/-- A tick's flush has popped a click: `stop` resolves while it is held. -/
theorem stop_not_clean : ¬ ∀ as t u,
    (worker 1).run (.tick :: .reply .done :: .stop :: as) (started ⟨[sampleClick], []⟩) =
      some t → (worker 1).next .resolve t = some u → held t.flushPc = [] := by
  intro hclean
  have hheld : [sampleClick] = [] := hclean [] _ _ rfl (next_resolve rfl)
  exact List.cons_ne_nil _ _ hheld

end UrlShortener.FlushWorker
