import UrlShortener.TransitionRun

/-! `ClusterManager`: the primary process that keeps its workers running, and what it does
on worker exits and signals. -/
namespace UrlShortener.Cluster
open Transition

def FORK_WINDOW_MS : ℤ := 60000

/-- What `handleSignal` waits for after its broadcast. -/
inductive Shutdown
  | stoppingAnalytics
  | waitingForTimeout
  deriving DecidableEq

/-- The manager in its process: the fields of the class, the number of workers alive, how
many `cluster.fork` calls there were, and for each SHUTDOWN broadcast how many workers it
was sent to. -/
structure Primary where
  workerCount : ℕ
  FORK_THRESHOLD : ℕ
  hasAnalyticsWorker : Bool
  forkHistory : List ℤ
  isShuttingDown : Bool
  shutdown : Option Shutdown
  alive : ℕ
  forks : ℕ
  broadcasts : List ℕ
  exitCode : Option ℕ

/-- `config.WORKER_COUNT || cores`, the latter capped; an absent count is 0 here, as both
are falsy. -/
def workerCount (WORKER_COUNT cores : ℕ) : ℕ :=
  if WORKER_COUNT = 0 then min cores 4 else WORKER_COUNT

def newManager (WORKER_COUNT cores : ℕ) (hasAnalyticsWorker : Bool) : Primary where
  workerCount := workerCount WORKER_COUNT cores
  FORK_THRESHOLD := workerCount WORKER_COUNT cores + 5
  hasAnalyticsWorker := hasAnalyticsWorker
  forkHistory := []
  isShuttingDown := false
  shutdown := none
  alive := 0
  forks := 0
  broadcasts := []
  exitCode := none

/-- The `while` loop of `isForkBombing`. -/
def recent (now : ℤ) (forkHistory : List ℤ) : List ℤ :=
  forkHistory.dropWhile fun t => t < now - FORK_WINDOW_MS

/-- `forkWorker`, with its two readings of the clock. -/
def forkWorker (now later : ℤ) (p : Primary) : Primary :=
  if p.isShuttingDown then p
  else if p.FORK_THRESHOLD ≤ (recent now p.forkHistory).length then
    { p with forkHistory := recent now p.forkHistory, exitCode := some 1 }
  else
    { p with
      forkHistory := recent now p.forkHistory ++ [later]
      alive := p.alive + 1
      forks := p.forks + 1 }

/-- The first `n` rounds of the loop of `start`; `process.exit` ends it. -/
def spawn (clock : ℕ → ℤ × ℤ) : ℕ → Primary → Primary
  | 0, p => p
  | n + 1, p =>
    let q := spawn clock n p
    if q.exitCode.isSome then q else forkWorker (clock n).1 (clock n).2 q

def start (isPrimary : Bool) (clock : ℕ → ℤ × ℤ) (p : Primary) : Primary :=
  if isPrimary then spawn clock p.workerCount p else p

def handleWorkerExit (now later : ℤ) (p : Primary) : Primary :=
  if p.isShuttingDown then p else forkWorker now later p

/-- `handleSignal` up to its first `await` or its timer. -/
def handleSignal (p : Primary) : Primary :=
  if p.isShuttingDown then p
  else
    { p with
      isShuttingDown := true
      broadcasts := p.broadcasts ++ [p.alive]
      shutdown := some (if p.hasAnalyticsWorker then .stoppingAnalytics else .waitingForTimeout) }

inductive Event
  | workerExit (now later : ℤ)
  | signal
  | analyticsStopped
  | timeout
  deriving DecidableEq

/-- One event at a primary that has started; none arrives once it has exited. -/
def primaryStep (event : Event) (p : Primary) : Option Primary :=
  if p.exitCode.isSome then none
  else
    match event with
    | .workerExit now later =>
      if 0 < p.alive then some (handleWorkerExit now later { p with alive := p.alive - 1 })
      else none
    | .signal => some (handleSignal p)
    | .analyticsStopped =>
      if p.shutdown = some .stoppingAnalytics then
        some { p with shutdown := some .waitingForTimeout }
      else none
    | .timeout =>
      if p.shutdown = some .waitingForTimeout then some { p with exitCode := some 0 } else none

def primary : System Primary Event := ⟨primaryStep⟩

lemma recent_length_le (now : ℤ) (forkHistory : List ℤ) :
    (recent now forkHistory).length ≤ forkHistory.length :=
  (List.dropWhile_suffix _).length_le

/-! The loop of `start`. -/

/-- Every round so far has forked a worker. -/
structure Spawned (w n : ℕ) (p : Primary) : Prop where
  threshold : p.FORK_THRESHOLD = w + 5
  history : p.forkHistory.length ≤ n
  running : p.isShuttingDown = false
  alive : p.alive = n
  forks : p.forks = n
  shutdown : p.shutdown = none
  broadcasts : p.broadcasts = []
  exitCode : p.exitCode = none

lemma Spawned.fork {w n : ℕ} {p : Primary} (h : Spawned w n p) (hn : n < w) (now later : ℤ) :
    Spawned w (n + 1) (forkWorker now later p) := by
  have hrecent := recent_length_le now p.forkHistory
  have hhistory := h.history
  have hbelow : ¬ p.FORK_THRESHOLD ≤ (recent now p.forkHistory).length := by
    rw [h.threshold]
    omega
  rw [forkWorker, if_neg (by simp [h.running]), if_neg hbelow]
  refine ⟨h.threshold, ?_, h.running, ?_, ?_, h.shutdown, h.broadcasts, h.exitCode⟩
  · rw [List.length_append, List.length_singleton]
    omega
  · rw [h.alive]
  · rw [h.forks]

lemma Spawned.spawn {w : ℕ} {p : Primary} (h : Spawned w 0 p) (clock : ℕ → ℤ × ℤ) {n : ℕ}
    (hn : n ≤ w) : Spawned w n (Cluster.spawn clock n p) := by
  induction n with
  | zero => exact h
  | succ n ih =>
    have hq := ih (by omega)
    rw [Cluster.spawn, if_neg (by simp [hq.exitCode])]
    exact hq.fork (by omega) _ _

lemma newManager_spawned (WORKER_COUNT cores : ℕ) (hasAnalyticsWorker : Bool) :
    Spawned (workerCount WORKER_COUNT cores) 0
      (newManager WORKER_COUNT cores hasAnalyticsWorker) :=
  ⟨rfl, le_rfl, rfl, rfl, rfl, rfl, rfl, rfl⟩

lemma start_spawned (WORKER_COUNT cores : ℕ) (hasAnalyticsWorker : Bool) (clock : ℕ → ℤ × ℤ) :
    Spawned (workerCount WORKER_COUNT cores) (workerCount WORKER_COUNT cores)
      (start true clock (newManager WORKER_COUNT cores hasAnalyticsWorker)) := by
  rw [start, if_pos rfl]
  exact (newManager_spawned _ _ _).spawn clock le_rfl

/-! Before the first signal and after it. -/

/-- No signal yet: a primary that has not exited has all its workers. -/
structure Supervising (w : ℕ) (p : Primary) : Prop where
  running : p.isShuttingDown = false
  shutdown : p.shutdown = none
  broadcasts : p.broadcasts = []
  alive : p.exitCode = none → p.alive = w

/-- A signal has come: no further fork, no further broadcast. -/
structure ShuttingDown (forks : ℕ) (broadcasts : List ℕ) (p : Primary) : Prop where
  stopped : p.isShuttingDown = true
  forks : p.forks = forks
  broadcasts : p.broadcasts = broadcasts

lemma next_live {event : Event} {p q : Primary} (h : primary.next event p = some q) :
    p.exitCode = none := by
  by_contra hexited
  have hsome : p.exitCode.isSome := Option.isSome_iff_ne_none.mpr hexited
  simp [primary, primaryStep, hsome] at h

lemma Supervising.next {w : ℕ} {event : Event} {p q : Primary} (hp : Supervising w p)
    (hevent : event ≠ .signal) (h : primary.next event p = some q) : Supervising w q := by
  have hlive := next_live h
  simp only [primary, primaryStep, hlive, Option.isSome_none, Bool.false_eq_true, if_false] at h
  cases event with
  | signal => exact absurd rfl hevent
  | analyticsStopped => simp [hp.shutdown] at h
  | timeout => simp [hp.shutdown] at h
  | workerExit now later =>
    simp only [Option.ite_none_right_eq_some, Option.some.injEq] at h
    obtain ⟨hpos, rfl⟩ := h
    have halive := hp.alive hlive
    simp only [handleWorkerExit, forkWorker, hp.running, Bool.false_eq_true, if_false]
    split_ifs
    -- fork-bomb detection ends the process one worker short
    · exact ⟨rfl, hp.shutdown, hp.broadcasts, nofun⟩
    · refine ⟨rfl, hp.shutdown, hp.broadcasts, fun _ => ?_⟩
      change p.alive - 1 + 1 = w
      omega

lemma Supervising.signal {w : ℕ} {p q : Primary} (hp : Supervising w p)
    (h : primary.next .signal p = some q) : ShuttingDown p.forks [w] q := by
  have hlive := next_live h
  simp only [primary, primaryStep, hlive, Option.isSome_none, Bool.false_eq_true, if_false,
    Option.some.injEq, handleSignal, hp.running] at h
  subst h
  exact ⟨rfl, rfl, by rw [hp.broadcasts, hp.alive hlive, List.nil_append]⟩

lemma ShuttingDown.next {forks : ℕ} {broadcasts : List ℕ} {event : Event} {p q : Primary}
    (hp : ShuttingDown forks broadcasts p) (h : primary.next event p = some q) :
    ShuttingDown forks broadcasts q := by
  have hlive := next_live h
  simp only [primary, primaryStep, hlive, Option.isSome_none, Bool.false_eq_true, if_false] at h
  cases event with
  | signal =>
    cases h
    rw [handleSignal, if_pos hp.stopped]
    exact hp
  | workerExit now later =>
    simp only [Option.ite_none_right_eq_some, Option.some.injEq] at h
    obtain ⟨-, rfl⟩ := h
    rw [handleWorkerExit, if_pos hp.stopped]
    exact ⟨hp.stopped, hp.forks, hp.broadcasts⟩
  | analyticsStopped | timeout =>
    simp only [Option.ite_none_right_eq_some, Option.some.injEq] at h
    obtain ⟨-, rfl⟩ := h
    exact ⟨hp.stopped, hp.forks, hp.broadcasts⟩

lemma Supervising.run {w : ℕ} {events : List Event} {p q : Primary} (hp : Supervising w p)
    (hevents : .signal ∉ events) (h : primary.run events p = some q) : Supervising w q := by
  refine System.run_invariant_on (fun event hmem s t hs hn => ?_) h hp
  have hne : event ≠ .signal := by
    rintro rfl
    exact hevents hmem
  exact hs.next hne hn

/-- A primary that runs takes every signal, and the exit of a worker while there is one. -/
lemma primary_accepts {p : Primary} (hlive : p.exitCode = none) :
    (∃ q, primary.next .signal p = some q) ∧
      ∀ now later, 0 < p.alive → ∃ q, primary.next (.workerExit now later) p = some q := by
  refine ⟨⟨handleSignal p, ?_⟩, fun now later halive =>
    ⟨handleWorkerExit now later { p with alive := p.alive - 1 }, ?_⟩⟩
  · simp [primary, primaryStep, hlive]
  · simp [primary, primaryStep, hlive, halive]

/-- `start` forks its workers; until the first signal each one that exits is replaced; from
then on none is forked, and the one broadcast has gone to all of them. A primary that has not
exited takes whatever comes. -/
theorem supervision (WORKER_COUNT cores : ℕ) (hasAnalyticsWorker : Bool) (clock : ℕ → ℤ × ℤ) :
    (1 ≤ WORKER_COUNT → workerCount WORKER_COUNT cores = WORKER_COUNT) ∧
    let w := workerCount WORKER_COUNT cores
    let p := start true clock (newManager WORKER_COUNT cores hasAnalyticsWorker)
    (p.forks = w ∧ p.alive = w ∧ p.exitCode = none) ∧
    (∀ events q, .signal ∉ events → primary.run events p = some q → q.exitCode = none →
      q.alive = w) ∧
    (∀ before after u q, .signal ∉ before → primary.run before p = some u →
      primary.run (.signal :: after) u = some q →
      u.broadcasts = [] ∧ q.broadcasts = [w] ∧ q.forks = u.forks) ∧
    ∀ events q, primary.run events p = some q → q.exitCode = none →
      (∃ r, primary.next .signal q = some r) ∧
        ∀ now later, 0 < q.alive → ∃ r, primary.next (.workerExit now later) q = some r := by
  refine ⟨fun hpos => if_neg (by omega), ?_⟩
  intro w p
  have hp : Spawned w w p := start_spawned WORKER_COUNT cores hasAnalyticsWorker clock
  have hsup : Supervising w p :=
    ⟨hp.running, hp.shutdown, hp.broadcasts, fun _ => hp.alive⟩
  refine ⟨⟨hp.forks, hp.alive, hp.exitCode⟩, fun events q hevents hq => ?_, ?_,
    fun events q _ hlive => primary_accepts hlive⟩
  · exact (hsup.run hevents hq).alive
  · intro before after u q hbefore hu hq
    have hbeforeSignal := hsup.run hbefore hu
    rw [System.run] at hq
    obtain ⟨v, hv, hq⟩ := Option.bind_eq_some_iff.mp hq
    have hafter : ShuttingDown u.forks [w] q :=
      System.run_invariant (fun _ _ _ hs hn => ShuttingDown.next hs hn) hq
        (hbeforeSignal.signal hv)
    exact ⟨hbeforeSignal.broadcasts, hafter.broadcasts, hafter.forks⟩

/-- A worker exits and is replaced; then a signal comes, another worker exits, and a second signal
comes. -/
theorem supervision_oneReplaced : ∃ u q,
    primary.run [.workerExit 0 0] (start true (fun _ => (0, 0)) (newManager 2 1 true)) = some u ∧
      primary.run [.signal, .workerExit 1 1, .signal] u = some q ∧
      u.forks = 3 ∧ u.alive = 2 ∧ u.broadcasts = [] ∧
      q.forks = 3 ∧ q.alive = 1 ∧ q.broadcasts = [2] ∧
      ∃ r, primary.next (.workerExit 2 2) q = some r := by
  have hrun : (primary.run [.workerExit 0 0]
      (start true (fun _ => (0, 0)) (newManager 2 1 true))).bind (fun u =>
        (primary.run [.signal, .workerExit 1 1, .signal] u).map fun q =>
          (u.forks, u.exitCode, q.alive, q.exitCode)) = some (3, none, 1, none) := rfl
  obtain ⟨u, hu, hmap⟩ := Option.bind_eq_some_iff.mp hrun
  obtain ⟨q, hq, hfields⟩ := Option.map_eq_some_iff.mp hmap
  simp only [Prod.mk.injEq] at hfields
  obtain ⟨hforks, hlive, halive, hlive'⟩ := hfields
  obtain ⟨-, -, hkeeps, hsignal, haccepts⟩ := supervision 2 1 true fun _ => (0, 0)
  obtain ⟨hnone, hone, hsame⟩ :=
    hsignal [.workerExit 0 0] [.workerExit 1 1, .signal] u q (by decide) hu hq
  have hq' : primary.run ([.workerExit 0 0] ++ [.signal, .workerExit 1 1, .signal])
      (start true (fun _ => (0, 0)) (newManager 2 1 true)) = some q := by
    rw [System.run_append, hu]
    exact hq
  exact ⟨u, q, hu, hq, hforks, hkeeps [.workerExit 0 0] u (by decide) hu hlive, hnone,
    hsame.trans hforks, halive, hone,
    (haccepts _ q hq' hlive').2 2 2 (halive ▸ Nat.one_pos)⟩

end UrlShortener.Cluster
