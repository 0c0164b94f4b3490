import UrlShortener.ClusterManager
import UrlShortener.EventWindows

/-! Fork-bomb detection: the history of forks is purged from the front, and a fork is admitted
only while few of its entries are left. -/
namespace UrlShortener.Cluster
open Transition SlidingWindow

/-- The manager with the times of all the forks it has made and the last reading of the
clock. -/
structure Forking where
  primary : Primary
  made : List ℤ
  clock : ℤ

/-- The forks of the window that ends now. -/
def Forking.kept (c : Forking) (now : ℤ) : List ℤ :=
  c.made.filter fun t => now - FORK_WINDOW_MS ≤ t

lemma Forking.filter_kept (c : Forking) {now a : ℤ} (h : now - FORK_WINDOW_MS ≤ a) :
    (c.kept now).filter (fun t => a ≤ t) = c.made.filter fun t => a ≤ t :=
  filter_filter_of_le h

/-- One call of `forkWorker`, with its two readings of a clock that does not go back. -/
def forkCall (reading : ℤ × ℤ) (c : Forking) : Option Forking :=
  if c.primary.exitCode.isSome then none
  else if c.clock ≤ reading.1 ∧ reading.1 ≤ reading.2 then
    let p := forkWorker reading.1 reading.2 c.primary
    some ⟨p, if p.forks = c.primary.forks then c.made else c.made ++ [reading.2], reading.2⟩
  else none

def forking : System Forking (ℤ × ℤ) := ⟨forkCall⟩

/-- The history differs from the forks made only in those that every later purge removes. -/
structure Tracked (w : ℕ) (c : Forking) : Prop where
  threshold : c.primary.FORK_THRESHOLD = w + 5
  running : c.primary.isShuttingDown = false
  past : ∀ t ∈ c.made, t ≤ c.clock
  sorted : c.primary.forkHistory.Pairwise (· ≤ ·)
  history : ∀ a, c.clock - FORK_WINDOW_MS ≤ a →
    c.primary.forkHistory.filter (fun t => a ≤ t) = c.made.filter fun t => a ≤ t
  admitted : Admitted (w + 5) FORK_WINDOW_MS c.made

/-- What the purge of a call leaves. -/
lemma Tracked.recent {w : ℕ} {c : Forking} (h : Tracked w c) {now : ℤ} (hnow : c.clock ≤ now) :
    Cluster.recent now c.primary.forkHistory = c.kept now := by
  rw [Cluster.recent, dropWhile_lt_eq_filter h.sorted]
  exact h.history _ (by omega)

/-- A call exits when the window is full and forks otherwise. -/
lemma Tracked.forkWorker_eq {w : ℕ} {c : Forking} (h : Tracked w c) {now : ℤ}
    (hnow : c.clock ≤ now) (later : ℤ) :
    forkWorker now later c.primary =
      if w + 5 ≤ (c.kept now).length then
        { c.primary with forkHistory := c.kept now, exitCode := some 1 }
      else
        { c.primary with
          forkHistory := c.kept now ++ [later]
          alive := c.primary.alive + 1
          forks := c.primary.forks + 1 } := by
  rw [forkWorker, if_neg (by simp [h.running]), h.recent hnow]
  by_cases hfull : w + 5 ≤ (c.kept now).length
  · rw [if_pos (h.threshold.le.trans hfull), if_pos hfull]
  · rw [if_neg (by rwa [h.threshold]), if_neg hfull]

lemma Tracked.next {w : ℕ} {reading : ℤ × ℤ} {c d : Forking} (h : Tracked w c)
    (hnext : forking.next reading c = some d) : Tracked w d := by
  obtain ⟨now, later⟩ := reading
  simp only [forking, forkCall, Option.ite_none_left_eq_some, Option.ite_none_right_eq_some,
    Option.some.injEq] at hnext
  obtain ⟨-, ⟨hnow, hlater⟩, rfl⟩ := hnext
  have hfork := h.forkWorker_eq hnow later
  have hpast : ∀ t ∈ c.made, t ≤ now := fun t ht => (h.past t ht).trans hnow
  have hsorted : (c.kept now).Pairwise (· ≤ ·) := by
    rw [← h.recent hnow]
    exact h.sorted.sublist (List.dropWhile_sublist _)
  dsimp only at hfork
  split_ifs at hfork with hfull
  · rw [hfork, if_pos rfl]
    refine ⟨h.threshold, h.running, fun t ht => (hpast t ht).trans hlater, hsorted, ?_,
      h.admitted⟩
    intro a ha
    exact c.filter_kept (by dsimp only at ha; omega)
  · rw [hfork, if_neg (by simp)]
    refine ⟨h.threshold, h.running, ?_, ?_, ?_, ?_⟩
    · intro t ht
      rcases List.mem_append.mp ht with ht | ht
      · exact (hpast t ht).trans hlater
      · exact (List.mem_singleton.mp ht).le
    · refine List.pairwise_append.mpr ⟨hsorted, List.pairwise_singleton _ _, ?_⟩
      intro t ht u hu
      obtain rfl := List.mem_singleton.mp hu
      exact (hpast t (List.mem_of_mem_filter ht)).trans hlater
    · intro a ha
      simp only [List.filter_append]
      rw [c.filter_kept (by dsimp only at ha; omega)]
    · refine h.admitted.snoc hpast hlater ?_
      rw [List.countP_eq_length_filter]
      exact not_le.mp hfull

lemma tracked_newManager (WORKER_COUNT cores : ℕ) (hasAnalyticsWorker : Bool) (clock : ℤ) :
    Tracked (workerCount WORKER_COUNT cores)
      ⟨newManager WORKER_COUNT cores hasAnalyticsWorker, [], clock⟩ :=
  ⟨rfl, rfl, by simp, .nil, fun _ _ => rfl, .nil⟩

/-- At each call the history is purged to the forks of the last minute; the call exits when
they are as many as the threshold and forks otherwise, so no minute has more forks. -/
theorem fork_window {WORKER_COUNT cores : ℕ} {hasAnalyticsWorker : Bool} {clock : ℤ}
    {c : Forking}
    (h : forking.Reaches ⟨newManager WORKER_COUNT cores hasAnalyticsWorker, [], clock⟩ c) :
    let w := workerCount WORKER_COUNT cores
    (∀ now later, c.primary.exitCode = none → c.clock ≤ now → now ≤ later →
      let q := forkWorker now later c.primary
      recent now c.primary.forkHistory = c.kept now ∧
      (w + 5 ≤ (c.kept now).length → q.exitCode = some 1 ∧ q.forks = c.primary.forks ∧
        q.forkHistory = c.kept now) ∧
      ((c.kept now).length < w + 5 → q.exitCode = none ∧ q.forks = c.primary.forks + 1 ∧
        q.forkHistory = c.kept now ++ [later])) ∧
    ∀ x, c.made.countP (fun t => x ≤ t ∧ t ≤ x + FORK_WINDOW_MS) ≤ w + 5 := by
  intro w
  have hc : Tracked w c := h.invariant (fun _ _ _ ht hn => ht.next hn)
    (tracked_newManager WORKER_COUNT cores hasAnalyticsWorker clock)
  refine ⟨fun now later hlive hnow _ => ?_, hc.admitted.countP_le⟩
  intro q
  have hq : q = _ := hc.forkWorker_eq hnow later
  refine ⟨hc.recent hnow, fun hfull => ?_, fun hroom => ?_⟩
  · rw [hq, if_pos hfull]
    exact ⟨rfl, rfl, rfl⟩
  · rw [hq, if_neg (not_le.mpr hroom)]
    exact ⟨hlive, rfl, rfl⟩

/-- One worker, and five restarts within a minute. -/
def crashLoop : List (ℤ × ℤ) := [(0, 0), (10, 11), (20, 20), (20, 20), (30, 31), (50000, 50000)]

/-- A worker that exits at the end of that minute is not replaced, and one that exits a
millisecond later is. -/
theorem fork_window_crashLoop : ∃ c, forking.Reaches ⟨newManager 1 8 false, [], 0⟩ c ∧
    (forkWorker 60000 60000 c.primary).exitCode = some 1 ∧
    (forkWorker 60001 60001 c.primary).exitCode = none ∧
    c.made.countP (fun t => 0 ≤ t ∧ t ≤ 0 + FORK_WINDOW_MS) ≤ 6 := by
  have hrun : (forking.run crashLoop ⟨newManager 1 8 false, [], 0⟩).map
      (fun c => (c.made, c.clock, c.primary.exitCode)) =
        some ([0, 11, 20, 20, 31, 50000], 50000, none) := by decide
  obtain ⟨c, hc, heq⟩ := Option.map_eq_some_iff.mp hrun
  obtain ⟨hmade, hclock, hlive⟩ : c.made = [0, 11, 20, 20, 31, 50000] ∧ c.clock = 50000 ∧
      c.primary.exitCode = none := by simpa using heq
  have hreach : forking.Reaches ⟨newManager 1 8 false, [], 0⟩ c := ⟨crashLoop, hc⟩
  obtain ⟨hcalls, hcount⟩ := fork_window hreach
  obtain ⟨-, hfull, -⟩ := hcalls 60000 60000 hlive (by omega) le_rfl
  obtain ⟨-, -, hroom⟩ := hcalls 60001 60001 hlive (by omega) le_rfl
  rw [Forking.kept, hmade] at hfull hroom
  exact ⟨c, hreach, (hfull (by decide)).1, (hroom (by decide)).1, hcount 0⟩

end UrlShortener.Cluster
