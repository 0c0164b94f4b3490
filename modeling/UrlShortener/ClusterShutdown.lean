import UrlShortener.ClusterManager
import UrlShortener.DrainTimeout

/-! The shutdown of a cluster: the primary with its workers, the SHUTDOWN messages between them and
the exits that the primary learns of, in any order. -/
namespace UrlShortener.ClusterShutdown
open Transition Cluster ShutdownManager

/-- A worker process: the messages that it has not handled, the signals that it got from
elsewhere, and its manager with the times at which its runs began. `died` is an end that is not
the manager's doing. -/
structure Process where
  listening : Bool
  inbox : ℕ
  interrupts : ℕ
  manager : Manager
  begun : List ℕ
  died : Bool
  reported : Bool

def newborn : Process := ⟨false, 0, 0, serving 0, [], false, false⟩

/-- Worker `i` is the one that the `i`th `cluster.fork` has started. -/
structure State where
  now : ℕ
  primary : Primary
  workers : ℕ → Process

def Process.timed (now : ℕ) (w : Process) : Timed := ⟨w.manager, now, w.begun⟩

def Process.become (w : Process) (m : Timed) : Process :=
  { w with manager := m.manager, begun := m.begun }

inductive WorkerAction
  | listen
  | deliver
  | interrupt
  | manage (e : ShutdownManager.Event)
  | drainTimedOut (run : ℕ)
  | die (code : ℕ)
  | orphaned

/-- One step of a worker. Messages wait until `startServer` has registered its listeners; a
signal before that ends the process. Node's cluster module ends a worker, with 0, that finds the
channel to its primary closed. -/
def workerStep (SHUTDOWN_TIMEOUT_MS now : ℕ) (primary : Primary) (action : WorkerAction)
    (w : Process) : Option Process :=
  if w.manager.exited.isSome then none
  else
    match action with
    | .listen => some { w with listening := true }
    | .deliver =>
      if w.listening ∧ 0 < w.inbox then
        ((timed SHUTDOWN_TIMEOUT_MS).next (.step .notify) (w.timed now)).map fun m =>
          { w.become m with inbox := w.inbox - 1 }
      else none
    | .interrupt =>
      if w.listening then
        ((timed SHUTDOWN_TIMEOUT_MS).next (.step .notify) (w.timed now)).map fun m =>
          { w.become m with interrupts := w.interrupts + 1 }
      else some { w with died := true, manager := { w.manager with exited := some 143 } }
    | .manage e =>
      if e = .notify then none
      else ((timed SHUTDOWN_TIMEOUT_MS).next (.step e) (w.timed now)).map w.become
    | .drainTimedOut run =>
      ((timed SHUTDOWN_TIMEOUT_MS).next (.timeout run) (w.timed now)).map w.become
    | .die code => some { w with died := true, manager := { w.manager with exited := some code } }
    | .orphaned =>
      if primary.exitCode.isSome then
        some { w with died := true, manager := { w.manager with exited := some 0 } }
      else none

/-- `worker.send` for each of `cluster.workers`. -/
def broadcast (s : State) : ℕ → Process := fun i =>
  let w := s.workers i
  if i < s.primary.forks ∧ w.reported = false then { w with inbox := w.inbox + 1 } else w

inductive Action
  | signal
  | analyticsStopped
  | timeout
  | report (i : ℕ) (now later : ℤ)
  | worker (i : ℕ) (action : WorkerAction)
  | pass (ms : ℕ)

/-- The clock does not pass the timer of a worker that has yet to fire. -/
def clusterStep (SHUTDOWN_TIMEOUT_MS : ℕ) (action : Action) (s : State) : Option State :=
  match action with
  | .signal =>
    (primary.next .signal s.primary).map fun p =>
      ⟨s.now, p, if s.primary.isShuttingDown then s.workers else broadcast s⟩
  | .analyticsStopped =>
    (primary.next .analyticsStopped s.primary).map fun p => { s with primary := p }
  | .timeout => (primary.next .timeout s.primary).map fun p => { s with primary := p }
  | .report i now later =>
    let w := s.workers i
    if i < s.primary.forks ∧ w.manager.exited.isSome ∧ w.reported = false then
      (primary.next (.workerExit now later) s.primary).map fun p =>
        ⟨s.now, p, Function.update s.workers i { w with reported := true }⟩
    else none
  | .worker i action =>
    if i < s.primary.forks then
      (workerStep SHUTDOWN_TIMEOUT_MS s.now s.primary action (s.workers i)).map fun w =>
        { s with workers := Function.update s.workers i w }
    else none
  | .pass ms =>
    if ∀ i < s.primary.forks,
        ((timed SHUTDOWN_TIMEOUT_MS).next (.pass ms) ((s.workers i).timed s.now)).isSome then
      some { s with now := s.now + ms }
    else none

def cluster (SHUTDOWN_TIMEOUT_MS : ℕ) : System State Action := ⟨clusterStep SHUTDOWN_TIMEOUT_MS⟩

/-- The notifications that a worker got or will get. -/
def Process.notices (w : Process) : ℕ := w.inbox + w.manager.runs.length

/-- A worker that was told `n` times to shut down. Its manager is in order while the process runs
and where it has ended the process itself. -/
structure Process.Told (T n now : ℕ) (w : Process) : Prop where
  notices : w.notices = n + w.interrupts
  inbox : w.inbox ≤ n
  begun : w.begun.length = w.manager.runs.length
  managed : w.died = false → TimedReached T (w.timed now)
  died : w.manager.exited = none → w.died = false

variable {T : ℕ}

/-- How many runs an event of the manager begins. -/
def notified : TimedEvent → ℕ
  | .step .notify => 1
  | _ => 0

/-- What happens at one instant. -/
lemma timed_moved {event : TimedEvent} {m u : Timed} (h : (timed T).next event m = some u)
    (hclock : ∀ ms, event ≠ .pass ms) :
    u.now = m.now ∧ u.manager.runs.length = m.manager.runs.length + notified event ∧
      u.begun.length = m.begun.length + notified event := by
  cases event with
  | step e =>
    obtain ⟨-, p, hp, rfl⟩ := live_of_step h
    have hlength := next_length hp
    cases e with
    | notify => exact ⟨rfl, hlength, by simp [notified]⟩
    | connect | disconnect | settle => exact ⟨rfl, hlength, by simp [notified]⟩
  | timeout run =>
    obtain ⟨-, hu⟩ := Option.ite_none_right_eq_some.mp h
    obtain rfl := Option.some.inj hu
    exact ⟨rfl, rfl, rfl⟩
  | pass ms => exact absurd rfl (hclock ms)

/-- The manager of a running worker goes on, and the worker has handled a message or got a signal
for each run that has begun. -/
lemma Process.Told.moved {n now : ℕ} {event : TimedEvent} {w : Process} {m : Timed}
    (h : w.Told T n now) (hdied : w.died = false)
    (hnext : (ShutdownManager.timed T).next event (w.timed now) = some m)
    (hclock : ∀ ms, event ≠ .pass ms) {inbox interrupts : ℕ} (hinbox : inbox ≤ n)
    (hnotices : inbox + notified event + w.interrupts = w.inbox + interrupts) :
    Process.Told T n now { w.become m with inbox := inbox, interrupts := interrupts } := by
  obtain ⟨hnow, hruns, hbegun⟩ := timed_moved hnext hclock
  have hold : w.inbox + w.manager.runs.length = n + w.interrupts := h.notices
  refine ⟨?_, hinbox, ?_, fun _ => ?_, fun _ => hdied⟩
  · change inbox + m.manager.runs.length = n + interrupts
    rw [hruns]
    dsimp only [Process.timed]
    omega
  · change m.begun.length = m.manager.runs.length
    rw [hruns, hbegun]
    exact congrArg (· + notified event) h.begun
  · change TimedReached T ⟨m.manager, now, m.begun⟩
    obtain rfl : m.now = now := hnow
    exact (h.managed hdied).next hnext

/-- An end that is not the manager's doing. -/
lemma Process.Told.ended {n now : ℕ} {w : Process} (h : w.Told T n now) (code : ℕ) :
    Process.Told T n now
      { w with died := true, manager := { w.manager with exited := some code } } :=
  ⟨h.notices, h.inbox, h.begun, fun hd => Bool.noConfusion hd,
    fun he => absurd he (Option.some_ne_none _)⟩

/-- Only the primary sends messages, and a worker gets one run for each notice. -/
lemma Process.Told.step {n now : ℕ} {primary : Primary} {action : WorkerAction} {w w' : Process}
    (h : w.Told T n now) (hstep : workerStep T now primary action w = some w') :
    w'.Told T n now ∧ w'.reported = w.reported := by
  obtain ⟨hlive, hstep⟩ := Option.ite_none_left_eq_some.mp hstep
  have hdied : w.died = false := h.died (by simpa using hlive)
  have hclock : ∀ e ms, TimedEvent.step e ≠ .pass ms := fun e ms => TimedEvent.noConfusion
  cases action with
  | listen =>
    obtain rfl := Option.some.inj hstep
    exact ⟨⟨h.notices, h.inbox, h.begun, h.managed, h.died⟩, rfl⟩
  | deliver =>
    obtain ⟨⟨-, hinbox⟩, hstep⟩ := Option.ite_none_right_eq_some.mp hstep
    obtain ⟨m, hnext, rfl⟩ := Option.map_eq_some_iff.mp hstep
    refine ⟨h.moved hdied hnext (hclock _) ((Nat.sub_le _ _).trans h.inbox) ?_, rfl⟩
    dsimp only [notified, Process.become]
    omega
  | interrupt =>
    dsimp only at hstep
    by_cases hlistening : w.listening = true
    · rw [if_pos hlistening] at hstep
      obtain ⟨m, hnext, rfl⟩ := Option.map_eq_some_iff.mp hstep
      refine ⟨h.moved hdied hnext (hclock _) h.inbox ?_, rfl⟩
      dsimp only [notified, Process.become]
      omega
    · rw [if_neg hlistening] at hstep
      obtain rfl := Option.some.inj hstep
      exact ⟨h.ended 143, rfl⟩
  | manage e =>
    obtain ⟨hne, hstep⟩ := Option.ite_none_left_eq_some.mp hstep
    obtain ⟨m, hnext, rfl⟩ := Option.map_eq_some_iff.mp hstep
    have hnone : notified (.step e) = 0 := by
      cases e with
      | notify => exact absurd rfl hne
      | connect | disconnect | settle => rfl
    refine ⟨h.moved hdied hnext (hclock e) h.inbox ?_, rfl⟩
    rw [hnone, Nat.add_zero]
  | drainTimedOut run =>
    obtain ⟨m, hnext, rfl⟩ := Option.map_eq_some_iff.mp hstep
    exact ⟨h.moved hdied hnext (fun _ => TimedEvent.noConfusion) h.inbox rfl, rfl⟩
  | die code =>
    obtain rfl := Option.some.inj hstep
    exact ⟨h.ended code, rfl⟩
  | orphaned =>
    obtain ⟨-, hstep⟩ := Option.ite_none_right_eq_some.mp hstep
    obtain rfl := Option.some.inj hstep
    exact ⟨h.ended 0, rfl⟩

lemma Process.Told.pass {n now ms : ℕ} {w : Process} (h : w.Told T n now)
    (hpass : ((ShutdownManager.timed T).next (.pass ms) (w.timed now)).isSome) :
    w.Told T n (now + ms) := by
  obtain ⟨m, hm⟩ := Option.isSome_iff_exists.mp hpass
  refine ⟨h.notices, h.inbox, h.begun, fun hd => ?_, h.died⟩
  have hmanaged := (h.managed hd).next hm
  obtain ⟨-, hu⟩ := Option.ite_none_left_eq_some.mp hm
  obtain rfl := Option.some.inj hu
  exact hmanaged

/-- Before the first signal no worker has got a message of the primary, and after it every worker
that the primary still counts has been sent exactly one. -/
def Informed (T : ℕ) (s : State) : Prop :=
  ∀ i, (s.primary.forks ≤ i → s.workers i = newborn) ∧ ∃ n, (s.workers i).Told T n s.now ∧ n ≤ 1 ∧
    (s.primary.isShuttingDown = false → n = 0) ∧
    (s.primary.isShuttingDown = true → i < s.primary.forks → (s.workers i).reported = false →
      n = 1)

/-- What a step of the primary does to its fields. -/
lemma primary_cases {event : Cluster.Event} {p q : Primary} (h : primary.next event p = some q) :
    (q.isShuttingDown = (p.isShuttingDown || event = .signal)) ∧
    (q.forks = p.forks ∨ (p.isShuttingDown = false ∧ q.forks = p.forks + 1 ∧
      ∃ now later, event = .workerExit now later)) := by
  have hlive := Cluster.next_live h
  simp only [primary, primaryStep, hlive, Option.isSome_none, Bool.false_eq_true, if_false] at h
  cases event with
  | signal =>
    obtain rfl := Option.some.inj h
    by_cases hdown : p.isShuttingDown = true
    · rw [handleSignal, if_pos hdown]
      exact ⟨by simp [hdown], .inl rfl⟩
    · rw [handleSignal, if_neg hdown]
      exact ⟨by simp, .inl rfl⟩
  | analyticsStopped | timeout =>
    obtain ⟨-, h⟩ := Option.ite_none_right_eq_some.mp h
    obtain rfl := Option.some.inj h
    exact ⟨by simp, .inl rfl⟩
  | workerExit now later =>
    obtain ⟨-, h⟩ := Option.ite_none_right_eq_some.mp h
    obtain rfl := Option.some.inj h
    by_cases hdown : p.isShuttingDown = true
    · rw [handleWorkerExit, if_pos hdown]
      exact ⟨by simp, .inl rfl⟩
    · rw [handleWorkerExit, if_neg hdown, forkWorker, if_neg hdown]
      split_ifs
      · exact ⟨by simp, .inl rfl⟩
      · exact ⟨by simp, .inr ⟨eq_false_of_ne_true hdown, rfl, now, later, rfl⟩⟩

lemma forks_of_signal {p q : Primary} (h : primary.next .signal p = some q) :
    q.forks = p.forks := by
  rcases (primary_cases h).2 with hforks | ⟨-, -, now, later, he⟩
  · exact hforks
  · cases he

/-- The primary goes on without news for its workers. -/
lemma Informed.primary_next {s : State} {event : Cluster.Event} {p : Primary} (h : Informed T s)
    (hevent : event ≠ .signal) (hp : primary.next event s.primary = some p) :
    Informed T { s with primary := p } := by
  obtain ⟨hdown, hforks⟩ := primary_cases hp
  have hdown : p.isShuttingDown = s.primary.isShuttingDown := by simpa [hevent] using hdown
  have hle : s.primary.forks ≤ p.forks := by
    rcases hforks with hforks | ⟨-, hforks, -⟩ <;> omega
  intro i
  obtain ⟨hfresh, n, htold, hn, hbefore, hafter⟩ := h i
  refine ⟨fun hi => hfresh (hle.trans hi), n, htold, hn, fun hd => hbefore (hdown ▸ hd),
    fun hd hi => hafter (hdown ▸ hd) ?_⟩
  rcases hforks with hforks | ⟨hrunning, -⟩
  · exact hforks ▸ hi
  · rw [← hdown, hd] at hrunning
    cases hrunning

/-- A worker goes on with what it was told, or its end is reported. -/
lemma Informed.update {s : State} {i : ℕ} {w : Process} (h : Informed T s)
    (hi : i < s.primary.forks) (htold : ∀ n, (s.workers i).Told T n s.now → w.Told T n s.now)
    (hreported : w.reported = false → (s.workers i).reported = false) :
    Informed T { s with workers := Function.update s.workers i w } := by
  intro j
  obtain ⟨hfresh, n, hn, hle, hbefore, hafter⟩ := h j
  dsimp only
  by_cases hji : j = i
  · subst hji
    rw [Function.update_self]
    exact ⟨fun hj => absurd hi (not_lt.mpr hj), n, htold n hn, hle, hbefore,
      fun hd hj hw => hafter hd hj (hreported hw)⟩
  · rw [Function.update_of_ne hji]
    exact ⟨hfresh, n, hn, hle, hbefore, hafter⟩

lemma Informed.signal {s : State} {p : Primary} (h : Informed T s)
    (hp : primary.next .signal s.primary = some p) :
    Informed T ⟨s.now, p, if s.primary.isShuttingDown then s.workers else broadcast s⟩ := by
  have hdown : p.isShuttingDown = true := by simpa using (primary_cases hp).1
  have hforks := forks_of_signal hp
  by_cases hsecond : s.primary.isShuttingDown = true
  · rw [if_pos hsecond]
    intro i
    obtain ⟨hfresh, n, htold, hn, -, hafter⟩ := h i
    refine ⟨fun hi => hfresh (hforks ▸ hi), n, htold, hn, fun hd => ?_,
      fun _ hi => hafter hsecond (hforks ▸ hi)⟩
    dsimp only at hd
    rw [hdown] at hd
    cases hd
  · rw [if_neg hsecond]
    intro i
    obtain ⟨hfresh, n, htold, -, hbefore, -⟩ := h i
    obtain rfl := hbefore (eq_false_of_ne_true hsecond)
    have hnotices := htold.notices
    dsimp only
    rw [broadcast]
    split_ifs with hsent
    · refine ⟨fun hi => absurd hsent.1 (not_lt.mpr (hforks ▸ hi)), 1,
        ⟨?_, Nat.succ_le_succ htold.inbox, htold.begun, htold.managed, htold.died⟩, le_rfl,
        fun hd => ?_, fun _ _ _ => rfl⟩
      · rw [Process.notices] at hnotices ⊢
        dsimp only
        omega
      · rw [hdown] at hd
        cases hd
    · refine ⟨fun hi => hfresh (hforks ▸ hi), 0, htold, Nat.zero_le 1, fun _ => rfl,
        fun _ hi hunreported => ?_⟩
      exact absurd ⟨hforks ▸ hi, hunreported⟩ hsent

lemma Informed.next {action : Action} {s t : State} (h : Informed T s)
    (hnext : (cluster T).next action s = some t) : Informed T t := by
  cases action with
  | signal =>
    obtain ⟨p, hp, rfl⟩ := Option.map_eq_some_iff.mp hnext
    exact h.signal hp
  | analyticsStopped | timeout =>
    obtain ⟨p, hp, rfl⟩ := Option.map_eq_some_iff.mp hnext
    exact h.primary_next Cluster.Event.noConfusion hp
  | report i now later =>
    obtain ⟨⟨hi, -⟩, hnext⟩ := Option.ite_none_right_eq_some.mp hnext
    obtain ⟨p, hp, rfl⟩ := Option.map_eq_some_iff.mp hnext
    have hupdate := h.update (w := { s.workers i with reported := true }) hi
      (fun n hn => ⟨hn.notices, hn.inbox, hn.begun, hn.managed, hn.died⟩)
      (fun hfalse => Bool.noConfusion hfalse)
    exact hupdate.primary_next Cluster.Event.noConfusion hp
  | worker i action =>
    obtain ⟨hi, hnext⟩ := Option.ite_none_right_eq_some.mp hnext
    obtain ⟨w, hw, rfl⟩ := Option.map_eq_some_iff.mp hnext
    refine h.update hi (fun n hn => (hn.step hw).1) fun hreported => ?_
    obtain ⟨-, n, hn, -⟩ := h i
    rw [← (hn.step hw).2]
    exact hreported
  | pass ms =>
    obtain ⟨hpass, hnext⟩ := Option.ite_none_right_eq_some.mp hnext
    obtain rfl := Option.some.inj hnext
    intro i
    obtain ⟨hfresh, n, htold, hn, hbefore, hafter⟩ := h i
    refine ⟨hfresh, n, ?_, hn, hbefore, hafter⟩
    by_cases hi : i < s.primary.forks
    · exact htold.pass (hpass i hi)
    · -- a worker that is not forked yet has no timer
      refine htold.pass ?_
      rw [hfresh (not_lt.mp hi)]
      simp [timed, timedStep, Process.timed, newborn, serving]

/-- The end that `drainServer` puts to a process whose connections outlive its timer. -/
def TimedOut (T now : ℕ) (w : Process) : Prop :=
  w.manager.exited = some 1 ∧ w.manager.log = [] ∧ ∃ t₀, w.begun = [t₀] ∧ t₀ + T ≤ now

/-- How a worker ends that nobody else has signalled. -/
lemma Process.Told.ending {n now : ℕ} {w : Process} (h : w.Told T n now) (hn : n ≤ 1)
    (hdied : w.died = false) (halone : w.interrupts = 0) (hexited : w.manager.exited ≠ none) :
    Graceful w.manager ∨ TimedOut T now w := by
  have hnotices : w.inbox + w.manager.runs.length = n + w.interrupts := h.notices
  have hbegun := h.begun
  have hreached := h.managed hdied
  rw [Process.timed] at hreached
  generalize hm : (⟨w.manager, now, w.begun⟩ : Timed) = d at hreached
  cases hreached with
  | unnotified | live =>
    obtain ⟨hmanager, -, -⟩ := Timed.mk.inj hm
    exact absurd (congrArg Manager.exited hmanager) hexited
  | graceful hg =>
    subst hm
    exact .inl hg
  | repeated hone htwo =>
    subst hm
    dsimp only at htwo
    omega
  | @timedOut _ t₀ later hone hfirst hlate hlog =>
    subst hm
    dsimp only at hone hfirst hlate hlog
    have hlater : later = [] := by
      rw [hfirst, List.length_cons] at hbegun
      exact List.length_eq_zero_iff.mp (by omega)
    exact .inr ⟨hone, hlog, t₀, hlater ▸ hfirst, hlate⟩

end UrlShortener.ClusterShutdown
