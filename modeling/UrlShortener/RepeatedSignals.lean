import UrlShortener.TransitionRun

/-! `ShutdownManager` under repeated notifications: each of them starts another
`handleSignal` over the same server and pools. -/
namespace UrlShortener.ShutdownManager
open Transition

/-- What a `handleSignal` awaits. `refused` is a `drainServer` whose `server.close` has found
the server closing or closed. -/
inductive RunPc
  | draining
  | refused
  | endingPool
  | quittingRedis
  deriving DecidableEq

inductive Milestone
  | drained
  | poolClosed
  | redisClosed
  deriving DecidableEq

/-- The process of the manager; `runs` has one `handleSignal` for each notification. -/
structure Manager where
  connections : ℕ
  closing : Bool
  runs : List RunPc
  log : List Milestone
  exited : Option ℕ
  deriving DecidableEq

/-- SIGTERM, SIGINT and the SHUTDOWN message of the cluster manager are all notifications.
`settle i` settles what the `i`th run awaits. -/
inductive Event
  | connect
  | disconnect
  | notify
  | settle (i : ℕ)
  deriving DecidableEq

/-- A run goes on after its `await`. The callbacks of `server.close` are called once no
connection is left, with an error but for the call that closed the server. -/
def settleRun (i : ℕ) (pc : RunPc) (m : Manager) : Option Manager :=
  match pc with
  | .draining =>
    if m.connections = 0 then
      some { m with runs := m.runs.set i .endingPool, log := m.log ++ [.drained] }
    else none
  | .refused => if m.connections = 0 then some { m with exited := some 1 } else none
  | .endingPool =>
    some { m with runs := m.runs.set i .quittingRedis, log := m.log ++ [.poolClosed] }
  | .quittingRedis => some { m with log := m.log ++ [.redisClosed], exited := some 0 }

/-- One step of the process, until it has exited. All connections end in time, so that no
drain timer fires. -/
def managerStep (event : Event) (m : Manager) : Option Manager :=
  if m.exited.isSome then none
  else
    match event with
    | .connect => if m.closing then none else some { m with connections := m.connections + 1 }
    | .disconnect =>
      if 0 < m.connections then some { m with connections := m.connections - 1 } else none
    | .notify =>
      some { m with
        closing := true
        runs := m.runs ++ [if m.closing then .refused else .draining] }
    | .settle i => m.runs[i]?.bind fun pc => settleRun i pc m

def manager : System Manager Event := ⟨managerStep⟩

/-- A server with its open connections, before any notification. -/
def serving (connections : ℕ) : Manager := ⟨connections, false, [], [], none⟩

/-- The outcome of a single notification. -/
def Graceful (m : Manager) : Prop :=
  m.exited = some 0 ∧ m.log = [.drained, .poolClosed, .redisClosed]

/-- What has been done when the first run awaits something. -/
def logAt : RunPc → List Milestone
  | .draining | .refused => []
  | .endingPool => [.drained]
  | .quittingRedis => [.drained, .poolClosed]

/-- Only the first run drains the server; every other one is refused, and ends the process
if it is answered first. -/
inductive Reached : Manager → Prop
  | unnotified (n : ℕ) : Reached (serving n)
  | live (n k : ℕ) {pc : RunPc} (hpc : pc ≠ .refused) :
    Reached ⟨n, true, pc :: List.replicate k .refused, logAt pc, none⟩
  | graceful {m : Manager} (h : Graceful m) : Reached m
  | aborted {m : Manager} (hruns : 2 ≤ m.runs.length) (h : m.exited = some 1) : Reached m

lemma next_live {event : Event} {m t : Manager} (h : manager.next event m = some t) :
    m.exited = none := by
  by_contra hexited
  have hsome : m.exited.isSome := Option.isSome_iff_ne_none.mpr hexited
  simp [manager, managerStep, hsome] at h

/-- What an event can do to a process. -/
lemma next_cases {event : Event} {m t : Manager} (h : manager.next event m = some t) :
    (event = .connect ∧ m.closing = false ∧ t = { m with connections := m.connections + 1 }) ∨
    (event = .disconnect ∧ t = { m with connections := m.connections - 1 }) ∨
    (event = .notify ∧ t = { m with
      closing := true
      runs := m.runs ++ [if m.closing then .refused else .draining] }) ∨
    ∃ i pc, event = .settle i ∧ m.runs[i]? = some pc ∧ settleRun i pc m = some t := by
  have hlive : ¬ m.exited.isSome := by simp [next_live h]
  simp only [manager, managerStep, if_neg hlive] at h
  cases event with
  | connect =>
    obtain ⟨hopen, ht⟩ := Option.ite_none_left_eq_some.mp h
    exact .inl ⟨rfl, eq_false_of_ne_true hopen, (Option.some.inj ht).symm⟩
  | disconnect =>
    obtain ⟨-, ht⟩ := Option.ite_none_right_eq_some.mp h
    exact .inr (.inl ⟨rfl, (Option.some.inj ht).symm⟩)
  | notify => exact .inr (.inr (.inl ⟨rfl, (Option.some.inj h).symm⟩))
  | settle i =>
    obtain ⟨pc, hget, hsettle⟩ := Option.bind_eq_some_iff.mp h
    exact .inr (.inr (.inr ⟨i, pc, rfl, hget, hsettle⟩))

/-- What the first run does when its `await` is settled. -/
lemma Reached.settle_first {n k : ℕ} {pc : RunPc} {t : Manager} (hpc : pc ≠ .refused)
    (h : settleRun 0 pc ⟨n, true, pc :: List.replicate k .refused, logAt pc, none⟩ = some t) :
    Reached t := by
  cases pc with
  | refused => exact absurd rfl hpc
  | draining =>
    simp only [settleRun, Option.ite_none_right_eq_some, Option.some.injEq] at h
    obtain ⟨-, rfl⟩ := h
    exact .live n k (by decide)
  | endingPool =>
    obtain rfl := Option.some.inj h
    exact .live n k (by decide)
  | quittingRedis =>
    obtain rfl := Option.some.inj h
    exact .graceful ⟨rfl, rfl⟩

lemma Reached.next {event : Event} {m t : Manager} (hm : Reached m)
    (h : manager.next event m = some t) : Reached t := by
  have hlive := next_live h
  cases hm with
  | graceful hg => simp [hg.1] at hlive
  | aborted _ hg => simp [hg] at hlive
  | unnotified n =>
    obtain ⟨-, -, rfl⟩ | ⟨-, rfl⟩ | ⟨-, rfl⟩ | ⟨i, pc, -, hget, -⟩ := next_cases h
    · exact .unnotified (n + 1)
    · exact .unnotified (n - 1)
    · exact .live n 0 RunPc.noConfusion
    · cases hget
  | @live n k pc hpc =>
    obtain ⟨-, hopen, -⟩ | ⟨-, rfl⟩ | ⟨-, rfl⟩ | ⟨i, pc', -, hget, hsettle⟩ := next_cases h
    · cases hopen
    · exact .live (n - 1) k hpc
    · have ht := Reached.live n (k + 1) hpc
      rw [List.replicate_succ'] at ht
      exact ht
    · cases i with
      | zero =>
        obtain rfl := Option.some.inj hget
        exact .settle_first hpc hsettle
      | succ i =>
        have hmem : pc' ∈ List.replicate k RunPc.refused := List.mem_of_getElem? hget
        obtain ⟨hk, rfl⟩ := List.mem_replicate.mp hmem
        simp only [settleRun, Option.ite_none_right_eq_some, Option.some.injEq] at hsettle
        obtain ⟨-, rfl⟩ := hsettle
        refine .aborted ?_ rfl
        simp only [List.length_cons, List.length_replicate]
        omega

lemma reached_of_run {n : ℕ} {as : List Event} {m : Manager}
    (h : manager.run as (serving n) = some m) : Reached m :=
  System.run_invariant (fun _ _ _ hs hn => hs.next hn) h (.unnotified n)

lemma settleRun_length {i : ℕ} {pc : RunPc} {m t : Manager} (h : settleRun i pc m = some t) :
    t.runs.length = m.runs.length := by
  cases pc with
  | draining | refused =>
    simp only [settleRun, Option.ite_none_right_eq_some, Option.some.injEq] at h
    obtain ⟨-, rfl⟩ := h
    simp
  | endingPool | quittingRedis =>
    obtain rfl := Option.some.inj h
    simp

lemma next_length {event : Event} {m t : Manager} (h : manager.next event m = some t) :
    t.runs.length = m.runs.length + [event].count .notify := by
  obtain ⟨rfl, -, rfl⟩ | ⟨rfl, rfl⟩ | ⟨rfl, rfl⟩ | ⟨i, pc, rfl, -, hsettle⟩ := next_cases h
  · rfl
  · rfl
  · simp
  · exact settleRun_length hsettle

/-- There is one run for each notification. -/
lemma run_length {as : List Event} {m t : Manager} (h : manager.run as m = some t) :
    t.runs.length = m.runs.length + as.count .notify := by
  induction as generalizing m with
  | nil =>
    obtain rfl : m = t := by simpa [System.run] using h
    rfl
  | cons event as ih =>
    rw [System.run] at h
    obtain ⟨u, hu, h⟩ := Option.bind_eq_some_iff.mp h
    have hcount : (event :: as).count .notify = [event].count .notify + as.count .notify :=
      @List.count_append _ _ _ [event] as
    rw [ih h, next_length hu, hcount]
    omega

/-! From a process that is still running. -/

lemma run_disconnect (n : ℕ) {m : Manager} (hlive : m.exited = none) (hn : m.connections = n) :
    manager.run (List.replicate n .disconnect) m = some { m with connections := 0 } := by
  induction n generalizing m with
  | zero =>
    obtain ⟨connections, closing, runs, log, exited⟩ := m
    obtain rfl : connections = 0 := hn
    rfl
  | succ n ih =>
    have hnext : manager.next .disconnect m = some { m with connections := n } := by
      simp [manager, managerStep, hlive, hn]
    rw [List.replicate_succ, System.run_cons_of_next hnext]
    exact ih (m := { m with connections := n }) hlive rfl

/-- The events after which the first run has ended the process. -/
def finish : RunPc → List Event
  | .draining => [.settle 0, .settle 0, .settle 0]
  | .endingPool => [.settle 0, .settle 0]
  | .quittingRedis | .refused => [.settle 0]

/-- The first run can always get to its end. -/
lemma run_finish (n k : ℕ) {pc : RunPc} (hpc : pc ≠ .refused) : ∃ t,
    manager.run (List.replicate n .disconnect ++ finish pc)
      ⟨n, true, pc :: List.replicate k .refused, logAt pc, none⟩ = some t ∧ Graceful t := by
  rw [System.run_append, run_disconnect n rfl rfl]
  cases pc with
  | refused => exact absurd rfl hpc
  | draining | endingPool | quittingRedis => exact ⟨_, rfl, rfl, rfl⟩

/-- But another one may get there first. -/
lemma run_refused (n k : ℕ) (pc : RunPc) : ∃ t,
    manager.run (List.replicate n .disconnect ++ [.settle 1])
      ⟨n, true, pc :: List.replicate (k + 1) .refused, logAt pc, none⟩ = some t ∧
        t.exited = some 1 := by
  rw [System.run_append, run_disconnect n rfl rfl]
  exact ⟨_, rfl, rfl⟩

/-- A process that has been notified comes to its end, and it ends as after a single
notification, whatever comes first, exactly when there was a single one. -/
theorem repeated_signals_iff {connections : ℕ} {before : List Event} {m : Manager}
    (hrun : manager.run before (serving connections) = some m) (hlive : m.exited = none)
    (hnotified : 1 ≤ before.count .notify) :
    (∃ as t, .notify ∉ as ∧ manager.run as m = some t ∧ t.exited ≠ none) ∧
    ((∀ as t, .notify ∉ as → manager.run as m = some t → t.exited ≠ none →
      t.exited = some 0 ∧ t.log = [.drained, .poolClosed, .redisClosed]) ↔
        before.count .notify = 1) := by
  have hlength := run_length hrun
  rw [serving, List.length_nil, Nat.zero_add] at hlength
  cases reached_of_run hrun with
  | unnotified n =>
    rw [← hlength] at hnotified
    exact absurd hnotified (by simp [serving])
  | graceful hg => simp [hg.1] at hlive
  | aborted _ hg => simp [hg] at hlive
  | @live n k pc hpc =>
    have hcount : before.count .notify = k + 1 := by simpa using hlength.symm
    rw [hcount]
    refine ⟨?_, fun hgraceful => ?_, fun hone as t has ht hexit => ?_⟩
    · obtain ⟨t, ht, hg⟩ := run_finish n k hpc
      refine ⟨_, t, ?_, ht, by simp [hg.1]⟩
      cases pc <;> simp [finish, List.mem_replicate]
    · cases k with
      | zero => rfl
      | succ k =>
        obtain ⟨t, ht, hexit⟩ := run_refused n k pc
        have hnone : Event.notify ∉ List.replicate n Event.disconnect ++ [.settle 1] := by
          simp [List.mem_replicate]
        have hzero := (hgraceful _ t hnone ht (by simp [hexit])).1
        simp [hexit] at hzero
    · have hruns : t.runs.length = k + 1 := by
        rw [run_length ht, List.count_eq_zero_of_not_mem has, List.length_cons,
          List.length_replicate, Nat.add_zero]
      have hreached : Reached t :=
        System.run_invariant (fun _ _ _ hs hn => hs.next hn) ht (.live n k hpc)
      cases hreached with
      | unnotified | live => exact absurd rfl hexit
      | graceful hg => exact hg
      | aborted htwo hg => omega

/-- One notification while a request is in flight. -/
theorem repeated_signals_iff_once : ∃ t,
    manager.run [.connect, .notify, .disconnect, .settle 0, .settle 0, .settle 0] (serving 0) =
      some t ∧ t.exited = some 0 ∧ t.log = [.drained, .poolClosed, .redisClosed] := by
  obtain ⟨-, hiff⟩ :=
    @repeated_signals_iff 0 [.connect, .notify] _ rfl rfl (by decide)
  have hrun : manager.run [.disconnect, .settle 0, .settle 0, .settle 0]
      ⟨1, true, [.draining], [], none⟩ =
        some ⟨0, true, [.quittingRedis], [.drained, .poolClosed, .redisClosed], some 0⟩ := rfl
  have hgraceful := hiff.mpr (by decide) _ _ (by decide) hrun (by simp)
  exact ⟨_, rfl, hgraceful⟩

/-- The second notification is refused and exits while the pool is being closed. -/
theorem second_signal_aborts : ¬ ∀ connections as t, 1 ≤ as.count .notify →
    manager.run as (serving connections) = some t → t.exited ≠ none →
      t.exited = some 0 ∧ t.log = [.drained, .poolClosed, .redisClosed] := by
  intro hharmless
  have hrun : manager.run [.notify, .notify, .settle 0, .settle 1] (serving 0) =
      some ⟨0, true, [.endingPool, .refused], [.drained], some 1⟩ := rfl
  have hgraceful := hharmless 0 _ _ (by decide) hrun (by simp)
  exact absurd hgraceful.1 (by decide)

end UrlShortener.ShutdownManager
