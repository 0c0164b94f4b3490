import UrlShortener.RepeatedSignals

/-! `drainServer` with its timer: how long a process that was told to shut down may hold out, and
what its exit code says. -/
namespace UrlShortener.ShutdownManager
open Transition

/-- The process with a clock, and when each of its runs has begun. -/
structure Timed where
  manager : Manager
  now : ℕ
  begun : List ℕ
  deriving DecidableEq

inductive TimedEvent
  | step (e : Event)
  | timeout (i : ℕ)
  | pass (ms : ℕ)
  deriving DecidableEq

/-- The timer of `drainServer` is cleared by the callback of `server.close`. -/
def RunPc.timing : RunPc → Bool
  | .draining | .refused => true
  | .endingPool | .quittingRedis => false

/-- When the timer of a run fires. -/
def Timed.deadline (SHUTDOWN_TIMEOUT_MS : ℕ) (m : Timed) (i : ℕ) : Option ℕ :=
  match m.manager.runs[i]?, m.begun[i]? with
  | some pc, some t => if pc.timing then some (t + SHUTDOWN_TIMEOUT_MS) else none
  | _, _ => none

lemma deadline_eq {T i t : ℕ} {m : Timed} (h : m.deadline T i = some t) : ∃ pc t₀,
    m.manager.runs[i]? = some pc ∧ m.begun[i]? = some t₀ ∧ pc.timing = true ∧ t = t₀ + T := by
  unfold Timed.deadline at h
  split at h
  case h_1 pc t₀ hpc ht₀ =>
    obtain ⟨htiming, ht⟩ := Option.ite_none_right_eq_some.mp h
    exact ⟨pc, t₀, hpc, ht₀, htiming, (Option.some.inj ht).symm⟩
  case h_2 => cases h

/-- The clock does not pass a timer that has yet to fire. -/
def timedStep (SHUTDOWN_TIMEOUT_MS : ℕ) (event : TimedEvent) (m : Timed) : Option Timed :=
  match event with
  | .step e =>
    (manager.next e m.manager).map fun p =>
      { m with manager := p, begun := if e = .notify then m.begun ++ [m.now] else m.begun }
  | .timeout i =>
    if m.manager.exited = none ∧ (m.deadline SHUTDOWN_TIMEOUT_MS i).any (· ≤ m.now) then
      some { m with manager := { m.manager with exited := some 1 } }
    else none
  | .pass ms =>
    if m.manager.exited = none ∧ ∃ i < m.manager.runs.length,
        (m.deadline SHUTDOWN_TIMEOUT_MS i).any (· < m.now + ms) then none
    else some { m with now := m.now + ms }

def timed (SHUTDOWN_TIMEOUT_MS : ℕ) : System Timed TimedEvent := ⟨timedStep SHUTDOWN_TIMEOUT_MS⟩

def untold (connections now : ℕ) : Timed := ⟨serving connections, now, []⟩

variable {T : ℕ}

/-- The order in which a shutdown comes about. -/
def milestones : List Milestone := [.drained, .poolClosed, .redisClosed]

lemma logAt_ordered (pc : RunPc) : logAt pc <+: milestones := by
  cases pc <;> decide

lemma ne_of_logAt {pc : RunPc} (h : logAt pc ≠ []) : pc ≠ .draining := by
  rintro rfl
  exact h rfl

/-- The first run drains until its deadline at most; another one or a timer may end the process. -/
inductive TimedReached (T : ℕ) : Timed → Prop
  | unnotified (n now : ℕ) : TimedReached T (untold n now)
  | live (n now t₀ : ℕ) (later : List ℕ) {pc : RunPc} (hpc : pc ≠ .refused)
    (hdraining : pc = .draining → now ≤ t₀ + T) (hdrained : pc ≠ .draining → n = 0) :
    TimedReached T ⟨⟨n, true, pc :: List.replicate later.length .refused, logAt pc, none⟩, now,
      t₀ :: later⟩
  | graceful {m : Timed} (h : Graceful m.manager) (hdrained : m.manager.connections = 0) :
    TimedReached T m
  | repeated {m : Timed} (h : m.manager.exited = some 1) (htwo : 2 ≤ m.begun.length)
    (hlog : m.manager.log <+: milestones)
    (hdrained : m.manager.log ≠ [] → m.manager.connections = 0) : TimedReached T m
  | timedOut {m : Timed} {t₀ : ℕ} {later : List ℕ} (h : m.manager.exited = some 1)
    (hbegun : m.begun = t₀ :: later) (hlate : t₀ + T ≤ m.now) (hlog : m.manager.log = []) :
    TimedReached T m

lemma live_of_step {e : Event} {m u : Timed} (h : (timed T).next (.step e) m = some u) :
    m.manager.exited = none ∧ ∃ p, manager.next e m.manager = some p ∧
      u = { m with
        manager := p
        begun := if e = .notify then m.begun ++ [m.now] else m.begun } := by
  obtain ⟨p, hp, hu⟩ := Option.map_eq_some_iff.mp h
  exact ⟨next_live hp, p, hp, hu.symm⟩

/-- The first run goes on. -/
lemma TimedReached.settle_first {n now t₀ : ℕ} {later : List ℕ} {pc : RunPc} {p : Manager}
    (hpc : pc ≠ .refused) (hdrained : pc ≠ .draining → n = 0)
    (h : settleRun 0 pc ⟨n, true, pc :: List.replicate later.length .refused, logAt pc, none⟩ =
      some p) : TimedReached T ⟨p, now, t₀ :: later⟩ := by
  cases pc with
  | refused => exact absurd rfl hpc
  | draining =>
    obtain ⟨hzero, hp⟩ := Option.ite_none_right_eq_some.mp h
    obtain rfl := Option.some.inj hp
    exact .live n now t₀ later RunPc.noConfusion RunPc.noConfusion fun _ => hzero
  | endingPool =>
    obtain rfl := Option.some.inj h
    exact .live n now t₀ later RunPc.noConfusion RunPc.noConfusion
      fun _ => hdrained RunPc.noConfusion
  | quittingRedis =>
    obtain rfl := Option.some.inj h
    exact .graceful ⟨rfl, rfl⟩ (hdrained RunPc.noConfusion)

lemma TimedReached.step {e : Event} {m u : Timed} (hm : TimedReached T m)
    (h : (timed T).next (.step e) m = some u) : TimedReached T u := by
  obtain ⟨hlive, p, hp, rfl⟩ := live_of_step h
  cases hm with
  | graceful hg => simp [hg.1] at hlive
  | repeated hexited | timedOut hexited => simp [hexited] at hlive
  | unnotified n now =>
    obtain ⟨rfl, -, rfl⟩ | ⟨rfl, rfl⟩ | ⟨rfl, rfl⟩ | ⟨i, pc, -, hget, -⟩ := next_cases hp
    · exact .unnotified (n + 1) now
    · exact .unnotified (n - 1) now
    · exact .live n now now [] RunPc.noConfusion (fun _ => Nat.le_add_right _ _)
        fun hne => absurd rfl hne
    · cases hget
  | @live n now t₀ later pc hpc hdraining hdrained =>
    obtain ⟨-, hopen, -⟩ | ⟨rfl, rfl⟩ | ⟨rfl, rfl⟩ | ⟨i, pc', rfl, hget, hsettle⟩ := next_cases hp
    · cases hopen
    · refine .live (n - 1) now t₀ later hpc hdraining fun hne => ?_
      rw [hdrained hne]
    · have ht := TimedReached.live n now t₀ (later ++ [now]) hpc hdraining hdrained
      rw [List.length_append, List.length_singleton, List.replicate_succ'] at ht
      exact ht
    · cases i with
      | zero =>
        obtain rfl := Option.some.inj hget
        exact .settle_first hpc hdrained hsettle
      | succ i =>
        have hmem : pc' ∈ List.replicate later.length RunPc.refused := List.mem_of_getElem? hget
        obtain ⟨hlater, rfl⟩ := List.mem_replicate.mp hmem
        obtain ⟨hzero, hexit⟩ := Option.ite_none_right_eq_some.mp hsettle
        obtain rfl := Option.some.inj hexit
        refine .repeated rfl ?_ (logAt_ordered pc) fun _ => hzero
        have hpos := Nat.pos_of_ne_zero hlater
        simp only [reduceCtorEq, if_false, List.length_cons]
        omega

lemma TimedReached.next {event : TimedEvent} {m u : Timed} (hm : TimedReached T m)
    (h : (timed T).next event m = some u) : TimedReached T u := by
  cases event with
  | step e => exact hm.step h
  | timeout i =>
    obtain ⟨⟨hlive, hdue⟩, hu⟩ := Option.ite_none_right_eq_some.mp h
    obtain rfl := Option.some.inj hu
    obtain ⟨t, ht, hle⟩ := (Option.any_eq_true _ _).mp hdue
    have hle : t ≤ m.now := of_decide_eq_true hle
    obtain ⟨pc', t₀', hget, hbegun, htiming, rfl⟩ := deadline_eq ht
    cases hm with
    | graceful hg => simp [hg.1] at hlive
    | repeated hexited | timedOut hexited => simp [hexited] at hlive
    | unnotified n now => cases hget
    | @live n now t₀ later pc hpc hdraining hdrained =>
      cases i with
      | zero =>
        obtain rfl := Option.some.inj hget
        obtain rfl := Option.some.inj hbegun
        cases pc with
        | refused => exact absurd rfl hpc
        | draining => exact .timedOut rfl rfl hle rfl
        | endingPool | quittingRedis => cases htiming
      | succ i =>
        refine .repeated rfl ?_ (logAt_ordered pc) fun hlog => hdrained (ne_of_logAt hlog)
        have hmem : t₀' ∈ later := List.mem_of_getElem? hbegun
        exact Nat.succ_le_succ (List.length_pos_of_mem hmem)
  | pass ms =>
    obtain ⟨hpunctual, hu⟩ := Option.ite_none_left_eq_some.mp h
    obtain rfl := Option.some.inj hu
    cases hm with
    | graceful hg hdrained => exact .graceful hg hdrained
    | repeated hexited htwo hlog hdrained => exact .repeated hexited htwo hlog hdrained
    | timedOut hexited hbegun hlate hlog =>
      exact .timedOut hexited hbegun (Nat.le_add_right_of_le hlate) hlog
    | unnotified n now => exact .unnotified n (now + ms)
    | @live n now t₀ later pc hpc hdraining hdrained =>
      refine .live n (now + ms) t₀ later hpc (fun hpc => ?_) hdrained
      subst hpc
      by_contra hlate
      refine hpunctual ⟨rfl, 0, Nat.succ_pos _, ?_⟩
      exact decide_eq_true (not_le.mp hlate)

/-- What holds of a process whose first run began at `t₀`: it has drained its server by the deadline
of that run or is gone. The pool is closed after the last connection and Redis after the pool. It
exits with 0 when all of this is done, and with 1 only where it was notified twice or was still
draining at the deadline. -/
structure Timed.Orderly (T : ℕ) (m : Timed) : Prop where
  ordered : m.manager.log <+: milestones
  drained : m.manager.log ≠ [] → m.manager.connections = 0
  bounded : ∀ t₀ later, m.begun = t₀ :: later → m.manager.exited = none → t₀ + T < m.now →
    m.manager.log ≠ []
  succeeded : m.manager.exited = some 0 → m.manager.log = milestones
  failed : m.manager.exited = some 1 →
    2 ≤ m.begun.length ∨ ∃ t₀, m.begun = [t₀] ∧ t₀ + T ≤ m.now ∧ m.manager.log = []
  code : ∀ code, m.manager.exited = some code → code ≤ 1

lemma TimedReached.orderly {m : Timed} (hm : TimedReached T m) : m.Orderly T := by
  cases hm with
  | unnotified n now =>
    refine ⟨List.nil_prefix, fun hlog => absurd rfl hlog, fun t₀ later hbegun => ?_,
      fun hexited => ?_, fun hexited => ?_, fun code hexited => ?_⟩
    · cases hbegun
    all_goals cases hexited
  | @live n now t₀ later pc hpc hdraining hdrained =>
    refine ⟨logAt_ordered pc, fun hlog => hdrained (ne_of_logAt hlog),
      fun t₀ later hbegun _ hlate hlog => ?_,
      fun hexited => ?_, fun hexited => ?_, fun code hexited => ?_⟩
    · obtain ⟨rfl, rfl⟩ := List.cons.inj hbegun
      have hstill : pc = .draining := by
        cases pc with
        | draining => rfl
        | refused => exact absurd rfl hpc
        | endingPool | quittingRedis => cases hlog
      have hle := hdraining hstill
      dsimp only at hlate
      omega
    all_goals cases hexited
  | graceful hg hdrained =>
    refine ⟨hg.2 ▸ List.prefix_rfl, fun _ => hdrained, fun t₀ later _ hexited => ?_,
      fun _ => hg.2, fun hexited => ?_, fun code hexited => ?_⟩
    · rw [hg.1] at hexited
      cases hexited
    · rw [hg.1] at hexited
      cases hexited
    · rw [hg.1] at hexited
      exact Option.some.inj hexited ▸ Nat.zero_le 1
  | repeated hone htwo hlog hdrained =>
    refine ⟨hlog, hdrained, fun t₀ later _ hexited => ?_, fun hexited => ?_, fun _ => .inl htwo,
      fun code hexited => ?_⟩
    · rw [hone] at hexited
      cases hexited
    · rw [hone] at hexited
      cases hexited
    · rw [hone] at hexited
      exact (Option.some.inj hexited).ge
  | @timedOut _ t₀ later hone hbegun hlate hlog =>
    refine ⟨hlog ▸ List.nil_prefix, fun hne => absurd hlog hne, fun t₀ later _ hexited => ?_,
      fun hexited => ?_, fun _ => ?_, fun code hexited => ?_⟩
    · rw [hone] at hexited
      cases hexited
    · rw [hone] at hexited
      cases hexited
    · cases later with
      | nil => exact .inr ⟨t₀, hbegun, hlate, hlog⟩
      | cons t later =>
        left
        rw [hbegun]
        simp
    · rw [hone] at hexited
      exact (Option.some.inj hexited).ge

/-- However long connections stay open, and whatever signals come when. A pool or a client is closed
once `end()` or `quit()` has settled; where one of them fails, `closeResources` goes on. -/
theorem drain_deadline {connections now : ℕ} {d : Timed}
    (h : (timed T).Reaches (untold connections now) d) : d.Orderly T :=
  (h.invariant (fun _ _ _ hs hn => hs.next hn) (.unnotified _ _) : TimedReached T d).orderly

/-- A connection outlives the timeout. -/
theorem drain_deadline_openConnection : ∃ d,
    (timed 30000).run [.step .notify, .pass 30000, .timeout 0] (untold 1 0) = some d ∧
      d.manager.exited = some 1 ∧ d.Orderly 30000 := by
  have hrun : ((timed 30000).run [.step .notify, .pass 30000, .timeout 0] (untold 1 0)).map
      (fun d => d.manager.exited) = some (some 1) := by decide
  obtain ⟨d, hd, hexited⟩ := Option.map_eq_some_iff.mp hrun
  exact ⟨d, hd, hexited, drain_deadline ⟨_, hd⟩⟩

end UrlShortener.ShutdownManager
