import UrlShortener.FlushSteps

/-! Shutdown of the single process: one SIGTERM starts `gracefulShutdown` of the entry
point and `ShutdownManager.handleSignal`, which share the pools and the process. -/
namespace UrlShortener.Shutdown
open Js Transition FlushWorker

/-- `gracefulShutdown`: the flush that `stop` has started, or a `stop` that has found a flush
running and returned at once. -/
inductive IndexPc
  | awaitingFlush
  | stopResolved
  deriving DecidableEq

/-- `handleSignal`: `server.close`, then `pgPool.end`, then `redis.quit`. -/
inductive ManagerPc
  | draining
  | endingPool
  | quittingRedis
  deriving DecidableEq

/-- The process after the signal. `underway` are the clicks yet to be pushed, by `trackClick`
or by handlers whose client has gone; nothing awaits them. `connections` are open without a
request on them. -/
structure Process where
  stores : Stores
  underway : List JsString
  connections : ℕ
  inflight : ℕ
  timedOut : Bool
  flushPc : FlushPc
  index : IndexPc
  manager : ManagerPc
  poolEnding : Bool
  redisQuit : Bool
  exited : Option ℕ

inductive Action
  | request
  | answer (click : Option JsString) (keepAlive : Bool)
  | disconnect
  | otherInstance (buffer : List JsString)
  | track (raw : JsString)
  | elapse
  | flush (reply : FlushReply)
  | indexExit
  | serverClosed
  | drainTimedOut
  | poolEnded
  | redisClosed

/-- Does the flush hold a client of the pool? -/
def holdsClient : FlushPc → Bool
  | .beginning _ | .inserting _ | .committing _ | .rollingBack _ _ => true
  | _ => false

/-- Postgres and Redis are healthy: a call fails only once its pool is being closed. -/
def mayFail (p : Process) : Bool :=
  match p.flushPc with
  | .connecting _ => p.poolEnding
  | .popping _ _ | .requeueing _ _ => p.redisQuit
  | _ => false

def exit (code : ℕ) (p : Process) : Process := { p with exited := some code }

/-- One step of the process, until it has exited. The server accepts no new connection, but the
open ones bring requests until they are closed. A request that is answered, or given up by its
client, may have started a click; `server.close` waits for every connection and `pgPool.end` for
the clients that are out. Other instances push to a shared buffer and pop from it. -/
def processStep (shared : Bool) (action : Action) (p : Process) : Option Process :=
  if p.exited.isSome then none
  else
    match action with
    | .request =>
      if 0 < p.connections then
        some { p with connections := p.connections - 1, inflight := p.inflight + 1 }
      else none
    | .answer click keepAlive =>
      if 0 < p.inflight then
        some { p with
          inflight := p.inflight - 1
          connections := p.connections + if keepAlive then 1 else 0
          underway := p.underway ++ click.toList }
      else none
    | .disconnect =>
      if 0 < p.connections then some { p with connections := p.connections - 1 } else none
    | .otherInstance buffer =>
      if shared then some { p with stores := { p.stores with buffer := buffer } } else none
    | .track raw =>
      if raw ∈ p.underway then
        some { p with
          underway := p.underway.erase raw
          stores := if p.redisQuit then p.stores else p.stores.push [raw] }
      else none
    | .elapse => some { p with timedOut := true }
    | .flush reply =>
      if reply = .done ∨ mayFail p then
        (flushStep reply p.stores p.flushPc).map fun d =>
          { p with stores := d.1, flushPc := d.2 }
      else none
    | .indexExit =>
      if p.index = .stopResolved ∨ p.flushPc = .idle then some (exit 0 p) else none
    | .serverClosed =>
      if p.manager = .draining ∧ p.connections = 0 ∧ p.inflight = 0 then
        some { p with manager := .endingPool, poolEnding := true }
      else none
    | .drainTimedOut =>
      if p.manager = .draining ∧ p.timedOut then some (exit 1 p) else none
    | .poolEnded =>
      if p.manager = .endingPool ∧ ¬ holdsClient p.flushPc then
        some { p with manager := .quittingRedis, redisQuit := true }
      else none
    | .redisClosed => if p.manager = .quittingRedis then some (exit 0 p) else none

/-- `shared` tells whether other instances use the same buffer. -/
def shutdown (shared : Bool) : System Process Action := ⟨processStep shared⟩

/-- What both listeners have done when the signal's event is over: `stop` has cleared the
interval and begun the final flush, unless one is running, and the server accepts no more
connections. -/
def onSigterm (batchSize : ℕ) (stores : Stores) (underway : List JsString)
    (connections inflight : ℕ) (running : FlushPc) : Process where
  stores := stores
  underway := underway
  connections := connections
  inflight := inflight
  timedOut := false
  flushPc := if running = .idle then .popping batchSize [] else running
  index := if running = .idle then .awaitingFlush else .stopResolved
  manager := .draining
  poolEnding := false
  redisQuit := false
  exited := none

/-- The events that a flush has popped and neither committed nor re-queued. -/
def held : FlushPc → List JsString
  | .idle => []
  | .popping _ events => events
  | .connecting rawEvents | .beginning rawEvents | .inserting rawEvents
  | .committing rawEvents | .rollingBack rawEvents _ => rawEvents
  | .requeueing raw rest => raw :: rest

/-- The LPOP commands still to be served. -/
def pops : FlushPc → ℕ
  | .popping n _ => n
  | _ => 0

lemma exists_popping {pc : FlushPc} (h : pops pc ≠ 0) :
    ∃ n events, pc = .popping (n + 1) events := by
  cases pc with
  | popping m events =>
    cases m with
    | zero => exact absurd rfl h
    | succ n => exact ⟨n, events, rfl⟩
  | _ => exact absurd rfl h

/-- A step that ends the process leaves no request behind before the timeout, and neither
it nor one that begins to close a pool leaves a batch behind. -/
structure Graceful (p q : Process) : Prop where
  requests : q.exited ≠ none → p.inflight = 0 ∨ p.timedOut = true
  batch : q.exited ≠ none ∨ q.poolEnding ≠ p.poolEnding ∨ q.redisQuit ≠ p.redisQuit →
    held p.flushPc = []

/-- No request is in flight, none can come, and the flush holds nothing and can pop nothing: it
has no LPOP left, or nobody has anything to push to an empty buffer. -/
def Quiet (shared : Bool) (p : Process) : Prop :=
  p.connections = 0 ∧ p.inflight = 0 ∧ held p.flushPc = [] ∧
    (pops p.flushPc = 0 ∨ shared = false ∧ p.stores.buffer = [] ∧ p.underway = [])

/-! A quiet process stays quiet, and each of its steps is graceful. -/

lemma flushStep_quiet {reply : FlushReply} {s s' : Stores} {pc pc' : FlushPc}
    (hheld : held pc = []) (hpops : pops pc = 0 ∨ s.buffer = [])
    (h : flushStep reply s pc = some (s', pc')) :
    held pc' = [] ∧ pops pc' ≤ pops pc ∧ s'.buffer = s.buffer := by
  -- a flush that holds nothing has no rows to insert and nothing to push back
  revert h
  fun_cases flushStep reply s pc <;> intro h <;> cases h
  case case15 => split_ifs <;> simp_all [held, pops, enterRequeue]
  all_goals simp_all [held, pops, enterPersist, parsedRows, Stores.insert]

variable {shared : Bool}

lemma quiet_next {action : Action} {p q : Process} (hp : Quiet shared p)
    (h : (shutdown shared).next action p = some q) : Quiet shared q ∧ Graceful p q := by
  obtain ⟨hconn, hreq, hheld, hpops⟩ := hp
  have hgraceful : Graceful p q := ⟨fun _ => .inl hreq, fun _ => hheld⟩
  refine ⟨?_, hgraceful⟩
  change processStep shared action p = some q at h
  have hlive : ¬ p.exited.isSome := by
    intro hexited
    simp [processStep, hexited] at h
  unfold processStep at h
  rw [if_neg hlive] at h
  cases action with
  | request | disconnect => simp [hconn] at h
  | answer click keepAlive => simp [hreq] at h
  | otherInstance buffer =>
    simp only [Option.ite_none_right_eq_some, Option.some.injEq] at h
    obtain ⟨hshared, rfl⟩ := h
    have hnone : pops p.flushPc = 0 := hpops.resolve_right fun hb => by simp [hb.1] at hshared
    exact ⟨hconn, hreq, hheld, .inl hnone⟩
  | track raw =>
    simp only [Option.ite_none_right_eq_some, Option.some.injEq] at h
    obtain ⟨hmem, rfl⟩ := h
    have hnone : pops p.flushPc = 0 := hpops.resolve_right fun hb => by simp [hb.2.2] at hmem
    exact ⟨hconn, hreq, hheld, .inl hnone⟩
  | flush reply =>
    simp only [Option.ite_none_right_eq_some] at h
    obtain ⟨-, h⟩ := h
    obtain ⟨⟨s', pc'⟩, hflush, rfl⟩ := Option.map_eq_some_iff.mp h
    obtain ⟨hheld', hle, hbuffer⟩ :=
      flushStep_quiet hheld (hpops.imp id fun hb => hb.2.1) hflush
    refine ⟨hconn, hreq, hheld', hpops.imp (fun hz => ?_) fun hb => ?_⟩
    · change pops pc' = 0
      omega
    · exact ⟨hb.1, hbuffer.trans hb.2.1, hb.2.2⟩
  | elapse =>
    cases h
    exact ⟨hconn, hreq, hheld, hpops⟩
  | indexExit | serverClosed | drainTimedOut | poolEnded | redisClosed =>
    simp only [Option.ite_none_right_eq_some, Option.some.injEq] at h
    obtain ⟨-, rfl⟩ := h
    exact ⟨hconn, hreq, hheld, hpops⟩

/-- No run of `p` takes a step that is not graceful. -/
def AlwaysGraceful (shared : Bool) (p : Process) : Prop :=
  ∀ as t action u, (shutdown shared).run as p = some t →
    (shutdown shared).next action t = some u → Graceful t u

lemma alwaysGraceful_of_quiet {p : Process} (hp : Quiet shared p) : AlwaysGraceful shared p := by
  intro as t action u hrun hnext
  have ht : Quiet shared t :=
    System.run_invariant (fun _ _ _ hq hn => (quiet_next hq hn).1) hrun hp
  exact (quiet_next ht hnext).2

lemma AlwaysGraceful.run {as : List Action} {p q : Process} (hp : AlwaysGraceful shared p)
    (h : (shutdown shared).run as p = some q) : AlwaysGraceful shared q := by
  intro bs t action u hrun
  apply hp (as ++ bs) t action u
  rw [System.run_append, h]
  exact hrun

lemma AlwaysGraceful.next {action : Action} {p q : Process} (hp : AlwaysGraceful shared p)
    (h : (shutdown shared).next action p = some q) : AlwaysGraceful shared q := by
  have hrun : (shutdown shared).run [action] p = some q := System.run_cons_of_next h
  exact hp.run hrun

/-! Where the process is not quiet, one of the two sequences overtakes the other. -/

section Overtaken
variable {p : Process} (hlive : p.exited = none)
include hlive

lemma next_flush {s' : Stores} {pc' : FlushPc}
    (h : flushStep .done p.stores p.flushPc = some (s', pc')) :
    (shutdown shared).next (.flush .done) p = some { p with stores := s', flushPc := pc' } := by
  simp [shutdown, processStep, hlive, h]

/-- What the flush does alone, it does in the process when nothing else moves. -/
lemma run_flushAlone {n : ℕ} {s' : Stores} {pc' : FlushPc}
    (h : flushAlone.run (List.replicate n .done) (p.stores, p.flushPc) = some (s', pc')) :
    (shutdown shared).run (List.replicate n (.flush .done)) p =
      some { p with stores := s', flushPc := pc' } := by
  induction n generalizing p with
  | zero =>
    cases h
    rfl
  | succ n ih =>
    rw [List.replicate_succ, System.run] at h
    obtain ⟨⟨s₁, pc₁⟩, hstep, hrest⟩ := Option.bind_eq_some_iff.mp h
    rw [List.replicate_succ, System.run_cons_of_next (next_flush hlive hstep)]
    exact ih (p := { p with stores := s₁, flushPc := pc₁ }) hlive hrest

lemma not_alwaysGraceful_of_exit (hexit : p.index = .stopResolved ∨ p.flushPc = .idle)
    (hpos : 0 < p.inflight) (htime : p.timedOut = false) : ¬ AlwaysGraceful shared p := by
  intro hp
  have hnext : (shutdown shared).next .indexExit p = some (exit 0 p) := by
    simp [shutdown, processStep, hlive, hexit]
  have hg : Graceful p (exit 0 p) := hp [] p .indexExit _ rfl hnext
  have hreq := hg.requests (by simp [exit])
  simp [htime] at hreq
  omega

end Overtaken

/-- The server waits for its connections and none is left, so that its callback is due. -/
structure Drained (p : Process) : Prop where
  live : p.exited = none
  manager : p.manager = .draining
  connections : p.connections = 0
  requests : p.inflight = 0
  poolOpen : p.poolEnding = false
  redisOpen : p.redisQuit = false

section Drained
variable {p : Process} (hd : Drained p)
include hd

/-- The stores, the clicks under way and the flush do not matter. -/
lemma Drained.moved (stores : Stores) (underway : List JsString) (flushPc : FlushPc) :
    Drained { p with stores := stores, underway := underway, flushPc := flushPc } :=
  ⟨hd.live, hd.manager, hd.connections, hd.requests, hd.poolOpen, hd.redisOpen⟩

lemma Drained.not_alwaysGraceful_of_held (h : held p.flushPc ≠ []) : ¬ AlwaysGraceful shared p := by
  intro hp
  have hnext : (shutdown shared).next .serverClosed p =
      some { p with manager := .endingPool, poolEnding := true } := by
    simp [shutdown, processStep, hd.live, hd.manager, hd.connections, hd.requests]
  have hg := hp [] p .serverClosed _ rfl hnext
  exact h (hg.batch (.inr (.inl (by simp [hd.poolOpen]))))

lemma Drained.not_alwaysGraceful_of_pops (hpops : pops p.flushPc ≠ 0)
    (hbuffer : p.stores.buffer ≠ []) : ¬ AlwaysGraceful shared p := by
  obtain ⟨n, events, hpc⟩ := exists_popping hpops
  obtain ⟨raw, rest, hraw⟩ := List.exists_cons_of_ne_nil hbuffer
  have hstep : flushStep .done p.stores p.flushPc =
      some (⟨rest, p.stores.clicks⟩, .popping n (events ++ [raw])) := by
    rw [hpc, flushStep, hraw]
  intro hp
  have hheld : held (.popping n (events ++ [raw])) ≠ [] := by simp [held]
  have hq := hd.moved ⟨rest, p.stores.clicks⟩ p.underway (.popping n (events ++ [raw]))
  exact hq.not_alwaysGraceful_of_held hheld (hp.next (next_flush hd.live hstep))

/-- Another instance pushes in time for the flush to pop. -/
lemma Drained.not_alwaysGraceful_of_shared (hpops : pops p.flushPc ≠ 0) (hshared : shared = true) :
    ¬ AlwaysGraceful shared p := by
  have hnext : (shutdown shared).next (.otherInstance [sampleClick]) p =
      some { p with stores := { p.stores with buffer := [sampleClick] } } := by
    simp [shutdown, processStep, hd.live, hshared]
  intro hp
  have hq := hd.moved { p.stores with buffer := [sampleClick] } p.underway p.flushPc
  exact hq.not_alwaysGraceful_of_pops hpops (List.cons_ne_nil _ _) (hp.next hnext)

/-- A click under way reaches the buffer in time to be popped. -/
lemma Drained.not_alwaysGraceful_of_underway (hpops : pops p.flushPc ≠ 0)
    (hunderway : p.underway ≠ []) : ¬ AlwaysGraceful shared p := by
  obtain ⟨raw, hraw⟩ := List.exists_mem_of_ne_nil _ hunderway
  have hnext : (shutdown shared).next (.track raw) p =
      some { p with underway := p.underway.erase raw, stores := p.stores.push [raw] } := by
    simp [shutdown, processStep, hd.live, hd.redisOpen, hraw]
  have hbuffer : (p.stores.push [raw]).buffer ≠ [] := by simp [Stores.push]
  intro hp
  have hq := hd.moved (p.stores.push [raw]) (p.underway.erase raw) p.flushPc
  exact hq.not_alwaysGraceful_of_pops hpops hbuffer (hp.next hnext)

end Drained

/-- The replies of a cycle in which every call succeeds. -/
def served : FlushReplies := ⟨none, none, none, none, none⟩

lemma script_served (batchSize : ℕ) (s : Stores) :
    ∃ n, served.script batchSize s = List.replicate n .done := by
  rw [FlushReplies.script]
  by_cases hp : parsedRows (s.buffer.take batchSize) = []
  · exact ⟨batchSize + 1, by simp [FlushReplies.persistence, hp]⟩
  · refine ⟨batchSize + 1 + 4, ?_⟩
    rw [List.replicate_add (batchSize + 1)]
    simp only [FlushReplies.persistence, if_neg hp]
    rfl

section Sigterm
variable {batchSize : ℕ} {stores : Stores} {underway : List JsString} {connections inflight : ℕ}
  {running : FlushPc}

/-- `gracefulShutdown` reaches its exit although requests are in flight. -/
lemma not_alwaysGraceful_of_inflight (h : inflight ≠ 0) : ¬ AlwaysGraceful shared
    (onSigterm batchSize stores underway connections inflight running) := by
  have hpos : 0 < inflight := Nat.pos_of_ne_zero h
  by_cases hidle : running = .idle
  · obtain ⟨n, hn⟩ := script_served batchSize stores
    have halone := run_flush served batchSize stores
    rw [hn] at halone
    subst hidle
    intro hp
    refine not_alwaysGraceful_of_exit rfl (.inr rfl) hpos rfl (hp.run (run_flushAlone ?_ halone))
    rfl
  · refine not_alwaysGraceful_of_exit rfl (.inl ?_) hpos rfl
    simp [onSigterm, hidle]

/-- An open connection brings a request after the signal. -/
lemma not_alwaysGraceful_of_connections (h : connections ≠ 0) : ¬ AlwaysGraceful shared
    (onSigterm batchSize stores underway connections inflight running) := by
  intro hp
  have hnext : (shutdown shared).next .request
      (onSigterm batchSize stores underway connections inflight running) =
      some (onSigterm batchSize stores underway (connections - 1) (inflight + 1) running) := by
    simp [shutdown, processStep, onSigterm, Nat.pos_of_ne_zero h]
  exact not_alwaysGraceful_of_inflight (Nat.succ_ne_zero inflight) (hp.next hnext)

end Sigterm

/-- Both sequences together are graceful exactly when the signal finds nothing to wait for: no
open connection, no request in flight, and a flush that holds no batch and can pop none. -/
theorem shutdown_graceful_iff (shared : Bool) (batchSize : ℕ) (stores : Stores)
    (underway : List JsString) (connections inflight : ℕ) (running : FlushPc) :
    (∀ as t action u, (shutdown shared).run as
        (onSigterm batchSize stores underway connections inflight running) = some t →
      (shutdown shared).next action t = some u → Graceful t u) ↔
      Quiet shared (onSigterm batchSize stores underway connections inflight running) := by
  refine ⟨fun hp => ?_, alwaysGraceful_of_quiet⟩
  have hconn : connections = 0 := by
    by_contra hconn
    exact not_alwaysGraceful_of_connections hconn hp
  have hreq : inflight = 0 := by
    by_contra hreq
    exact not_alwaysGraceful_of_inflight hreq hp
  have hd : Drained (onSigterm batchSize stores underway connections inflight running) :=
    ⟨rfl, rfl, hconn, hreq, rfl, rfl⟩
  refine ⟨hconn, hreq, ?_, or_iff_not_imp_left.mpr fun hpops => ⟨?_, ?_, ?_⟩⟩
  · by_contra hheld
    exact hd.not_alwaysGraceful_of_held hheld hp
  · by_contra hshared
    exact hd.not_alwaysGraceful_of_shared hpops (by simpa using hshared) hp
  · by_contra hbuffer
    exact hd.not_alwaysGraceful_of_pops hpops hbuffer hp
  · by_contra hunderway
    exact hd.not_alwaysGraceful_of_underway hpops hunderway hp

/-- With no connection open and no other instance the pool is closed while the final flush holds
its batch. -/
theorem pool_closed_under_batch : ¬ ∀ as t action u,
    (shutdown false).run as (onSigterm 500 ⟨[sampleClick], []⟩ [] 0 0 .idle) = some t →
      (shutdown false).next action t = some u → Graceful t u := by
  intro hp
  have hg := hp [.flush .done] _ .serverClosed _ rfl rfl
  have hheld : [sampleClick] = [] := hg.batch (.inr (.inl (by simp [onSigterm])))
  exact List.cons_ne_nil _ _ hheld

end UrlShortener.Shutdown
