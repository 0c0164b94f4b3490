import UrlShortener.AnalyticsService
import UrlShortener.GracefulShutdown

/-! The queue of clicks: producers that run `trackClick` and flush workers that share the
buffer and the table, in any interleaving. -/
namespace UrlShortener.ClickQueue
open Js Transition FlushWorker Analytics
open Shutdown (held pops)

/-- The stores, with the clicks that were ever pushed. -/
structure Queue where
  store : Metrics
  pushed : List TrackedClick

/-- A place for a call of `trackClick`, or a worker in its process. -/
inductive Actor
  | producer (pc : TrackPc)
  | worker (pc : FlushPc)

/-- A producer begins a call or has a command answered; a worker gets a tick of its interval
or a call of `stop`, has a call answered, or loses the reply to a command. -/
inductive Event
  | track (call : TrackCall)
  | command (reply : TrackReply)
  | tick
  | flush (reply : FlushReply)
  | lostReply

/-- What a command adds to the history of pushed clicks. -/
def pushedBy (reply : TrackReply) : TrackPc → List TrackedClick
  | .pushing c => if reply.outcome = .failed then [] else [c]
  | _ => []

def producerStep (e : Event) (q : Queue) (pc : TrackPc) : Option (Queue × TrackPc) :=
  match e with
  | .track call => if pc = .finished then some (q, call.enter) else none
  | .command reply =>
    (trackStep reply q.store pc).map fun d => (⟨d.1, q.pushed ++ pushedBy reply pc⟩, d.2)
  | _ => none

/-- A command of the worker that is executed although its reply never arrives. -/
def loseReply (s : Stores) : FlushPc → Option (Stores × FlushPc)
  | .popping (n + 1) events => some ({ s with buffer := s.buffer.tail }, .popping n events)
  | .requeueing raw _ => some (s.push [raw], .idle)
  | _ => none

/-- `isRunning` keeps a second flush from starting. -/
def workerStep (batchSize : ℕ) (e : Event) (s : Stores) (pc : FlushPc) :
    Option (Stores × FlushPc) :=
  match e with
  | .tick => some (s, if pc = .idle then .popping batchSize [] else pc)
  | .flush reply => flushStep reply s pc
  | .lostReply => loseReply s pc
  | _ => none

def actorStep (batchSize : ℕ) (e : Event) (q : Queue) : Actor → Option (Queue × Actor)
  | .producer pc => (producerStep e q pc).map fun d => (d.1, .producer d.2)
  | .worker pc => (workerStep batchSize e q.store.toStores pc).map fun d =>
      ({ q with store := { q.store with toStores := d.1 } }, .worker d.2)

def actors (batchSize : ℕ) : Threads Queue Actor Event Empty where
  step := actorStep batchSize
  env e := nomatch e

/-- Nothing was tracked yet. -/
def emptyQueue : Queue := ⟨⟨⟨[], []⟩, fun _ => 0, fun _ => []⟩, []⟩

def atRest {ι κ : Type*} : ι ⊕ κ → Actor :=
  Sum.elim (fun _ => .producer .finished) fun _ => .worker .idle

/-! What one step of a worker can do. -/

inductive FlushMove (s : Stores) (pc : FlushPc) : Stores → FlushPc → Prop
  | keep {pc' : FlushPc} (hheld : held pc' <+: held pc) (hpops : pops pc' ≤ pops pc) :
      FlushMove s pc s pc'
  | pop {raw : JsString} {rest : List JsString} {pc' : FlushPc} (hbuffer : s.buffer = raw :: rest)
      (hheld : held pc' <+: held pc ++ [raw]) (hpops : pops pc' + 1 = pops pc) :
      FlushMove s pc { s with buffer := rest } pc'
  | commit {pc' : FlushPc} (hheld : held pc' = []) (hpops : pops pc' = 0) :
      FlushMove s pc (s.insert (parsedRows (held pc))) pc'
  | requeue {raw : JsString} {rest : List JsString} {pc' : FlushPc} (hheld : held pc = raw :: rest)
      (hrest : held pc' <+: rest) (hpops : pops pc' = 0) : FlushMove s pc (s.push [raw]) pc'

lemma held_enterPersist (events : List JsString) : held (enterPersist events) <+: events := by
  unfold enterPersist
  split_ifs
  · exact List.nil_prefix
  · exact List.prefix_rfl

lemma pops_enterPersist (events : List JsString) : pops (enterPersist events) = 0 := by
  unfold enterPersist
  split_ifs <;> rfl

lemma held_enterRequeue (raws : List JsString) : held (enterRequeue raws) = raws := by
  cases raws <;> rfl

lemma pops_enterRequeue (raws : List JsString) : pops (enterRequeue raws) = 0 := by
  cases raws <;> rfl

lemma flushMove_of_step {reply : FlushReply} {s s' : Stores} {pc pc' : FlushPc}
    (h : flushStep reply s pc = some (s', pc')) : FlushMove s pc s' pc' := by
  revert h
  fun_cases flushStep reply s pc <;> intro h <;> cases h
  case case3 n events raw rest hb => exact .pop hb List.prefix_rfl rfl
  case case5 events =>
    exact .keep (held_enterPersist events) (by rw [pops_enterPersist]; exact Nat.zero_le _)
  case case13 raws => exact .commit rfl rfl
  case case15 raws err =>
    -- only a transient failure leaves something to push back
    apply FlushMove.keep
    · split_ifs
      · rw [held_enterRequeue]
        exact List.prefix_rfl
      · exact List.nil_prefix
    · split_ifs
      · rw [pops_enterRequeue]
        exact le_rfl
      · exact le_rfl
  case case17 raw rest =>
    exact .requeue rfl (by rw [held_enterRequeue]) (pops_enterRequeue rest)
  all_goals exact .keep (by simp [held]) (by simp [pops])

lemma flushMove_of_loseReply {s s' : Stores} {pc pc' : FlushPc}
    (h : loseReply s pc = some (s', pc')) : FlushMove s pc s' pc' := by
  revert h
  fun_cases loseReply s pc <;> intro h <;> cases h
  case case1 n events =>
    obtain ⟨buffer, clicks⟩ := s
    cases buffer with
    | nil => exact .keep List.prefix_rfl (Nat.le_succ n)
    | cons raw rest => exact .pop rfl (List.prefix_append _ _) rfl
  case case2 raw rest => exact .requeue rfl List.nil_prefix rfl

/-- Beyond these moves, a tick may start a flush of an idle worker. -/
lemma workerStep_cases {batchSize : ℕ} {e : Event} {s s' : Stores} {pc pc' : FlushPc}
    (h : workerStep batchSize e s pc = some (s', pc')) :
    (s' = s ∧ pc = .idle ∧ pc' = .popping batchSize []) ∨ FlushMove s pc s' pc' := by
  cases e with
  | tick =>
    cases h
    by_cases hidle : pc = .idle
    · exact .inl ⟨rfl, hidle, if_pos hidle⟩
    · rw [if_neg hidle]
      exact .inr (.keep List.prefix_rfl le_rfl)
  | flush reply => exact .inr (flushMove_of_step h)
  | lostReply => exact .inr (flushMove_of_loseReply h)
  | track | command => cases h

/-! What one step of a producer can do. -/

def tracked : TrackPc → Option TrackedClick
  | .checking c | .counting c | .fingerprinting c _ | .pushing c => some c
  | .finished => none

/-- Is the call past its check of the buffer size? -/
def admitted : TrackPc → Bool
  | .counting _ | .fingerprinting _ _ | .pushing _ => true
  | _ => false

inductive TrackMove (s : Metrics) (pc : TrackPc) :
    Metrics → TrackPc → List TrackedClick → Prop
  | keep {s' : Metrics} {pc' : TrackPc} (hstores : s'.toStores = s.toStores)
      (hnext : pc' = .finished ∨ tracked pc' = tracked pc ∧ admitted pc' = admitted pc) :
      TrackMove s pc s' pc' []
  | check {c : TrackedClick} (hpc : pc = .checking c) (hroom : s.buffer.length < MAX_BUFFER_SIZE) :
      TrackMove s pc s (.counting c) []
  | push {c : TrackedClick} {s' : Metrics} (hpc : pc = .pushing c)
      (hstores : s'.toStores = s.toStores.push [eventPayload c]) : TrackMove s pc s' .finished [c]

lemma trackMove_of_step {reply : TrackReply} {s s' : Metrics} {pc pc' : TrackPc}
    (h : trackStep reply s pc = some (s', pc')) :
    TrackMove s pc s' pc' (pushedBy reply pc) := by
  obtain ⟨outcome, now⟩ := reply
  cases pc with
  | checking c =>
    cases outcome with
    | served =>
      obtain ⟨rfl, rfl⟩ := Prod.mk.inj (Option.some.inj h)
      split_ifs with hfull
      · exact .keep rfl (.inl rfl)
      · exact .check rfl (Nat.lt_of_not_le hfull)
    | failed | lost =>
      cases h
      exact .keep rfl (.inl rfl)
  | counting c | fingerprinting c day =>
    cases outcome with
    | served =>
      cases h
      exact .keep rfl (.inr ⟨rfl, rfl⟩)
    | failed | lost =>
      cases h
      exact .keep rfl (.inl rfl)
  | pushing c =>
    cases outcome with
    | served | lost =>
      cases h
      exact .push rfl rfl
    | failed =>
      cases h
      exact .keep rfl (.inl rfl)
  | finished => cases h

/-- A producer begins a call, or one of its commands is answered. -/
lemma producerStep_cases {e : Event} {q q' : Queue} {pc pc' : TrackPc}
    (h : producerStep e q pc = some (q', pc')) :
    (∃ call, e = .track call ∧ pc = .finished ∧ q' = q ∧ pc' = call.enter) ∨
    ∃ reply s', e = .command reply ∧ trackStep reply q.store pc = some (s', pc') ∧
      q' = ⟨s', q.pushed ++ pushedBy reply pc⟩ := by
  cases e with
  | track call =>
    obtain ⟨hpc, hd⟩ := Option.ite_none_right_eq_some.mp h
    obtain ⟨rfl, rfl⟩ := Prod.mk.inj (Option.some.inj hd)
    exact .inl ⟨call, rfl, hpc, rfl, rfl⟩
  | command reply =>
    obtain ⟨⟨s', pc''⟩, hstep, hd⟩ := Option.map_eq_some_iff.mp h
    obtain ⟨rfl, rfl⟩ := Prod.mk.inj hd
    exact .inr ⟨reply, s', rfl, hstep, rfl⟩
  | tick | flush | lostReply => cases h

/-- What one step of an actor can do. -/
inductive ActorMove (batchSize : ℕ) (q : Queue) : Actor → Queue → Actor → Prop
  | enter (call : TrackCall) :
      ActorMove batchSize q (.producer .finished) q (.producer call.enter)
  | track {s' : Metrics} {pc pc' : TrackPc} {pushed : List TrackedClick}
      (hmove : TrackMove q.store pc s' pc' pushed) :
      ActorMove batchSize q (.producer pc) ⟨s', q.pushed ++ pushed⟩ (.producer pc')
  | start : ActorMove batchSize q (.worker .idle) q (.worker (.popping batchSize []))
  | flush {s' : Stores} {pc pc' : FlushPc} (hmove : FlushMove q.store.toStores pc s' pc') :
      ActorMove batchSize q (.worker pc) { q with store := { q.store with toStores := s' } }
        (.worker pc')

lemma actorMove_of_step {batchSize : ℕ} {e : Event} {q q' : Queue} {actor actor' : Actor}
    (h : actorStep batchSize e q actor = some (q', actor')) :
    ActorMove batchSize q actor q' actor' := by
  cases actor with
  | producer pc =>
    obtain ⟨⟨q'', pc'⟩, hstep, hd⟩ := Option.map_eq_some_iff.mp h
    obtain ⟨rfl, rfl⟩ := Prod.mk.inj hd
    rcases producerStep_cases hstep with ⟨call, -, rfl, rfl, rfl⟩ | ⟨reply, s', -, htrack, rfl⟩
    · exact .enter call
    · exact .track (trackMove_of_step htrack)
  | worker pc =>
    obtain ⟨⟨s', pc'⟩, hstep, hd⟩ := Option.map_eq_some_iff.mp h
    obtain ⟨rfl, rfl⟩ := Prod.mk.inj hd
    rcases workerStep_cases hstep with ⟨rfl, rfl, rfl⟩ | hmove
    · exact .start
    · exact .flush hmove

lemma admitted_enter (call : TrackCall) : admitted call.enter = false := by
  unfold TrackCall.enter
  split_ifs <;> rfl

/-! No event becomes two. -/

/-- The events that an actor holds in memory. -/
def heldBy : Actor → Multiset JsString
  | .producer _ => 0
  | .worker pc => held pc

/-- Every row is a valid event that was inserted; together with the queued and the held
events, `total`, they are no more than was pushed. -/
def Conserved (q : Queue) (total : Multiset JsString) : Prop :=
  ∃ inserted : List JsString, (∀ raw ∈ inserted, (parseEvent raw).isSome) ∧
    q.store.clicks = parsedRows inserted ∧
    (inserted : Multiset JsString) + q.store.buffer + total ≤
      (q.pushed.map eventPayload : List JsString)

lemma coe_le_of_prefix {raws raws' : List JsString} (h : raws <+: raws') :
    (raws : Multiset JsString) ≤ raws' := Multiset.coe_le.mpr h.sublist.subperm

lemma coe_cons (raw : JsString) (raws : List JsString) :
    ((raw :: raws : List JsString) : Multiset JsString) = {raw} + raws := by
  rw [← Multiset.cons_coe, Multiset.singleton_add]

lemma parsedRows_append (raws raws' : List JsString) :
    parsedRows (raws ++ raws') = parsedRows raws ++ parsedRows raws' := by
  simp [parsedRows]

lemma FlushMove.conserved {q : Queue} {s' : Stores} {pc pc' : FlushPc}
    {others : Multiset JsString} (hmove : FlushMove q.store.toStores pc s' pc')
    (h : Conserved q (held pc + others)) :
    Conserved { q with store := { q.store with toStores := s' } } (held pc' + others) := by
  obtain ⟨inserted, hvalid, hclicks, hle⟩ := h
  cases hmove with
  | keep hheld hpops =>
    refine ⟨inserted, hvalid, hclicks, le_trans ?_ hle⟩
    have := coe_le_of_prefix hheld
    gcongr
  | @pop raw rest pc' hbuffer hheld hpops =>
    refine ⟨inserted, hvalid, hclicks, le_trans ?_ hle⟩
    have hle' := coe_le_of_prefix hheld
    rw [hbuffer]
    calc (inserted : Multiset JsString) + rest + (held pc' + others)
        ≤ inserted + rest + ((held pc ++ [raw] : List JsString) + others) := by gcongr
      _ = inserted + (raw :: rest : List JsString) + (held pc + others) := by
          rw [← Multiset.coe_add, coe_cons raw rest, Multiset.coe_singleton]
          abel
  | commit hheld hpops =>
    -- the malformed events of the batch are dropped, the others become rows
    refine ⟨inserted ++ (held pc).filter fun raw => (parseEvent raw).isSome, ?_, ?_,
      le_trans ?_ hle⟩
    · intro raw hraw
      rcases List.mem_append.mp hraw with hraw | hraw
      · exact hvalid raw hraw
      · exact (List.mem_filter.mp hraw).2
    · rw [parsedRows_append, parsedRows_filter_isSome, ← hclicks]
      rfl
    · have hfilter : (((held pc).filter fun raw => (parseEvent raw).isSome :
          List JsString) : Multiset JsString) ≤ held pc :=
        Multiset.coe_le.mpr List.filter_sublist.subperm
      rw [hheld, ← Multiset.coe_add]
      calc (inserted : Multiset JsString) +
            ((held pc).filter fun raw => (parseEvent raw).isSome : List JsString) +
              q.store.buffer + (([] : List JsString) + others)
          ≤ inserted + held pc + q.store.buffer + (([] : List JsString) + others) := by gcongr
        _ = inserted + q.store.buffer + (held pc + others) := by
            rw [Multiset.coe_nil]
            abel
  | @requeue raw rest pc' hheld hrest hpops =>
    refine ⟨inserted, hvalid, hclicks, le_trans ?_ hle⟩
    have hle' := coe_le_of_prefix hrest
    rw [hheld, coe_cons]
    calc (inserted : Multiset JsString) + (q.store.buffer ++ [raw] : List JsString) +
          (held pc' + others)
        ≤ inserted + (q.store.buffer ++ [raw] : List JsString) + (rest + others) := by gcongr
      _ = inserted + q.store.buffer + ({raw} + rest + others) := by
          rw [← Multiset.coe_add, Multiset.coe_singleton]
          abel

lemma TrackMove.conserved {q : Queue} {s' : Metrics} {pc pc' : TrackPc}
    {pushed : List TrackedClick} {total : Multiset JsString}
    (hmove : TrackMove q.store pc s' pc' pushed) (h : Conserved q total) :
    Conserved ⟨s', q.pushed ++ pushed⟩ total := by
  obtain ⟨inserted, hvalid, hclicks, hle⟩ := h
  have hstores : s'.toStores = q.store.toStores.push (pushed.map eventPayload) := by
    cases hmove with
    | keep hstores _ => simp [hstores, Stores.push]
    | check => simp [Stores.push]
    | push _ hstores => exact hstores
  refine ⟨inserted, hvalid, by rw [hstores]; exact hclicks, ?_⟩
  rw [hstores, List.map_append, ← Multiset.coe_add]
  calc (inserted : Multiset JsString) +
        (q.store.buffer ++ pushed.map eventPayload : List JsString) + total
      = inserted + q.store.buffer + total + (pushed.map eventPayload : List JsString) := by
        rw [← Multiset.coe_add]
        abel
    _ ≤ (q.pushed.map eventPayload : List JsString) +
          (pushed.map eventPayload : List JsString) := by gcongr

lemma ActorMove.conserved {batchSize : ℕ} {q q' : Queue} {actor actor' : Actor}
    {others : Multiset JsString} (hmove : ActorMove batchSize q actor q' actor')
    (h : Conserved q (heldBy actor + others)) : Conserved q' (heldBy actor' + others) := by
  cases hmove with
  | enter | start => exact h
  | track hmove => exact hmove.conserved h
  | flush hmove => exact hmove.conserved h

/-! The buffer does not grow without bound. -/

/-- What an actor may still push without another check. -/
def load : Actor → ℕ
  | .producer pc => if admitted pc then 1 else 0
  | .worker pc => (held pc).length

def capacity (batchSize : ℕ) : Actor → ℕ
  | .producer _ => 1
  | .worker _ => batchSize

/-- A worker never holds more than one batch. -/
def Fits (batchSize : ℕ) : Actor → Prop
  | .producer _ => True
  | .worker pc => (held pc).length + pops pc ≤ batchSize

lemma load_le_capacity {batchSize : ℕ} {actor : Actor} (h : Fits batchSize actor) :
    load actor ≤ capacity batchSize actor := by
  cases actor with
  | producer pc =>
    simp only [load, capacity]
    split_ifs <;> omega
  | worker pc =>
    simp only [Fits] at h
    simp only [load, capacity]
    omega

lemma FlushMove.load_le {s s' : Stores} {pc pc' : FlushPc} (h : FlushMove s pc s' pc') :
    s'.buffer.length + (held pc').length ≤ s.buffer.length + (held pc).length ∧
      (held pc').length + pops pc' ≤ (held pc).length + pops pc := by
  cases h with
  | keep hheld hpops =>
    have hle := hheld.length_le
    omega
  | pop hbuffer hheld hpops =>
    have hle := hheld.length_le
    rw [List.length_append, List.length_singleton] at hle
    rw [hbuffer, List.length_cons]
    dsimp only
    omega
  | commit hheld hpops =>
    rw [hheld, hpops]
    exact ⟨by simp [Stores.insert], Nat.zero_le _⟩
  | requeue hheld hrest hpops =>
    have hle := hrest.length_le
    rw [hheld, List.length_cons]
    simp only [Stores.push, List.length_append, List.length_singleton]
    omega

/-- A step keeps an actor within its capacity, and what is queued or on its way to the queue
grows only where the buffer is below its limit. -/
lemma ActorMove.load_le {batchSize : ℕ} {q q' : Queue} {actor actor' : Actor}
    (hmove : ActorMove batchSize q actor q' actor') (hfits : Fits batchSize actor) :
    Fits batchSize actor' ∧ capacity batchSize actor' = capacity batchSize actor ∧
      (q'.store.buffer.length + load actor' ≤ q.store.buffer.length + load actor ∨
        q'.store.buffer.length < MAX_BUFFER_SIZE) := by
  cases hmove with
  | enter call =>
    refine ⟨trivial, rfl, .inl ?_⟩
    rw [load, admitted_enter]
    exact Nat.le_add_right _ _
  | track hmove =>
    refine ⟨trivial, rfl, ?_⟩
    cases hmove with
    | keep hstores hnext =>
      left
      rw [hstores]
      rcases hnext with rfl | ⟨-, hadmitted⟩
      · exact Nat.le_add_right _ _
      · rw [load, load, hadmitted]
    | check hpc hroom => exact .inr hroom
    | push hpc hstores =>
      left
      rw [hstores, hpc]
      simp [Stores.push, load, admitted]
  | start =>
    refine ⟨?_, rfl, .inl le_rfl⟩
    simp [Fits, held, pops]
  | flush hmove =>
    obtain ⟨hload, hheld⟩ := hmove.load_le
    exact ⟨hheld.trans hfits, rfl, .inl hload⟩

/-- The actors' loads and what they leave of their capacities add up to `limit`; queued and
loaded events stay within it beyond the last admission. -/
def Bounded (limit : ℕ) (q : Queue) (total : ℕ × ℕ) : Prop :=
  total.1 + total.2 = limit ∧
    q.store.buffer.length + total.1 ≤ MAX_BUFFER_SIZE - 1 + limit

def share (batchSize : ℕ) (actor : Actor) : ℕ × ℕ :=
  (load actor, capacity batchSize actor - load actor)

lemma ActorMove.bounded {batchSize limit : ℕ} {q q' : Queue} {actor actor' : Actor}
    {others : ℕ × ℕ} (hmove : ActorMove batchSize q actor q' actor')
    (hfits : Fits batchSize actor) (h : Bounded limit q (share batchSize actor + others)) :
    Fits batchSize actor' ∧ Bounded limit q' (share batchSize actor' + others) := by
  obtain ⟨hfits', hcapacity, hload⟩ := hmove.load_le hfits
  obtain ⟨hsum, hbuffer⟩ := h
  refine ⟨hfits', ?_⟩
  have hle := load_le_capacity hfits
  have hle' := load_le_capacity hfits'
  simp only [share, Prod.fst_add, Prod.snd_add] at hsum hbuffer
  simp only [Bounded, share, Prod.fst_add, Prod.snd_add]
  rw [hcapacity] at hle' ⊢
  omega

section Runs
variable {ι κ : Type*} [DecidableEq ι] [DecidableEq κ] [Fintype ι] [Fintype κ] {batchSize : ℕ}

/-- Whatever fails, no event is inserted twice, nor queued or held once it is a row. -/
theorem no_duplicated_click {d : Queue × (ι ⊕ κ → Actor)}
    (h : ((actors batchSize).system (ι ⊕ κ)).Reaches (emptyQueue, atRest) d) :
    Conserved d.1 (∑ i, heldBy (d.2 i)) := by
  refine (Threads.total_invariant (fun _ => True) heldBy Conserved ?_ (fun e => e.elim) h
    (fun _ => trivial) ?_).2
  · intro e q actor q' actor' others _ hq hstep
    exact ⟨trivial, (actorMove_of_step hstep).conserved hq⟩
  · refine ⟨[], by simp, rfl, ?_⟩
    have hheld : ∀ i : ι ⊕ κ, heldBy (atRest i) = 0 := by
      intro i
      cases i <;> rfl
    simp [emptyQueue, hheld]

/-- One click is pushed and popped, its INSERT loses the connection, and it is pushed back. -/
def requeuedClick : List ((Fin 1 ⊕ Fin 1) × Event ⊕ Empty) :=
  .inl (.inl 0, .track ⟨js "1", js "127.0.0.1", js "agent", [], 0⟩) ::
    List.replicate 4 (.inl (.inl 0, .command ⟨.served, 0⟩)) ++
    .inl (.inr 0, .tick) :: List.replicate 4 (.inl (.inr 0, .flush .done)) ++
    .inl (.inr 0, .flush (.fail ⟨some (js "08006"), []⟩)) ::
      List.replicate 2 (.inl (.inr 0, .flush .done))

lemma run_requeuedClick : ∃ d,
    ((actors 1).system (Fin 1 ⊕ Fin 1)).run requeuedClick (emptyQueue, atRest) = some d ∧
    d.1.pushed.length = 1 ∧ d.1.store.buffer.length = 1 := by
  have hrun : (((actors 1).system (Fin 1 ⊕ Fin 1)).run requeuedClick
      (emptyQueue, atRest)).map (fun d => (d.1.pushed.length, d.1.store.buffer.length)) =
      some (1, 1) := by decide +kernel
  obtain ⟨d, hd, hlengths⟩ := Option.map_eq_some_iff.mp hrun
  exact ⟨d, hd, congrArg Prod.fst hlengths, congrArg Prod.snd hlengths⟩

theorem no_duplicated_click_requeuedClick : ∃ d : Queue × (Fin 1 ⊕ Fin 1 → Actor),
    ((actors 1).system (Fin 1 ⊕ Fin 1)).run requeuedClick (emptyQueue, atRest) = some d ∧
    d.1.pushed.length = 1 ∧ d.1.store.buffer.length = 1 ∧
    Conserved d.1 (∑ i, heldBy (d.2 i)) := by
  obtain ⟨d, hd, hpushed, hbuffer⟩ := run_requeuedClick
  exact ⟨d, hd, hpushed, hbuffer, no_duplicated_click ⟨requeuedClick, hd⟩⟩

/-- With at most `k` calls in flight and `N` workers the buffer never holds more than its
limit admits, the calls and one batch of each worker. -/
theorem buffer_bounded {k N : ℕ} {d : Queue × (Fin k ⊕ Fin N → Actor)}
    (h : ((actors batchSize).system (Fin k ⊕ Fin N)).Reaches (emptyQueue, atRest) d) :
    d.1.store.buffer.length ≤ MAX_BUFFER_SIZE - 1 + k + N * batchSize := by
  have hinit : ∑ i : Fin k ⊕ Fin N, share batchSize (atRest i) = (0, k + N * batchSize) := by
    rw [Fintype.sum_sum_type]
    ext
    · simp [atRest, share, load, admitted, held]
    · simp [atRest, share, load, capacity, admitted, held]
  have hbounded := (Threads.total_invariant (Fits batchSize) (share batchSize)
    (Bounded (k + N * batchSize))
    (fun e q actor q' actor' others hfits hq hstep =>
      (actorMove_of_step hstep).bounded hfits hq) (fun e => e.elim) h (fun i => ?_) ?_).2
  · obtain ⟨-, hle⟩ := hbounded
    omega
  · cases i with
    | inl i => trivial
    | inr i => exact Nat.zero_le _
  · rw [hinit]
    exact ⟨Nat.zero_add _, Nat.zero_le _⟩

theorem buffer_bounded_requeuedClick : ∃ d : Queue × (Fin 1 ⊕ Fin 1 → Actor),
    ((actors 1).system (Fin 1 ⊕ Fin 1)).run requeuedClick (emptyQueue, atRest) = some d ∧
    d.1.pushed.length = 1 ∧ d.1.store.buffer.length = 1 ∧
    d.1.store.buffer.length ≤ MAX_BUFFER_SIZE - 1 + 1 + 1 * 1 := by
  obtain ⟨d, hd, hpushed, hbuffer⟩ := run_requeuedClick
  exact ⟨d, hd, hpushed, hbuffer, buffer_bounded ⟨requeuedClick, hd⟩⟩

end Runs

end UrlShortener.ClickQueue
