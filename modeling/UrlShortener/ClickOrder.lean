import UrlShortener.ClickQueue
import UrlShortener.ClickConsumers

/-! The order of the clicks: any number of producers and one flush worker. Rows come in the order
in which their events were pushed, as long as nothing is pushed back. -/
namespace UrlShortener.ClickQueue
open Js Transition FlushWorker Analytics
open Shutdown (held)
open ClickConsumers (Tracked workerRow tracked_click parsedRows_payloads)

/-- No transient error makes the worker push its batch back. -/
def Event.Orderly (e : Event) : Prop := ∀ err, e = .flush (.fail err) → isTransient err = false

/-- Every command and every query of the worker is answered with success. -/
def Event.AllServed : Event → Prop
  | .flush reply => reply = .done
  | .lostReply => False
  | .track _ | .command _ | .tick => True

lemma Event.AllServed.orderly {e : Event} (h : e.AllServed) : e.Orderly := by
  rintro err rfl
  cases h

/-- The worker pushes nothing back and is not about to. -/
def Steady : FlushPc → Prop
  | .requeueing _ _ => False
  | .rollingBack _ err => isTransient err = false
  | _ => True

/-- No query of the worker has failed. -/
def Smooth : FlushPc → Prop
  | .requeueing _ _ | .rollingBack _ _ => False
  | _ => True

/-! One step of the worker. -/

lemma smooth_enterPersist (events : List JsString) : Smooth (enterPersist events) := by
  unfold enterPersist
  split_ifs <;> trivial

lemma Smooth.steady {pc : FlushPc} (h : Smooth pc) : Steady pc := by
  cases pc with
  | requeueing | rollingBack => cases h
  | idle | popping | connecting | beginning | inserting | committing => trivial

lemma steady_flushStep {reply : FlushReply} {s s' : Stores} {pc pc' : FlushPc}
    (hreply : ∀ err, reply = .fail err → isTransient err = false) (hpc : Steady pc)
    (h : flushStep reply s pc = some (s', pc')) : Steady pc' := by
  revert h hpc
  fun_cases flushStep reply s pc <;> intro hpc h <;> cases h
  case case5 events => exact (smooth_enterPersist events).steady
  case case10 rawEvents err | case12 rawEvents err | case14 rawEvents err => exact hreply err rfl
  case case15 rawEvents err =>
    have hnot : isTransient err = false := hpc
    rw [if_neg (by simp [hnot])]
    trivial
  case case17 | case18 => exact hpc.elim
  all_goals trivial

lemma steady_loseReply {s s' : Stores} {pc pc' : FlushPc} (hpc : Steady pc)
    (h : loseReply s pc = some (s', pc')) : Steady pc' := by
  revert h hpc
  fun_cases loseReply s pc <;> intro hpc h <;> cases h
  all_goals trivial

/-- With success the worker hands on what it holds or turns it into rows. -/
lemma served_flushStep {s s' : Stores} {pc pc' : FlushPc} (hpc : Smooth pc)
    (h : flushStep .done s pc = some (s', pc')) : Smooth pc' ∧ ∃ gone,
      held pc ++ s.buffer = gone ++ held pc' ++ s'.buffer ∧
      s'.clicks = s.clicks ++ parsedRows gone := by
  obtain ⟨buffer, clicks⟩ := s
  cases pc with
  | idle => cases h
  | requeueing | rollingBack => cases hpc
  | popping n events =>
    cases n with
    | zero =>
      obtain ⟨rfl, rfl⟩ := Prod.mk.inj (Option.some.inj h)
      refine ⟨smooth_enterPersist events, ?_⟩
      unfold enterPersist
      by_cases hrows : parsedRows events = []
      · rw [if_pos hrows]
        exact ⟨events, by simp [held], by simp [hrows]⟩
      · rw [if_neg hrows]
        exact ⟨[], by simp [held], by simp [parsedRows]⟩
    | succ n =>
      cases buffer with
      | nil =>
        cases h
        exact ⟨trivial, [], by simp [held], by simp [parsedRows]⟩
      | cons raw rest =>
        cases h
        exact ⟨trivial, [], by simp [held], by simp [parsedRows]⟩
  | connecting rawEvents | beginning rawEvents | inserting rawEvents =>
    cases h
    exact ⟨trivial, [], by simp [held], by simp [parsedRows]⟩
  | committing rawEvents =>
    cases h
    refine ⟨trivial, rawEvents, ?_, rfl⟩
    change rawEvents ++ buffer = rawEvents ++ [] ++ buffer
    rw [List.append_nil]

/-! Only pushing back makes the buffer longer. -/

lemma flushStep_buffer_le {reply : FlushReply} {s s' : Stores} {pc pc' : FlushPc}
    (hpc : Steady pc) (h : flushStep reply s pc = some (s', pc')) :
    s'.buffer.length ≤ s.buffer.length := by
  revert h hpc
  fun_cases flushStep reply s pc <;> intro hpc h <;> cases h
  case case3 n events raw rest hb =>
    rw [hb]
    exact Nat.le_succ _
  case case17 => exact hpc.elim
  all_goals exact le_rfl

lemma loseReply_buffer_le {s s' : Stores} {pc pc' : FlushPc} (hpc : Steady pc)
    (h : loseReply s pc = some (s', pc')) : s'.buffer.length ≤ s.buffer.length := by
  revert h hpc
  fun_cases loseReply s pc <;> intro hpc h <;> cases h
  case case1 => simp
  case case2 => exact hpc.elim

lemma workerStep_buffer_le {e : Event} {batchSize : ℕ} {s s' : Stores} {pc pc' : FlushPc}
    (hpc : Steady pc) (h : workerStep batchSize e s pc = some (s', pc')) :
    s'.buffer.length ≤ s.buffer.length := by
  cases e with
  | tick =>
    obtain ⟨rfl, -⟩ := Prod.mk.inj (Option.some.inj h)
    exact le_rfl
  | flush reply => exact flushStep_buffer_le hpc h
  | lostReply => exact loseReply_buffer_le hpc h
  | track | command => cases h

lemma steady_workerStep {batchSize : ℕ} {e : Event} {s s' : Stores} {pc pc' : FlushPc}
    (he : e.Orderly) (hpc : Steady pc) (h : workerStep batchSize e s pc = some (s', pc')) :
    Steady pc' := by
  cases e with
  | tick =>
    obtain ⟨-, rfl⟩ := Prod.mk.inj (Option.some.inj h)
    split_ifs
    · trivial
    · exact hpc
  | flush reply => exact steady_flushStep (fun err hfail => he err (congrArg _ hfail)) hpc h
  | lostReply => exact steady_loseReply hpc h
  | track | command => cases h

/-! Whole runs. -/

variable {ι : Type} [DecidableEq ι] {batchSize : ℕ}

/-- The rows come from events that, with those held and queued, stand to the pushed ones as `R`
says. -/
structure Ordered (R : List JsString → List JsString → Prop) (P : FlushPc → Prop)
    (c : Queue × (ι ⊕ Unit → Actor)) : Prop where
  producers : ∀ i, ∃ pc, c.2 (.inl i) = .producer pc
  worker : ∃ pc gone, c.2 (.inr ()) = .worker pc ∧ P pc ∧ c.1.store.clicks = parsedRows gone ∧
    R (gone ++ held pc ++ c.1.store.buffer) (c.1.pushed.map eventPayload)

/-- A producer adds at the end of the buffer what it has pushed. -/
lemma producer_appends {e : Event} {q q' : Queue} {pc : TrackPc} {actor' : Actor}
    (h : actorStep batchSize e q (.producer pc) = some (q', actor')) : ∃ pc' new,
      actor' = .producer pc' ∧ q'.store.clicks = q.store.clicks ∧
      q'.store.buffer = q.store.buffer ++ new.map eventPayload ∧ q'.pushed = q.pushed ++ new := by
  have hmove := actorMove_of_step h
  cases hmove with
  | enter call => exact ⟨call.enter, [], rfl, rfl, by simp, by simp⟩
  | @track s' _ pc' pushed hmove =>
    refine ⟨pc', pushed, rfl, ?_⟩
    cases hmove with
    | keep hstores hnext =>
      dsimp only
      rw [hstores]
      simp
    | check => simp
    | push hpc hstores =>
      dsimp only
      rw [hstores]
      simp [Stores.push]

/-- `R` goes on to hold where both sides get longer at their ends, and through every allowed step
of the worker, which may insert some of what it holds. -/
structure Maintains (batchSize : ℕ) (allowed : Event → Prop)
    (R : List JsString → List JsString → Prop) (P : FlushPc → Prop) : Prop where
  append : ∀ {a b : List JsString} (x : List JsString), R a b → R (a ++ x) (b ++ x)
  worker : ∀ {e s s' pc pc' gone pushed}, allowed e → P pc →
    R (gone ++ held pc ++ s.buffer) pushed → workerStep batchSize e s pc = some (s', pc') →
    P pc' ∧ ∃ more, s'.clicks = s.clicks ++ parsedRows more ∧
      R (gone ++ more ++ held pc' ++ s'.buffer) pushed

section Ordered
variable {allowed : Event → Prop} {R : List JsString → List JsString → Prop} {P : FlushPc → Prop}
  {c d : Queue × (ι ⊕ Unit → Actor)}

lemma Ordered.next (hR : Maintains batchSize allowed R P) {j : ι ⊕ Unit} {e : Event}
    (he : allowed e) (hc : Ordered R P c)
    (hn : ((actors batchSize).system (ι ⊕ Unit)).next (.inl (j, e)) c = some d) :
    Ordered R P d := by
  obtain ⟨q', actor', hs, rfl⟩ := Threads.next_thread hn
  obtain ⟨pc, gone, hpc, hP, hclicks, horder⟩ := hc.worker
  cases j with
  | inl i =>
    obtain ⟨tpc, htpc⟩ := hc.producers i
    rw [htpc] at hs
    have hs : actorStep batchSize e c.1 (.producer tpc) = some (q', actor') := hs
    obtain ⟨tpc', new, rfl, hclicks', hbuffer, hpushed⟩ := producer_appends hs
    refine ⟨fun k => ?_, pc, gone, ?_, hP, hclicks'.trans hclicks, ?_⟩
    · by_cases hk : k = i
      · exact ⟨tpc', by simp [hk]⟩
      · obtain ⟨kpc, hkpc⟩ := hc.producers k
        exact ⟨kpc, by simpa [hk] using hkpc⟩
    · simpa using hpc
    · dsimp only
      rw [hbuffer, hpushed, List.map_append, ← List.append_assoc]
      exact hR.append _ horder
  | inr u =>
    cases u
    rw [hpc] at hs
    obtain ⟨⟨s', pc'⟩, hstep, hd⟩ := Option.map_eq_some_iff.mp hs
    obtain ⟨rfl, rfl⟩ := Prod.mk.inj hd
    obtain ⟨hP', more, hclicks', horder'⟩ := hR.worker he hP horder hstep
    refine ⟨fun k => ?_, pc', gone ++ more, ?_, hP', ?_, horder'⟩
    · obtain ⟨kpc, hkpc⟩ := hc.producers k
      exact ⟨kpc, by simpa using hkpc⟩
    · simp
    · dsimp only
      rw [hclicks', hclicks, parsedRows_append]

omit [DecidableEq ι] in
lemma ordered_atRest (hR : R [] []) (hP : P .idle) :
    Ordered R P ((emptyQueue, atRest) : Queue × (ι ⊕ Unit → Actor)) :=
  ⟨fun _ => ⟨.finished, rfl⟩, .idle, [], rfl, hP, rfl, hR⟩

lemma Ordered.run (hR : Maintains batchSize allowed R P)
    {as : List ((ι ⊕ Unit) × Event ⊕ Empty)}
    (has : ∀ j e, .inl (j, e) ∈ as → allowed e) (hc : Ordered R P c)
    (h : ((actors batchSize).system (ι ⊕ Unit)).run as c = some d) : Ordered R P d := by
  refine System.run_invariant_on (fun a ha s t hs hn => ?_) h hc
  cases a with
  | inr e => cases e
  | inl a =>
    obtain ⟨j, e⟩ := a
    exact hs.next hR (has j e ha) hn

end Ordered

/-- A batch may get lost, but what remains keeps its place. -/
lemma sublist_workerStep {e : Event} {s s' : Stores} {pc pc' : FlushPc}
    {gone pushed : List JsString} (he : e.Orderly) (hpc : Steady pc)
    (horder : (gone ++ held pc ++ s.buffer).Sublist pushed)
    (h : workerStep batchSize e s pc = some (s', pc')) : Steady pc' ∧ ∃ more,
      s'.clicks = s.clicks ++ parsedRows more ∧
      (gone ++ more ++ held pc' ++ s'.buffer).Sublist pushed := by
  refine ⟨steady_workerStep he hpc h, ?_⟩
  rcases workerStep_cases h with ⟨rfl, rfl, rfl⟩ | hmove
  · exact ⟨[], by simp [parsedRows], by simpa [held] using horder⟩
  · cases hmove with
    | keep hheld hpops =>
      refine ⟨[], by simp [parsedRows], List.Sublist.trans ?_ horder⟩
      rw [List.append_nil]
      exact (hheld.sublist.append_left gone).append_right _
    | @pop raw rest _ hbuffer hheld hpops =>
      refine ⟨[], by simp [parsedRows], List.Sublist.trans ?_ horder⟩
      rw [hbuffer, List.append_nil, List.append_assoc, List.append_assoc]
      refine List.Sublist.append_left ?_ gone
      have hsub := hheld.sublist.append_right rest
      simpa using hsub
    | commit hheld hpops =>
      refine ⟨held pc, rfl, ?_⟩
      rw [hheld, List.append_nil]
      exact horder
    | @requeue raw rest _ hheld hrest hpops =>
      have hle := workerStep_buffer_le hpc h
      simp [Stores.push] at hle

lemma exact_workerStep {e : Event} {s s' : Stores} {pc pc' : FlushPc}
    {gone pushed : List JsString} (he : e.AllServed) (hpc : Smooth pc)
    (horder : pushed = gone ++ held pc ++ s.buffer)
    (h : workerStep batchSize e s pc = some (s', pc')) : Smooth pc' ∧ ∃ more,
      s'.clicks = s.clicks ++ parsedRows more ∧
      pushed = gone ++ more ++ held pc' ++ s'.buffer := by
  cases e with
  | tick =>
    obtain ⟨rfl, rfl⟩ := Prod.mk.inj (Option.some.inj h)
    by_cases hidle : pc = .idle
    · rw [if_pos hidle]
      subst hidle
      exact ⟨trivial, [], by simp [parsedRows], by simpa [held] using horder⟩
    · rw [if_neg hidle]
      exact ⟨hpc, [], by simp [parsedRows], by simpa using horder⟩
  | flush reply =>
    have he : reply = .done := he
    subst he
    obtain ⟨hpc', more, hsplit, hclicks⟩ := served_flushStep hpc h
    refine ⟨hpc', more, hclicks, ?_⟩
    rw [horder, List.append_assoc, hsplit]
    simp only [List.append_assoc]
  | lostReply => cases he
  | track | command => cases h

lemma sublist_maintained : Maintains batchSize Event.Orderly List.Sublist Steady where
  append x hab := hab.append_right x
  worker := sublist_workerStep

lemma equality_maintained :
    Maintains batchSize Event.AllServed (fun kept pushed => pushed = kept) Smooth where
  append x hab := by rw [hab]
  worker := exact_workerStep

/-- With one flush worker and any number of producers, as long as no call of the worker fails with
a transient code: the rows, what the worker holds and what is queued follow one another in the
order in which the clicks were pushed, whatever is lost. -/
theorem rows_in_order {as : List ((ι ⊕ Unit) × Event ⊕ Empty)} {d : Queue × (ι ⊕ Unit → Actor)}
    (h : ((actors batchSize).system (ι ⊕ Unit)).run as (emptyQueue, atRest) = some d)
    (has : ∀ j e, .inl (j, e) ∈ as → e.Orderly) : ∃ pc inserted,
      d.2 (.inr ()) = .worker pc ∧ d.1.store.clicks = parsedRows inserted ∧
      (inserted ++ held pc ++ d.1.store.buffer).Sublist (d.1.pushed.map eventPayload) := by
  have hd := Ordered.run sublist_maintained has (ordered_atRest List.Sublist.slnil trivial) h
  obtain ⟨pc, inserted, hpc, -, hclicks, horder⟩ := hd.worker
  exact ⟨pc, inserted, hpc, hclicks, horder⟩

/-- The visit by `agent` of the URL with id 1, tracked without a failure. -/
def visitBy (agent : String) : List ((Unit ⊕ Unit) × Event ⊕ Empty) :=
  .inl (.inl (), .track ⟨js "1", js "127.0.0.1", js agent, [], 0⟩) ::
    List.replicate 4 (.inl (.inl (), .command ⟨.served, 0⟩))

/-- The next events of the worker. -/
def workerEvents (events : List Event) : List ((Unit ⊕ Unit) × Event ⊕ Empty) :=
  events.map fun e => .inl (.inr (), e)

lemma mem_visitBy {agent : String} {j : Unit ⊕ Unit} {e : Event}
    (h : .inl (j, e) ∈ visitBy agent) :
    e = .track ⟨js "1", js "127.0.0.1", js agent, [], 0⟩ ∨ e = .command ⟨.served, 0⟩ := by
  simp only [visitBy, List.mem_cons, List.mem_replicate, Sum.inl.injEq, Prod.mk.injEq] at h
  rcases h with ⟨-, he⟩ | ⟨-, -, he⟩
  · exact .inl he
  · exact .inr he

lemma mem_workerEvents {events : List Event} {j : Unit ⊕ Unit} {e : Event}
    (h : .inl (j, e) ∈ workerEvents events) : e ∈ events := by
  simp only [workerEvents, List.mem_map, Sum.inl.injEq, Prod.mk.injEq] at h
  obtain ⟨e', he', -, rfl⟩ := h
  exact he'

/-- Three clicks are pushed; the batch of the first violates a constraint, the second becomes a
row and the third is popped. -/
def droppedStoredHeld : List ((Unit ⊕ Unit) × Event ⊕ Empty) :=
  visitBy "a" ++ visitBy "b" ++ visitBy "c" ++ workerEvents
    [.tick, .flush .done, .flush .done, .flush .done, .flush .done,
      .flush (.fail ⟨some (js "23503"), []⟩), .flush .done,
      .tick, .flush .done, .flush .done, .flush .done, .flush .done, .flush .done, .flush .done,
      .tick, .flush .done]

theorem rows_in_order_droppedStoredHeld : ∃ d : Queue × (Unit ⊕ Unit → Actor),
    ((actors 1).system (Unit ⊕ Unit)).run droppedStoredHeld (emptyQueue, atRest) = some d ∧
    d.1.pushed.map TrackedClick.user_agent = [js "a", js "b", js "c"] ∧
    d.1.store.clicks.map ClickRow.user_agent = [js "b"] ∧
    ∃ pc inserted, d.2 (.inr ()) = .worker pc ∧ d.1.store.clicks = parsedRows inserted ∧
      (inserted ++ held pc ++ d.1.store.buffer).Sublist (d.1.pushed.map eventPayload) := by
  have hrun : (((actors 1).system (Unit ⊕ Unit)).run droppedStoredHeld
      (emptyQueue, atRest)).map (fun d => (d.1.pushed.map TrackedClick.user_agent,
        d.1.store.clicks.map ClickRow.user_agent)) =
      some ([js "a", js "b", js "c"], [js "b"]) := by decide +kernel
  obtain ⟨d, hd, hagents⟩ := Option.map_eq_some_iff.mp hrun
  obtain ⟨hpushed, hclicks⟩ := Prod.mk.inj hagents
  refine ⟨d, hd, hpushed, hclicks, rows_in_order hd fun j e he err herr => ?_⟩
  subst herr
  simp only [droppedStoredHeld, List.mem_append] at he
  rcases he with ((he | he) | he) | he
  · simpa using mem_visitBy he
  · simpa using mem_visitBy he
  · simpa using mem_visitBy he
  · have hmem := mem_workerEvents he
    simp only [List.mem_cons, reduceCtorEq, Event.flush.injEq, FlushReply.fail.injEq, false_or,
      List.not_mem_nil, or_false] at hmem
    subst hmem
    decide

/-! Where the clicks come from. -/

def clickOf : Actor → Option TrackedClick
  | .producer pc => tracked pc
  | .worker _ => none

/-- A step pushes at most the click that its actor tracks; only a call with a valid address brings
another click. -/
lemma clickOf_actorStep {e : Event} {q q' : Queue} {actor actor' : Actor}
    (h : actorStep batchSize e q actor = some (q', actor')) :
    (∀ c ∈ q'.pushed, c ∈ q.pushed ∨ clickOf actor = some c) ∧
    ∀ c, clickOf actor' = some c → clickOf actor = some c ∨
      ∃ call, e = .track call ∧ isIP call.ip ≠ 0 ∧ c = call.click := by
  cases actor with
  | worker pc =>
    obtain ⟨⟨s', pc'⟩, -, hd⟩ := Option.map_eq_some_iff.mp h
    obtain ⟨rfl, rfl⟩ := Prod.mk.inj hd
    exact ⟨fun c hc => .inl hc, fun c hc => .inl hc⟩
  | producer pc =>
    obtain ⟨⟨q'', pc'⟩, hstep, hd⟩ := Option.map_eq_some_iff.mp h
    obtain ⟨rfl, rfl⟩ := Prod.mk.inj hd
    rcases producerStep_cases hstep with ⟨call, rfl, rfl, rfl, rfl⟩ | ⟨reply, s', rfl, htrack, rfl⟩
    · refine ⟨fun c hc => .inl hc, fun c hc => .inr ⟨call, rfl, ?_⟩⟩
      simp only [clickOf, TrackCall.enter] at hc
      split_ifs at hc with hip
      · cases hc
      · exact ⟨hip, (Option.some.inj hc).symm⟩
    · have hmove := trackMove_of_step htrack
      generalize pushedBy reply pc = new at hmove ⊢
      cases hmove with
      | keep hstores hnext =>
        refine ⟨fun c hc => .inl (by simpa using hc), fun c hc => .inl ?_⟩
        rcases hnext with rfl | ⟨htracked, -⟩
        · cases hc
        · exact htracked.symm.trans hc
      | @check c' hpc hroom =>
        subst hpc
        exact ⟨fun c hc => .inl (by simpa using hc), fun c hc => .inl hc⟩
      | @push c' _ hpc hstores =>
        subst hpc
        refine ⟨fun c hc => ?_, fun c hc => by cases hc⟩
        rcases List.mem_append.mp hc with hc | hc
        · exact .inl hc
        · exact .inr (congrArg some (List.mem_singleton.mp hc).symm)

/-- What holds of the clicks of all calls holds of those tracked and of those pushed. -/
structure Sourced (P : TrackedClick → Prop) (c : Queue × (ι ⊕ Unit → Actor)) : Prop where
  pushed : ∀ click ∈ c.1.pushed, P click
  tracking : ∀ j click, clickOf (c.2 j) = some click → P click

omit [DecidableEq ι] in
lemma sourced_atRest (P : TrackedClick → Prop) :
    Sourced P ((emptyQueue, atRest) : Queue × (ι ⊕ Unit → Actor)) := by
  refine ⟨by simp [emptyQueue], fun j click h => ?_⟩
  cases j <;> cases h

lemma Sourced.run {P : TrackedClick → Prop} {as : List ((ι ⊕ Unit) × Event ⊕ Empty)}
    {c d : Queue × (ι ⊕ Unit → Actor)}
    (hcalls : ∀ j call, .inl (j, .track call) ∈ as → isIP call.ip ≠ 0 → P call.click)
    (hc : Sourced P c) (h : ((actors batchSize).system (ι ⊕ Unit)).run as c = some d) :
    Sourced P d := by
  refine System.run_invariant_on (fun a ha s t hs hn => ?_) h hc
  cases a with
  | inr e => cases e
  | inl a =>
    obtain ⟨j, e⟩ := a
    obtain ⟨q', actor', hstep, rfl⟩ := Threads.next_thread hn
    obtain ⟨hpushed, htracking⟩ := clickOf_actorStep hstep
    refine ⟨fun click hclick => ?_, fun k click hclick => ?_⟩
    · rcases hpushed click hclick with hold | hown
      · exact hs.pushed click hold
      · exact hs.tracking j click hown
    · by_cases hk : k = j
      · subst hk
        have hclick : clickOf actor' = some click := by simpa using hclick
        rcases htracking click hclick with hown | ⟨call, rfl, hip, rfl⟩
        · exact hs.tracking k click hown
        · exact hcalls k call ha hip
      · exact hs.tracking k click (by simpa [hk] using hclick)

/-- Where every command and query of the worker is answered with success and every call names the
URL by a numeral, no pushed click is lost: the rows are those of the first clicks, one for each, the
worker holds the next ones and the others are queued. -/
theorem rows_complete {as : List ((ι ⊕ Unit) × Event ⊕ Empty)} {d : Queue × (ι ⊕ Unit → Actor)}
    (h : ((actors batchSize).system (ι ⊕ Unit)).run as (emptyQueue, atRest) = some d)
    (has : ∀ j e, .inl (j, e) ∈ as → e.AllServed)
    (hids : ∀ j call, .inl (j, .track call) ∈ as → IsNumeral call.urlId) :
    ∃ pc stored, d.2 (.inr ()) = .worker pc ∧
      d.1.store.clicks = (d.1.pushed.take stored).map workerRow ∧
      held pc ++ d.1.store.buffer = (d.1.pushed.drop stored).map eventPayload := by
  have hd := Ordered.run equality_maintained has (ordered_atRest rfl trivial) h
  obtain ⟨pc, flushed, hpc, -, hclicks, horder⟩ := hd.worker
  have hpushed := (Sourced.run (fun j call hcall hip => tracked_click hip (hids j call hcall))
    (sourced_atRest Tracked) h).pushed
  rw [List.append_assoc] at horder
  have hflushed : (d.1.pushed.take flushed.length).map eventPayload = flushed := by
    rw [List.map_take, horder, List.take_left]
  refine ⟨pc, flushed.length, hpc, ?_, ?_⟩
  · rw [hclicks, ← parsedRows_payloads fun c hc => hpushed c (List.mem_of_mem_take hc), hflushed]
  · rw [List.map_drop, horder, List.drop_left]

/-- Three clicks are pushed; the first becomes a row and the second is popped. -/
def storedHeldQueued : List ((Unit ⊕ Unit) × Event ⊕ Empty) :=
  visitBy "a" ++ visitBy "b" ++ visitBy "c" ++ workerEvents
    [.tick, .flush .done, .flush .done, .flush .done, .flush .done, .flush .done, .flush .done,
      .tick, .flush .done]

lemma mem_storedHeldQueued {j : Unit ⊕ Unit} {e : Event} (h : .inl (j, e) ∈ storedHeldQueued) :
    e.AllServed ∧ ∀ call, e = .track call → IsNumeral call.urlId := by
  have hvisit : ∀ agent, .inl (j, e) ∈ visitBy agent →
      e.AllServed ∧ ∀ call, e = .track call → IsNumeral call.urlId := by
    intro agent he
    rcases mem_visitBy he with rfl | rfl
    · refine ⟨trivial, fun call hcall => ?_⟩
      cases hcall
      exact decimal_digits 1
    · exact ⟨trivial, fun call hcall => by cases hcall⟩
  simp only [storedHeldQueued, List.mem_append] at h
  rcases h with ((he | he) | he) | he
  · exact hvisit _ he
  · exact hvisit _ he
  · exact hvisit _ he
  · have hmem := mem_workerEvents he
    simp only [List.mem_cons, List.not_mem_nil, or_false] at hmem
    refine ⟨?_, fun call hcall => ?_⟩
    · rcases hmem with rfl | rfl | rfl | rfl | rfl | rfl | rfl | rfl | rfl
      all_goals trivial
    · subst hcall
      simp at hmem

theorem rows_complete_storedHeldQueued : ∃ d : Queue × (Unit ⊕ Unit → Actor),
    ((actors 1).system (Unit ⊕ Unit)).run storedHeldQueued (emptyQueue, atRest) = some d ∧
    d.1.pushed.map TrackedClick.user_agent = [js "a", js "b", js "c"] ∧
    d.1.store.clicks.map ClickRow.user_agent = [js "a"] ∧ d.1.store.buffer.length = 1 ∧
    ∃ pc stored, d.2 (.inr ()) = .worker pc ∧
      d.1.store.clicks = (d.1.pushed.take stored).map workerRow ∧
      held pc ++ d.1.store.buffer = (d.1.pushed.drop stored).map eventPayload := by
  have hrun : (((actors 1).system (Unit ⊕ Unit)).run storedHeldQueued
      (emptyQueue, atRest)).map (fun d => (d.1.pushed.map TrackedClick.user_agent,
        d.1.store.clicks.map ClickRow.user_agent, d.1.store.buffer.length)) =
      some ([js "a", js "b", js "c"], [js "a"], 1) := by decide +kernel
  obtain ⟨d, hd, hvalues⟩ := Option.map_eq_some_iff.mp hrun
  obtain ⟨hpushed, hrest⟩ := Prod.mk.inj hvalues
  obtain ⟨hclicks, hbuffer⟩ := Prod.mk.inj hrest
  refine ⟨d, hd, hpushed, hclicks, hbuffer, rows_complete hd ?_ ?_⟩
  · exact fun j e he => (mem_storedHeldQueued he).1
  · exact fun j call he => (mem_storedHeldQueued he).2 call rfl

end UrlShortener.ClickQueue
