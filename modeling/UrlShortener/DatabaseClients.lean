import UrlShortener.ResourcePool
import UrlShortener.StorableClicks

/-! The calls, visits and flushes of one process over its pool of database clients: no client is
lost, nobody waits for one for ever, and every call settles. -/
namespace UrlShortener.DatabaseClients
open Js Transition FlushWorker Analytics ClickQueue UrlService StorableClicks ResourcePool
open Validation (Joi)

/-! How a task uses the pool. -/

def shortenConnects : ShortenPc → Bool
  | .connecting => true
  | _ => false

/-- Inside the `try` block of `shortenUrl`, whose `finally` block releases the client: also while
the cache is warmed, and during the ROLLBACK. -/
def shortenHolds : ShortenPc → Bool
  | .connecting | .returned _ | .rejected _ => false
  | _ => true

/-- The `pool.query` of `resolveUrl` has its client for the time of the query. -/
def resolveConnects : ResolvePc → Bool
  | .selecting => true
  | _ => false

def flushConnects : FlushPc → Bool
  | .connecting _ => true
  | _ => false

/-- `persistBatch` releases its client after it has pushed the batch back. -/
def flushHolds : FlushPc → Bool
  | .idle | .popping _ _ | .connecting _ => false
  | _ => true

def holds : Task → Bool
  | .call (.shorten _ _ pc) => shortenHolds pc
  | .worker pc => flushHolds pc
  | _ => false

def connects : Task → Bool
  | .call (.shorten _ _ pc) => shortenConnects pc
  | .call (.resolve _ pc) | .visit _ _ pc => resolveConnects pc
  | .worker pc => flushConnects pc
  | _ => false

def usage : Usage Task := ⟨fun task => (holds task).toNat, connects⟩

def replyFailed : Reply → Bool
  | .fail _ _ => true
  | _ => false

def flushFailed : FlushReply → Bool
  | .fail _ => true
  | .done => false

/-- An error. A call that waits for a client gets one after `connectionTimeoutMillis`. -/
def failed : TaskEvent → Bool
  | .call (.reply reply) | .resolve reply => replyFailed reply
  | .worker (.flush reply) => flushFailed reply
  | _ => false

/-- Something new is begun: a call, a visit, or a flush on a tick. -/
def starts : TaskEvent → Bool
  | .call (.shorten _ _) | .call (.resolve _) | .visit _ | .worker .tick => true
  | _ => false

/-- The tasks of one process. Other processes may change the stores at any time. -/
def process (joi : Joi) (host : Host) (batchSize : ℕ) : Threads Service Task TaskEvent Service where
  step := taskStep joi host batchSize
  env s _ := some s

/-- No client is lent. -/
def opened (size : ℕ) {ι κ : Type*} : Stock Service × (ι ⊕ κ → Tenant Task) :=
  (⟨emptyService, size⟩, fun i => ⟨atStart i, false⟩)

/-! The replies that a task may still have to wait for. -/

def shortenAwaits : ShortenPc → ℕ
  | .connecting => 7
  | .beginning => 6
  | .fetchingId => 5
  | .inserting _ _ => 4
  | .committing _ => 3
  | .warming _ _ => 2
  | .rollingBack _ => 1
  | .returned _ | .rejected _ => 0

/-- The LPOP commands of the pipeline, its reply, the five calls of `persistBatch` and an RPUSH for
each event that may have to be pushed back. -/
def flushAwaits : FlushPc → ℕ
  | .idle => 0
  | .popping remaining events => 2 * remaining + events.length + 6
  | .connecting rawEvents => rawEvents.length + 5
  | .beginning rawEvents => rawEvents.length + 4
  | .inserting rawEvents => rawEvents.length + 3
  | .committing rawEvents => rawEvents.length + 2
  | .rollingBack rawEvents _ => rawEvents.length + 1
  | .requeueing _ rest => rest.length + 1

def trackAwaits : TrackPc → ℕ
  | .checking _ => 4
  | .counting _ => 3
  | .fingerprinting _ _ => 2
  | .pushing _ => 1
  | .finished => 0

/-- A visit answers, and its click is tracked, after the resolution. -/
def awaits : Task → ℕ
  | .call .idle => 0
  | .call (.shorten _ _ pc) => shortenAwaits pc
  | .call (.resolve _ pc) => pc.awaits
  | .visit _ _ pc => pc.awaits + 5
  | .tracking pc => trackAwaits pc
  | .worker pc => flushAwaits pc

/-! What one step does to the client of its task. -/

/-- A task comes to have a client only by the answer to `pool.connect()`, and an error brings it
none. -/
def Modest (held connecting failed held' : Bool) : Prop :=
  held' = true → held = true ∨ connecting = true ∧ failed = false

lemma Modest.toNat_le {held connecting failed held' : Bool}
    (h : Modest held connecting failed held') : held'.toNat ≤ held.toNat + connecting.toNat ∧
      (failed = true → held'.toNat ≤ held.toNat) := by
  cases held' with
  | false => exact ⟨Nat.zero_le _, fun _ => Nat.zero_le _⟩
  | true =>
    rcases h rfl with rfl | ⟨rfl, rfl⟩
    · exact ⟨Nat.le_add_right _ _, fun _ => le_rfl⟩
    · exact ⟨Nat.le_add_left _ _, fun hfailed => Bool.noConfusion hfailed⟩

section Steps
variable {joi : Joi} {host : Host} {batchSize : ℕ} {u a : JsString} {o : Option JsString}

lemma shortenStep_modest {db db' : Db} {reply : Reply} {pc pc' : ShortenPc}
    (h : shortenStep u o reply db pc = some (db', pc')) :
    Modest (shortenHolds pc) (shortenConnects pc) (replyFailed reply) (shortenHolds pc') ∧
      shortenAwaits pc' < shortenAwaits pc := by
  revert h
  fun_cases shortenStep u o reply db pc <;> intro h <;> cases h <;>
    exact ⟨by simp [Modest, shortenHolds, shortenConnects, replyFailed], by simp [shortenAwaits]⟩

lemma resolveStep_awaits {db db' : Db} {reply : Reply} {pc pc' : ResolvePc}
    (h : resolveStep host a reply db pc = some (db', pc')) : pc'.awaits < pc.awaits := by
  revert h
  fun_cases resolveStep host a reply db pc <;> intro h <;> cases h <;> simp [ResolvePc.awaits]

lemma flushStep_modest {s s' : Stores} {reply : FlushReply} {pc pc' : FlushPc}
    (h : flushStep reply s pc = some (s', pc')) :
    Modest (flushHolds pc) (flushConnects pc) (flushFailed reply) (flushHolds pc') ∧
      flushAwaits pc' < flushAwaits pc := by
  revert h
  fun_cases flushStep reply s pc <;> intro h <;> cases h
  case case5 events =>
    unfold enterPersist
    split_ifs
    · exact ⟨by simp [Modest, flushHolds], by simp [flushAwaits]⟩
    · exact ⟨by simp [Modest, flushHolds], by simp [flushAwaits]⟩
  case case15 raws err =>
    split_ifs
    · cases raws with
      | nil =>
        exact ⟨by simp [Modest, flushHolds, enterRequeue], by simp [flushAwaits, enterRequeue]⟩
      | cons raw rest => exact ⟨by simp [Modest, flushHolds], by simp [flushAwaits, enterRequeue]⟩
    · exact ⟨by simp [Modest, flushHolds], by simp [flushAwaits]⟩
  case case17 raw rest =>
    cases rest with
    | nil => exact ⟨by simp [Modest, flushHolds], by simp [flushAwaits, enterRequeue]⟩
    | cons raw rest => exact ⟨by simp [Modest, flushHolds], by simp [flushAwaits, enterRequeue]⟩
  all_goals
    refine ⟨by simp [Modest, flushHolds, flushConnects, flushFailed], ?_⟩
    simp only [flushAwaits, List.length_append, List.length_singleton]
    omega

lemma trackStep_awaits {s s' : Metrics} {reply : TrackReply} {pc pc' : TrackPc}
    (h : trackStep reply s pc = some (s', pc')) : trackAwaits pc' < trackAwaits pc := by
  have hissue : ∀ (outcome : Outcome) (executed : Metrics) (next : TrackPc),
      issue outcome s executed next = (s', pc') → pc' = next ∨ pc' = .finished := by
    intro outcome executed next hd
    cases outcome with
    | served => exact .inl (congrArg Prod.snd hd).symm
    | failed | lost => exact .inr (congrArg Prod.snd hd).symm
  cases pc with
  | finished => cases h
  | checking c =>
    rcases hissue _ _ _ (Option.some.inj h) with rfl | rfl
    · split_ifs <;> simp [trackAwaits]
    · simp [trackAwaits]
  | counting c | fingerprinting c day | pushing c =>
    rcases hissue _ _ _ (Option.some.inj h) with rfl | rfl
    all_goals simp [trackAwaits]

lemma callStep_modest {db db' : Db} {e : CallEvent} {c c' : Call}
    (h : callStep host e db c = some (db', c')) :
    Modest (holds (.call c)) (connects (.call c)) (failed (.call e)) (holds (.call c')) ∧
      (starts (.call e) = false → awaits (.call c') < awaits (.call c)) := by
  revert h
  fun_cases callStep host e db c with
  | case1 u o =>
    intro h
    cases h
    exact ⟨fun hheld => Bool.noConfusion hheld, fun hstarts => Bool.noConfusion hstarts⟩
  | case2 a =>
    intro h
    cases h
    exact ⟨fun hheld => Bool.noConfusion hheld, fun hstarts => Bool.noConfusion hstarts⟩
  | case3 reply u o pc =>
    intro h
    obtain ⟨⟨db₁, pc'⟩, hstep, hd⟩ := Option.map_eq_some_iff.mp h
    obtain ⟨-, rfl⟩ := Prod.mk.inj hd
    obtain ⟨hmodest, hless⟩ := shortenStep_modest hstep
    exact ⟨hmodest, fun _ => hless⟩
  | case4 reply a pc =>
    intro h
    obtain ⟨⟨db₁, pc'⟩, hstep, hd⟩ := Option.map_eq_some_iff.mp h
    obtain ⟨-, rfl⟩ := Prod.mk.inj hd
    exact ⟨fun hheld => Bool.noConfusion hheld, fun _ => resolveStep_awaits hstep⟩
  | case5 =>
    intro h
    cases h

lemma workerStep_modest {s s' : Stores} {e : ClickQueue.Event} {pc pc' : FlushPc}
    (h : ClickQueue.workerStep batchSize e s pc = some (s', pc')) :
    Modest (holds (.worker pc)) (connects (.worker pc)) (failed (.worker e))
      (holds (.worker pc')) ∧
      (starts (.worker e) = false → awaits (.worker pc') < awaits (.worker pc)) := by
  cases e with
  | tick =>
    cases h
    refine ⟨?_, fun hstarts => Bool.noConfusion hstarts⟩
    split_ifs
    · exact fun hheld => Bool.noConfusion hheld
    · exact fun hheld => .inl hheld
  | flush reply =>
    obtain ⟨hmodest, hless⟩ := flushStep_modest h
    exact ⟨hmodest, fun _ => hless⟩
  | lostReply =>
    revert h
    simp only [ClickQueue.workerStep]
    fun_cases loseReply s pc with
    | case1 n events =>
      intro h
      cases h
      exact ⟨fun hheld => Bool.noConfusion hheld, fun _ => by simp [awaits, flushAwaits]⟩
    | case2 raw rest =>
      intro h
      cases h
      exact ⟨fun hheld => Bool.noConfusion hheld, fun _ => by simp [awaits, flushAwaits]⟩
    | case3 =>
      intro h
      cases h
  | track | command => cases h

lemma afterAnswer_idle (now : ℤ) (answer : Routes.Answer) :
    holds (afterAnswer now answer) = false ∧ awaits (afterAnswer now answer) ≤ 4 := by
  cases answer with
  | json | failed => exact ⟨rfl, Nat.zero_le _⟩
  | redirect status location click =>
    refine ⟨rfl, ?_⟩
    simp only [afterAnswer, awaits, TrackCall.enter]
    split_ifs
    · exact Nat.zero_le _
    · exact le_rfl

theorem taskStep_modest {e : TaskEvent} {s s' : Service} {task task' : Task}
    (h : taskStep joi host batchSize e s task = some (s', task')) :
    Modest (holds task) (connects task) (failed e) (holds task') ∧
      (starts e = false → awaits task' < awaits task) := by
  revert h
  fun_cases taskStep joi host batchSize e s task with
  | case1 e c =>
    intro h
    obtain ⟨⟨db', c'⟩, hstep, hd⟩ := Option.map_eq_some_iff.mp h
    obtain ⟨-, rfl⟩ := Prod.mk.inj hd
    exact callStep_modest hstep
  | case2 req details =>
    intro h
    cases h
    exact ⟨fun hheld => Bool.noConfusion hheld, fun hstarts => Bool.noConfusion hstarts⟩
  | case3 req a hjoi =>
    intro h
    cases h
    exact ⟨fun hheld => Bool.noConfusion hheld, fun hstarts => Bool.noConfusion hstarts⟩
  | case4 req a pc reply =>
    intro h
    obtain ⟨⟨db', pc'⟩, hstep, hd⟩ := Option.map_eq_some_iff.mp h
    obtain ⟨-, rfl⟩ := Prod.mk.inj hd
    exact ⟨fun hheld => Bool.noConfusion hheld,
      fun _ => Nat.add_lt_add_right (resolveStep_awaits hstep) 5⟩
  | case5 now req a pc =>
    intro h
    obtain ⟨result, -, hd⟩ := Option.map_eq_some_iff.mp h
    obtain ⟨-, rfl⟩ := Prod.mk.inj hd
    obtain ⟨hidle, hle⟩ := afterAnswer_idle now (Routes.getAlias joi (fun _ => result) req)
    refine ⟨fun hheld => ?_, fun _ => ?_⟩
    · rw [hidle] at hheld
      exact Bool.noConfusion hheld
    · rw [show awaits (.visit req a pc) = pc.awaits + 5 from rfl]
      omega
  | case6 reply pc =>
    intro h
    obtain ⟨⟨store', pc'⟩, hstep, hd⟩ := Option.map_eq_some_iff.mp h
    obtain ⟨-, rfl⟩ := Prod.mk.inj hd
    exact ⟨fun hheld => Bool.noConfusion hheld, fun _ => trackStep_awaits hstep⟩
  | case7 e pc =>
    intro h
    obtain ⟨⟨stores', pc'⟩, hstep, hd⟩ := Option.map_eq_some_iff.mp h
    obtain ⟨-, rfl⟩ := Prod.mk.inj hd
    exact workerStep_modest hstep
  | case8 =>
    intro h
    cases h

/-! The pool. -/

lemma frugal : Frugal (process joi host batchSize) usage failed :=
  ⟨fun h => (taskStep_modest h).1.toNat_le.1,
    fun hfailed h => (taskStep_modest h).1.toNat_le.2 hfailed⟩

/-- A task that has something to wait for can be answered, if only with an error. -/
lemma able (s : Service) (task : Task) (h : 0 < awaits task) :
    ∃ e, starts e = false ∧ (taskStep joi host batchSize e s task).isSome := by
  have hflush : ∀ pc, 0 < flushAwaits pc →
      (flushStep (.fail ⟨none, []⟩) s.store.toStores pc).isSome = true := by
    intro pc hpc
    cases pc with
    | idle => exact absurd hpc (lt_irrefl 0)
    | popping remaining events => cases remaining <;> rfl
    | connecting | beginning | inserting | committing | rollingBack | requeueing => rfl
  cases task with
  | call c =>
    refine ⟨.call (.reply (.fail ⟨none, []⟩ false)), rfl, ?_⟩
    simp only [taskStep, Option.isSome_map]
    cases c with
    | idle => exact absurd h (lt_irrefl 0)
    | shorten u o pc =>
      cases pc with
      | returned | rejected => exact absurd h (lt_irrefl 0)
      | connecting | beginning | fetchingId | inserting | committing | warming | rollingBack => rfl
    | resolve a pc =>
      cases pc with
      | returned | rejected => exact absurd h (lt_irrefl 0)
      | getting | selecting | populating => rfl
  | visit req a pc =>
    cases pc with
    | returned | rejected => exact ⟨.answer 0, rfl, rfl⟩
    | getting | selecting | populating =>
      exact ⟨.resolve (.fail ⟨none, []⟩ false), rfl, rfl⟩
  | tracking pc =>
    refine ⟨.track ⟨.failed, 0⟩, rfl, ?_⟩
    cases pc with
    | finished => exact absurd h (lt_irrefl 0)
    | checking | counting | fingerprinting | pushing => rfl
  | worker pc =>
    refine ⟨.worker (.flush (.fail ⟨none, []⟩)), rfl, ?_⟩
    simp only [taskStep, Option.isSome_map]
    exact hflush pc h

lemma busy (task : Task) (h : 0 < usage.keeps task ∨ usage.asks task = true) :
    0 < awaits task := by
  cases task with
  | call c =>
    cases c with
    | idle => simp [usage, holds, connects] at h
    | shorten u o pc =>
      cases pc with
      | returned | rejected => simp [usage, holds, connects, shortenHolds, shortenConnects] at h
      | connecting | beginning | fetchingId | inserting | committing | warming | rollingBack =>
        simp [awaits, shortenAwaits]
    | resolve a pc =>
      cases pc with
      | returned | rejected => simp [usage, holds, connects, resolveConnects] at h
      | getting | selecting | populating => simp [awaits, ResolvePc.awaits]
  | visit req a pc => exact Nat.succ_pos _
  | tracking pc => simp [usage, holds, connects] at h
  | worker pc =>
    cases pc with
    | idle => simp [usage, holds, connects, flushHolds, flushConnects] at h
    | popping | connecting | beginning | inserting | committing | rollingBack | requeueing =>
      simp [awaits, flushAwaits]

lemma diligent : Diligent (process joi host batchSize) usage starts awaits :=
  ⟨fun hstarts h => (taskStep_modest h).2 hstarts, able, busy⟩

end Steps

/-- A call has returned or rejected or was not begun, a worker is between two flushes. -/
def Settled : Task → Prop
  | .call .idle | .call (.shorten _ _ (.returned _)) | .call (.shorten _ _ (.rejected _)) => True
  | .call (.resolve _ (.returned _)) | .call (.resolve _ (.rejected _)) => True
  | .tracking .finished | .worker .idle => True
  | _ => False

lemma settled_of_awaits {task : Task} (h : awaits task = 0) : Settled task := by
  cases task with
  | call c =>
    cases c with
    | idle => trivial
    | shorten u o pc => cases pc <;> trivial
    | resolve a pc => cases pc <;> trivial
  | visit req a pc => cases h
  | tracking pc => cases pc <;> trivial
  | worker pc =>
    cases pc with
    | idle => trivial
    | popping | connecting | beginning | inserting | committing | rollingBack | requeueing =>
      cases h

section Runs
variable {ι κ : Type} [DecidableEq ι] [DecidableEq κ] [Fintype ι] [Fintype κ]
  {joi : Joi} {host : Host} {batchSize size : ℕ} {d : Stock Service × (ι ⊕ κ → Tenant Task)}

/-- No task asks for a client while it has one. -/
lemma pinned_eq_zero (task : Task) : usage.pinned task = 0 := by
  have hheld : connects task = true → holds task = false := by
    intro hconnects
    cases task with
    | call c =>
      cases c with
      | idle | resolve => rfl
      | shorten u o pc => cases pc <;> first | rfl | cases hconnects
    | visit | tracking => rfl
    | worker pc => cases pc <;> first | rfl | cases hconnects
  rw [Usage.pinned]
  split_ifs with hconnects
  · exact congrArg Bool.toNat (hheld hconnects)
  · rfl

lemma clients_of_reaches
    (h : ((pooled (process joi host batchSize) usage failed).system (ι ⊕ κ)).Reaches
      (opened size) d) :
    (∀ i, usage.Entitled (d.2 i)) ∧ d.1.idle + ∑ i, usage.lent (d.2 i) = size := by
  refine conserved frugal h (fun i hi => Bool.noConfusion hi) ?_
  have hnone : ∀ i : ι ⊕ κ, usage.lent ⟨atStart i, false⟩ = 0 := by
    intro i
    cases i <;> rfl
  rw [opened, Finset.sum_congr rfl fun i _ => hnone i]
  simp

/-- However the tasks of a process take turns, whatever fails and whatever other processes do to
the stores: no client of its pool gets lost, they never wait for each other's clients in a circle,
they take no more steps than their load, and where none can go on they have all settled and all
clients are back. -/
theorem calls_settle (hsize : 0 < size)
    (h : ((pooled (process joi host batchSize) usage failed).system (ι ⊕ κ)).Reaches
      (opened size) d) :
    d.1.idle + ∑ i, usage.lent (d.2 i) = size ∧ ¬ Deadlocked usage d ∧
      (∀ as e, (∀ i a, .inl (i, a) ∈ as → Continues starts a) →
        ((pooled (process joi host batchSize) usage failed).system (ι ⊕ κ)).run as d = some e →
        as.countP Sum.isLeft ≤ ∑ i, load usage awaits (d.2 i)) ∧
      ((∀ i a e, Continues starts a →
        ((pooled (process joi host batchSize) usage failed).system (ι ⊕ κ)).next
          (.inl (i, a)) d ≠ some e) →
        d.1.idle = size ∧ ∀ i, Settled (d.2 i).state) := by
  obtain ⟨hentitled, hclients⟩ := clients_of_reaches h
  have hdead : ¬ Deadlocked usage d := by
    refine not_deadlocked hclients ?_
    rw [Finset.sum_congr rfl fun i _ => pinned_eq_zero _]
    simpa using hsize
  refine ⟨hclients, hdead, fun as e has hrun => ?_, fun hhalted => ?_⟩
  · have hle := countP_add_load_le diligent has hrun
    omega
  · have hdiligent : Diligent (process joi host batchSize) usage starts awaits := diligent
    have hdone := done_of_halted hdiligent hentitled hdead hhalted
    have hback : ∀ i, usage.lent (d.2 i) = 0 := fun i =>
      lent_of_done hdiligent (hentitled i) (hdone i)
    rw [Finset.sum_congr rfl fun i _ => hback i] at hclients
    exact ⟨by simpa using hclients, fun i => settled_of_awaits (hdone i)⟩

/-- Two URLs are shortened over a pool of one client; the first call has it. -/
def twoShortenings :
    List ((Bool ⊕ Unit) × ResourcePool.Action TaskEvent ⊕ Service) :=
  [.inl (.inl false, .proceed (.call (.shorten (js "https://a.example") none))),
    .inl (.inl true, .proceed (.call (.shorten (js "https://b.example") none))),
    .inl (.inl false, .acquire), .inl (.inl false, .proceed (.call (.reply .done)))]

theorem calls_settle_twoShortenings : ∃ d : Stock Service × (Bool ⊕ Unit → Tenant Task),
    ((pooled (process unitwiseJoi epochHost 1) usage failed).system (Bool ⊕ Unit)).run
      twoShortenings (opened 1) = some d ∧ usage.Waiting (d.2 (.inl true)) ∧
      d.1.idle + ∑ i, usage.lent (d.2 i) = 1 ∧ ¬ Deadlocked usage d := by
  have hrun : (((pooled (process unitwiseJoi epochHost 1) usage failed).system
      (Bool ⊕ Unit)).run twoShortenings (opened 1)).map
      (fun d => decide (usage.Waiting (d.2 (.inl true)))) = some true := by decide +kernel
  obtain ⟨d, hd, hwaiting⟩ := Option.map_eq_some_iff.mp hrun
  obtain ⟨hclients, hdead, -⟩ := calls_settle Nat.one_pos ⟨twoShortenings, hd⟩
  exact ⟨d, hd, of_decide_eq_true hwaiting, hclients, hdead⟩

end Runs

end UrlShortener.DatabaseClients
