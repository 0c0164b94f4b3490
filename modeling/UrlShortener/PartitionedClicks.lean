import UrlShortener.ClickConsumers
import UrlShortener.PoisonIsolation
import UrlShortener.SchemaAgreement

/-! The clicks of a service whose table has only the partitions that the migrations have created:
which batches are inserted, and what it takes to lose none. -/
namespace UrlShortener.PartitionedClicks
open Js Json Transition FlushWorker Analytics ClickConsumers Migration

/-- A database with the host that migrates it. Any instant whose year has four digits is read from
its ISO form. -/
structure Deployment where
  timestamptz : JsString → Option ℤ
  db : Postgres
  offset : ℤ
  maxRetries : ℕ
  batchSize : ℕ
  reads_iso : ReadsIso timestamptz
  reads_year : ∀ t, FourDigitYear (utcDay t) → (timestamptz (toISOString t)).isSome = true
  offset_spec : IsOffset offset

/-- The table `clicks` refuses a row for which there is no partition. -/
def Deployment.partitioned (D : Deployment) (c : Partitions) : Postgres :=
  { D.db with acceptsTimestamp := fun s => (D.timestamptz s).any fun t => c.coverage t = 1 }

/-- The migrations, the stores, and the calls of `trackClick` that have pushed a click. -/
structure World (ι : Type) where
  runs : (Bool × Partitions) × (ι → ℤ × RunnerPc)
  store : Metrics
  pushed : List TrackCall

inductive Action (ι : Type)
  | migration (a : ι × Reply ⊕ Empty)
  | track (call : TrackCall) (later : ℤ)
  | flush

/-- Does `trackClick` come to its RPUSH? -/
def pushes (call : TrackCall) (s : Metrics) : Bool :=
  isIP call.ip ≠ 0 && s.buffer.length < MAX_BUFFER_SIZE

variable {ι : Type} [DecidableEq ι]

/-- Migrations go on with any failures; Redis serves the commands of `trackClick` and of `flush`,
and Postgres refuses no INSERT but for its values. -/
def Deployment.next (D : Deployment) (action : Action ι) (w : World ι) : Option (World ι) :=
  match action with
  | .migration a =>
    (((migrations D.timestamptz D.offset D.maxRetries).system ι).next a w.runs).map fun runs =>
      { w with runs := runs }
  | .track call later => some { w with
      store := trackClick call later w.store
      pushed := w.pushed ++ if pushes call w.store then [call] else [] }
  | .flush => some { w with
      store := { w.store with
        toStores := flushInto (D.partitioned w.runs.1.2) D.batchSize w.store.toStores } }

/-- But for its timestamp the row of the click is accepted. -/
structure Deployment.Accepts (D : Deployment) (call : TrackCall) : Prop where
  numeral : IsNumeral call.urlId
  address : isIP call.ip ≠ 0
  year : FourDigitYear (utcDay call.now)
  urlId_accepted : D.db.acceptsUrlId (.str call.urlId) = true
  address_accepted : D.db.acceptsAddress (.str call.ip) = true

def payload (call : TrackCall) : JsString := eventPayload call.click

def row (call : TrackCall) : ClickRow := workerRow call.click

variable {D : Deployment}

/-! Partitions and months. -/

section Months
variable {instants : ι → ℤ} {c d : (Bool × Partitions) × (ι → ℤ × RunnerPc)} {t : ℤ}

/-- Every partition is for a month of some migration. -/
def Sourced (D : Deployment) (d : (Bool × Partitions) × (ι → ℤ × RunnerPc)) : Prop :=
  ∀ p ∈ d.1.2.ranges, ∃ i, ∃ k : ℕ, k < 7 ∧
    p = (monthGrid D.offset).cell (localMonth D.offset (d.2 i).1 + k)

variable (hyears : ∀ i, InYears D.offset (instants i))
include hyears

end Months

/-! One flush. -/

/-- A row is accepted where there is a partition for its click. -/
lemma accepts_row {call : TrackCall} (hcall : D.Accepts call) (c : Partitions) :
    (D.partitioned c).accepts (row call) = true ↔ c.coverage call.now = 1 := by
  obtain ⟨t, ht⟩ := Option.isSome_iff_exists.mp (D.reads_year call.now hcall.year)
  obtain rfl := D.reads_iso call.now (isTime_of_fourDigitYear hcall.year) t ht
  simp [Postgres.accepts, Deployment.partitioned, row, workerRow, rowOf, TrackCall.click, ht,
    hcall.urlId_accepted, hcall.address_accepted]

lemma parsedRows_queue {queue : List TrackCall} (hqueue : ∀ call ∈ queue, D.Accepts call) :
    parsedRows (queue.map payload) = queue.map row := by
  have htracked : ∀ c ∈ queue.map TrackCall.click, Tracked c := by
    intro c hc
    obtain ⟨call, hcall, rfl⟩ := List.mem_map.mp hc
    exact tracked_click (hqueue call hcall).address (hqueue call hcall).numeral
  have hrows := parsedRows_payloads htracked
  rwa [List.map_map, List.map_map] at hrows

section Flush
variable {queue : List TrackCall} (hqueue : ∀ call ∈ queue, D.Accepts call) (c : Partitions)
  (rows : List ClickRow)
include hqueue

lemma batch_rows : parsedRows ((queue.map payload).take D.batchSize) =
    (queue.take D.batchSize).map row := by
  rw [← List.map_take]
  exact parsedRows_queue fun call hcall => hqueue call (List.mem_of_mem_take hcall)

lemma flush_covered (h : ∀ call ∈ queue.take D.batchSize, c.coverage call.now = 1) :
    flushInto (D.partitioned c) D.batchSize ⟨queue.map payload, rows⟩ =
      ⟨(queue.drop D.batchSize).map payload, rows ++ (queue.take D.batchSize).map row⟩ := by
  have hall : (parsedRows ((queue.map payload).take D.batchSize)).all
      (D.partitioned c).accepts = true := by
    rw [batch_rows hqueue, List.all_map, List.all_eq_true]
    exact fun call hcall =>
      (accepts_row (hqueue call (List.mem_of_mem_take hcall)) c).mpr (h call hcall)
  rw [flushInto_of_accepted hall, batch_rows hqueue, List.map_drop]

lemma flush_uncovered (h : ∃ call ∈ queue.take D.batchSize, c.coverage call.now ≠ 1) :
    flushInto (D.partitioned c) D.batchSize ⟨queue.map payload, rows⟩ =
      ⟨(queue.drop D.batchSize).map payload, rows⟩ := by
  obtain ⟨call, hcall, hnot⟩ := h
  have hall : (parsedRows ((queue.map payload).take D.batchSize)).all
      (D.partitioned c).accepts = false := by
    rw [batch_rows hqueue, List.all_map, List.all_eq_false]
    refine ⟨call, hcall, fun haccepted => hnot ?_⟩
    exact (accepts_row (hqueue call (List.mem_of_mem_take hcall)) c).mp haccepted
  rw [flushInto_of_refused hall, List.map_drop]

end Flush

/-! Runs. -/

lemma track_stores (call : TrackCall) (later : ℤ) (s : Metrics) :
    (trackClick call later s).toStores =
      s.toStores.push (if pushes call s then [payload call] else []) := by
  unfold trackClick TrackCall.enter pushes
  by_cases hip : isIP call.ip = 0
  · simp [hip, Stores.push]
  · by_cases hroom : MAX_BUFFER_SIZE ≤ s.buffer.length
    · simp [hip, hroom, Nat.not_lt.mpr hroom, Stores.push]
    · simp [hip, hroom, Nat.not_le.mp hroom]
      rfl

lemma covered_next {c d : (Bool × Partitions) × (ι → ℤ × RunnerPc)} {a : ι × Reply ⊕ Empty} {t : ℤ}
    (h : ((migrations D.timestamptz D.offset D.maxRetries).system ι).next a c = some d)
    (ht : c.1.2.coverage t = 1) : d.1.2.coverage t = 1 := by
  cases a with
  | inr e => exact e.elim
  | inl a =>
    obtain ⟨i, reply⟩ := a
    obtain ⟨s', l', hstep, rfl⟩ := Threads.next_thread h
    obtain ⟨p, hp, hcontains⟩ := (c.1.2.coverage_eq_one_iff t).mp ht
    exact (s'.2.coverage_eq_one_iff t).mpr ⟨p, subset_of_step hstep hp, hcontains⟩

/-- What is queued are the last clicks pushed. -/
structure Kept (D : Deployment) (instants : ι → ℤ) (w : World ι) (queue : List TrackCall) :
    Prop where
  migrated : ((migrations D.timestamptz D.offset D.maxRetries).system ι).Reaches (fresh instants)
    w.runs
  accepted : ∀ call ∈ queue, D.Accepts call
  buffer : w.store.buffer = queue.map payload
  suffix : queue <:+ w.pushed

section Steps
variable {instants : ι → ℤ} {w v : World ι} {queue : List TrackCall}

lemma Kept.stores (hk : Kept D instants w queue) :
    w.store.toStores = ⟨queue.map payload, w.store.clicks⟩ := by
  rw [← hk.buffer]

lemma Kept.migration (hk : Kept D instants w queue) {a : ι × Reply ⊕ Empty}
    (hn : D.next (.migration a) w = some v) : Kept D instants v queue ∧ v.store = w.store ∧
      v.pushed = w.pushed ∧ ∀ t, w.runs.1.2.coverage t = 1 → v.runs.1.2.coverage t = 1 := by
  obtain ⟨runs, hruns, rfl⟩ := Option.map_eq_some_iff.mp hn
  exact ⟨⟨hk.migrated.tail hruns, hk.accepted, hk.buffer, hk.suffix⟩, rfl, rfl,
    fun t ht => covered_next hruns ht⟩

lemma Kept.track (hk : Kept D instants w queue) {call : TrackCall} {later : ℤ}
    (hcall : D.Accepts call) (hn : D.next (.track call later) w = some v) : ∃ new, new ⊆ [call] ∧
      Kept D instants v (queue ++ new) ∧ v.runs = w.runs ∧ v.store.clicks = w.store.clicks ∧
      v.pushed = w.pushed ++ new := by
  obtain rfl := Option.some.inj hn
  have hstores := track_stores call later w.store
  refine ⟨if pushes call w.store then [call] else [], ?_, ⟨hk.migrated, fun d hd => ?_, ?_, ?_⟩,
    rfl, (congrArg Stores.clicks hstores).trans rfl, rfl⟩
  · split_ifs <;> simp
  · rcases List.mem_append.mp hd with hd | hd
    · exact hk.accepted d hd
    · split_ifs at hd
      · exact List.mem_singleton.mp hd ▸ hcall
      · exact absurd hd List.not_mem_nil
  · refine (congrArg Stores.buffer hstores).trans ?_
    rw [Stores.push, hk.buffer, List.map_append]
    split_ifs <;> rfl
  · obtain ⟨before, hbefore⟩ := hk.suffix
    exact ⟨before, by rw [← hbefore, List.append_assoc]⟩

/-- A batch is inserted where there is a partition for each of its clicks, or it is gone. -/
lemma Kept.flush (hk : Kept D instants w queue) (hn : D.next .flush w = some v) :
    Kept D instants v (queue.drop D.batchSize) ∧ v.runs = w.runs ∧ v.pushed = w.pushed ∧
      ((∀ call ∈ queue.take D.batchSize, w.runs.1.2.coverage call.now = 1) →
        v.store.clicks = w.store.clicks ++ (queue.take D.batchSize).map row) ∧
      ((∃ call ∈ queue.take D.batchSize, w.runs.1.2.coverage call.now ≠ 1) →
        v.store.clicks = w.store.clicks) := by
  obtain rfl := Option.some.inj hn
  have hcovered := flush_covered hk.accepted w.runs.1.2 w.store.clicks
  have huncovered := flush_uncovered hk.accepted w.runs.1.2 w.store.clicks
  rw [← hk.stores] at hcovered huncovered
  have hbuffer : (flushInto (D.partitioned w.runs.1.2) D.batchSize w.store.toStores).buffer =
      (queue.drop D.batchSize).map payload := by
    by_cases h : ∀ call ∈ queue.take D.batchSize, w.runs.1.2.coverage call.now = 1
    · rw [hcovered h]
    · push Not at h
      rw [huncovered h]
  exact ⟨⟨hk.migrated, fun call hcall => hk.accepted call (List.mem_of_mem_drop hcall), hbuffer,
    (List.drop_suffix _ _).trans hk.suffix⟩, rfl, rfl,
    fun h => (congrArg Stores.clicks (hcovered h)).trans rfl,
    fun h => (congrArg Stores.clicks (huncovered h)).trans rfl⟩

end Steps

section Reached
variable {instants : ι → ℤ} {w v : World ι} {as : List (Action ι)}

/-- A migration at the beginning of 2024. -/
def migrated : List (Action Unit) := answeredRun.map .migration

end Reached

end UrlShortener.PartitionedClicks
