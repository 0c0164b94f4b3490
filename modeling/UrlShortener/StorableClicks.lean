import UrlShortener.UrlServiceSafety
import UrlShortener.ShortenerRoutes
import UrlShortener.ClickQueue

/-! The whole service: calls of `shortenUrl` and `resolveUrl`, visits of aliases with the
clicks that they track, and flush workers. What a worker inserts refers to committed rows. -/
namespace UrlShortener.StorableClicks
open Js Json Transition FlushWorker Analytics ClickQueue UrlService
open Shutdown (held)
open Validation (Joi)
open Routes (Visit Answer getAlias aliasSchema bigIntText)

structure Service where
  db : Db
  store : Metrics

/-- A call on its own, a visit that awaits `resolveUrl`, the tracking that a visit has started,
or a worker. -/
inductive Task
  | call (call : Call)
  | visit (req : Visit) (a : JsString) (pc : ResolvePc)
  | tracking (pc : TrackPc)
  | worker (pc : FlushPc)

inductive TaskEvent
  | call (e : CallEvent)
  | visit (req : Visit)
  | resolve (reply : Reply)
  | answer (now : ℤ)
  | track (reply : TrackReply)
  | worker (e : ClickQueue.Event)

/-- What `resolveUrl` has come to. -/
def outcome : ResolvePc → Option (Except JsString (Option UrlRecord))
  | .returned record => some (.ok record)
  | .rejected message => some (.error message)
  | _ => none

/-- The handler ends; a redirect has started to track its click. -/
def afterAnswer (now : ℤ) : Answer → Task
  | .redirect _ _ click =>
    .tracking (TrackCall.enter ⟨click.urlId, click.ip, click.userAgent, click.referer, now⟩)
  | _ => .call .idle

def taskStep (joi : Joi) (host : Host) (batchSize : ℕ) (e : TaskEvent) (s : Service)
    (task : Task) : Option (Service × Task) :=
  match e, task with
  | .call e, .call c =>
    (callStep host e s.db c).map fun d => ({ s with db := d.1 }, .call d.2)
  | .visit req, .call .idle =>
    match joi.string aliasSchema req.alias with
    | .error _ => some (s, .call .idle)
    | .ok a => some (s, .visit req a .getting)
  | .resolve reply, .visit req a pc =>
    (resolveStep host a reply s.db pc).map fun d => ({ s with db := d.1 }, .visit req a d.2)
  | .answer now, .visit req _ pc =>
    (outcome pc).map fun result => (s, afterAnswer now (getAlias joi (fun _ => result) req))
  | .track reply, .tracking pc =>
    (trackStep reply s.store pc).map fun d => ({ s with store := d.1 }, .tracking d.2)
  | .worker e, .worker pc =>
    (workerStep batchSize e s.store.toStores pc).map fun d =>
      ({ s with store := { s.store with toStores := d.1 } }, .worker d.2)
  | _, _ => none

def tasks (joi : Joi) (host : Host) (batchSize : ℕ) :
    Threads Service Task TaskEvent Surroundings where
  step := taskStep joi host batchSize
  env e s := (surroundingsStep e s.db).map fun db => { s with db := db }

def emptyService : Service := ⟨Db.empty, emptyQueue.store⟩

def atStart {ι κ : Type*} : ι ⊕ κ → Task :=
  Sum.elim (fun _ => .call .idle) fun _ => .worker .idle

/-! What can be stored. -/

/-- The event passes validation and names a committed row. -/
def Storable (db : Db) (raw : JsString) : Prop :=
  ∃ value event, parse raw = some value ∧ validateEvent value = some event ∧
    ∃ row ∈ db.urls, event.url_id = .str (decimal row.id)

/-- A click of a committed row, from a valid address. -/
def Trackable (db : Db) (c : TrackedClick) : Prop :=
  isIP c.ip_address ≠ 0 ∧ ∃ row ∈ db.urls, c.url_id = decimal row.id

lemma Trackable.storable {db : Db} {c : TrackedClick} (h : Trackable db c) :
    Storable db (eventPayload c) := by
  obtain ⟨hip, row, hrow, hid⟩ := h
  have hnumeral : IsNumeral c.url_id := by
    rw [hid]
    exact decimal_digits row.id
  have hevent := parseEvent_eventPayload ⟨isUrlId_of_isNumeral hnumeral, hip⟩
  rw [parseEvent, parse_eventPayload, Option.bind_some] at hevent
  exact ⟨_, _, parse_eventPayload c, hevent, row, hrow, by rw [hid]⟩

lemma Storable.mono {db db' : Db} (hurls : db.urls ⊆ db'.urls) {raw : JsString}
    (h : Storable db raw) : Storable db' raw := by
  obtain ⟨value, event, hparse, hvalid, row, hrow, hid⟩ := h
  exact ⟨value, event, hparse, hvalid, row, hurls hrow, hid⟩

lemma Trackable.mono {db db' : Db} (hurls : db.urls ⊆ db'.urls) {c : TrackedClick}
    (h : Trackable db c) : Trackable db' c := by
  obtain ⟨hip, row, hrow, hid⟩ := h
  exact ⟨hip, row, hurls hrow, hid⟩

/-- A storable event gives a row that the foreign key admits. -/
lemma Storable.parsedRows {db : Db} {raws : List JsString} (h : ∀ raw ∈ raws, Storable db raw) :
    ∀ row ∈ parsedRows raws, ∃ url ∈ db.urls, row.url_id = .str (decimal url.id) := by
  intro row hrow
  obtain ⟨event, hevent, rfl⟩ := List.mem_map.mp hrow
  obtain ⟨raw, hraw, hparsed⟩ := List.mem_filterMap.mp hevent
  obtain ⟨value, event', hparse, hvalid, url, hurl, hid⟩ := h raw hraw
  rw [parseEvent, hparse, Option.bind_some, hvalid] at hparsed
  obtain rfl := Option.some.inj hparsed
  exact ⟨url, hurl, hid⟩

/-! What one step of a task can do. -/

/-- The call of a task. -/
def Task.asCall : Task → Call
  | .call c => c
  | .visit _ a pc => .resolve a pc
  | _ => .idle

/-- What a task knows of the click that it tracks, or of the batch that it holds. -/
def Task.Sound (db : Db) : Task → Prop
  | .tracking pc => ∀ c, tracked pc = some c → Trackable db c
  | .worker pc => ∀ raw ∈ held pc, Storable db raw
  | _ => True

inductive TaskMove (host : Host) (batchSize : ℕ) (s : Service) : Task → Service → Task → Prop
  | call {task task' : Task} {db' : Db} (hmove : CallMove host s.db task.asCall db' task'.asCall)
      (hsound : task'.Sound db') : TaskMove host batchSize s task { s with db := db' } task'
  | drop {task : Task} : TaskMove host batchSize s task s (.call .idle)
  | enter {req : Visit} {a : JsString} {record : UrlRecord} {call : TrackCall}
      (hid : call.urlId = bigIntText record.id) :
      TaskMove host batchSize s (.visit req a (.returned (some record))) s (.tracking call.enter)
  | track {store' : Metrics} {pc pc' : TrackPc} {pushed : List TrackedClick}
      (hmove : TrackMove s.store pc store' pc' pushed) :
      TaskMove host batchSize s (.tracking pc) { s with store := store' } (.tracking pc')
  | start : TaskMove host batchSize s (.worker .idle) s (.worker (.popping batchSize []))
  | flush {stores' : Stores} {pc pc' : FlushPc}
      (hmove : FlushMove s.store.toStores pc stores' pc') :
      TaskMove host batchSize s (.worker pc)
        { s with store := { s.store with toStores := stores' } } (.worker pc')

lemma afterAnswer_getAlias (joi : Joi) (now : ℤ) (req : Visit)
    (result : Except JsString (Option UrlRecord)) :
    afterAnswer now (getAlias joi (fun _ => result) req) = .call .idle ∨
      ∃ (record : UrlRecord) (call : TrackCall), result = .ok (some record) ∧
        call.urlId = bigIntText record.id ∧
        afterAnswer now (getAlias joi (fun _ => result) req) = .tracking call.enter := by
  unfold getAlias
  cases joi.string aliasSchema req.alias with
  | error details => exact .inl rfl
  | ok a =>
    cases result with
    | error message => exact .inl rfl
    | ok found =>
      cases found with
      | none => exact .inl rfl
      | some record => exact .inr ⟨record, _, rfl, rfl, rfl⟩

lemma eq_of_outcome {pc : ResolvePc} {record : Option UrlRecord}
    (h : outcome pc = some (.ok record)) : pc = .returned record := by
  cases pc with
  | returned record' =>
    cases h
    rfl
  | getting | selecting | populating | rejected => cases h

lemma taskMove_of_step {joi : Joi} {host : Host} {batchSize : ℕ} {e : TaskEvent} {s s' : Service}
    {task task' : Task} (h : taskStep joi host batchSize e s task = some (s', task')) :
    TaskMove host batchSize s task s' task' := by
  revert h
  fun_cases taskStep joi host batchSize e s task with
  | case1 e c =>
    intro h
    obtain ⟨⟨db', c'⟩, hstep, hd⟩ := Option.map_eq_some_iff.mp h
    obtain ⟨rfl, rfl⟩ := Prod.mk.inj hd
    exact .call (callMove_of_step hstep) trivial
  | case2 req details =>
    intro h
    cases h
    exact .drop
  | case3 req a =>
    intro h
    cases h
    exact .call .startResolve trivial
  | case4 req a pc reply =>
    intro h
    obtain ⟨⟨db', pc'⟩, hstep, hd⟩ := Option.map_eq_some_iff.mp h
    obtain ⟨rfl, rfl⟩ := Prod.mk.inj hd
    exact .call (.resolve (resolveMove_of_step hstep)) trivial
  | case5 now req a pc =>
    intro h
    obtain ⟨result, hresult, hd⟩ := Option.map_eq_some_iff.mp h
    obtain ⟨rfl, rfl⟩ := Prod.mk.inj hd
    rcases afterAnswer_getAlias joi now req result with hidle | ⟨record, call, rfl, hid, henter⟩
    · rw [hidle]
      exact .drop
    · rw [henter, eq_of_outcome hresult]
      exact .enter hid
  | case6 reply pc =>
    intro h
    obtain ⟨⟨store', pc'⟩, hstep, hd⟩ := Option.map_eq_some_iff.mp h
    obtain ⟨rfl, rfl⟩ := Prod.mk.inj hd
    exact .track (trackMove_of_step hstep)
  | case7 e pc =>
    intro h
    obtain ⟨⟨stores', pc'⟩, hstep, hd⟩ := Option.map_eq_some_iff.mp h
    obtain ⟨rfl, rfl⟩ := Prod.mk.inj hd
    rcases workerStep_cases hstep with ⟨rfl, rfl, rfl⟩ | hmove
    · exact .start
    · exact .flush hmove
  | case8 =>
    intro h
    cases h

/-! The invariant. -/

structure Sane (host : Host) (s : Service) : Prop where
  coherent : Coherent host s.db
  queued : ∀ raw ∈ s.store.buffer, Storable s.db raw

lemma bigIntText_natCast (n : ℕ) : bigIntText n = decimal n := by
  rw [bigIntText, if_neg (by omega), Int.natAbs_natCast]

lemma Task.Sound.mono {db db' : Db} (hurls : db.urls ⊆ db'.urls) {task : Task}
    (h : task.Sound db) : task.Sound db' := by
  cases task with
  | call | visit => trivial
  | tracking pc => exact fun c hc => (h c hc).mono hurls
  | worker pc => exact fun raw hraw => (h raw hraw).mono hurls

/-- A record of a committed row makes the click that is tracked for it trackable. -/
lemma sound_enter {db : Db} {record : UrlRecord} {row : UrlRow} {call : TrackCall}
    (hrow : row ∈ db.urls) (hdescribes : Describes record row)
    (hid : call.urlId = bigIntText record.id) : (Task.tracking call.enter).Sound db := by
  intro c hc
  unfold TrackCall.enter at hc
  split_ifs at hc with hip
  · cases hc
  · obtain rfl : call.click = c := Option.some.inj hc
    refine ⟨hip, row, hrow, ?_⟩
    change call.urlId = decimal row.id
    rw [hid, hdescribes.1, bigIntText_natCast]

lemma sound_track {s : Service} {store' : Metrics} {pc pc' : TrackPc} {pushed : List TrackedClick}
    (hmove : TrackMove s.store pc store' pc' pushed) (hqueued : ∀ raw ∈ s.store.buffer,
      Storable s.db raw) (hsound : (Task.tracking pc).Sound s.db) :
    (∀ raw ∈ store'.buffer, Storable s.db raw) ∧ (Task.tracking pc').Sound s.db := by
  cases hmove with
  | keep hstores hnext =>
    rw [hstores]
    refine ⟨hqueued, ?_⟩
    rcases hnext with rfl | ⟨htracked, -⟩
    · exact fun c hc => nomatch hc
    · exact fun c hc => hsound c (htracked ▸ hc)
  | check hpc hroom =>
    subst hpc
    exact ⟨hqueued, fun c hc => hsound c hc⟩
  | @push c store' hpc hstores =>
    subst hpc
    have hclick : Storable s.db (eventPayload c) := (hsound c rfl).storable
    rw [hstores]
    refine ⟨fun raw hraw => ?_, fun c hc => nomatch hc⟩
    rcases List.mem_append.mp hraw with hraw | hraw
    · exact hqueued raw hraw
    · rwa [List.mem_singleton.mp hraw]

lemma sound_flush {s : Service} {stores' : Stores} {pc pc' : FlushPc}
    (hmove : FlushMove s.store.toStores pc stores' pc') (hqueued : ∀ raw ∈ s.store.buffer,
      Storable s.db raw) (hsound : (Task.worker pc).Sound s.db) :
    (∀ raw ∈ stores'.buffer, Storable s.db raw) ∧ (Task.worker pc').Sound s.db := by
  cases hmove with
  | keep hheld hpops => exact ⟨hqueued, fun raw hraw => hsound raw (hheld.subset hraw)⟩
  | @pop raw rest pc' hbuffer hheld hpops =>
    rw [hbuffer] at hqueued
    refine ⟨fun raw' hraw => hqueued raw' (List.mem_cons_of_mem _ hraw), fun raw' hraw => ?_⟩
    rcases List.mem_append.mp (hheld.subset hraw) with hraw | hraw
    · exact hsound raw' hraw
    · rw [List.mem_singleton.mp hraw]
      exact hqueued raw List.mem_cons_self
  | commit hheld hpops =>
    refine ⟨hqueued, fun raw hraw => ?_⟩
    rw [hheld] at hraw
    cases hraw
  | @requeue raw rest pc' hheld hrest hpops =>
    have hall : ∀ raw' ∈ raw :: rest, Storable s.db raw' := hheld ▸ hsound
    refine ⟨fun raw' hraw => ?_, fun raw' hraw =>
      hall raw' (List.mem_cons_of_mem _ (hrest.subset hraw))⟩
    rcases List.mem_append.mp hraw with hraw | hraw
    · exact hqueued raw' hraw
    · rw [List.mem_singleton.mp hraw]
      exact hall raw List.mem_cons_self

section Steps
variable {host : Host} {batchSize : ℕ} {s s' : Service} {task task' : Task}

lemma TaskMove.own (hmove : TaskMove host batchSize s task s' task') (hs : Sane host s)
    (hholds : task.asCall.Holds s.db) (hsound : task.Sound s.db) :
    Sane host s' ∧ task'.asCall.Holds s'.db ∧ task'.Sound s'.db := by
  cases hmove with
  | call hmove hsound' =>
    obtain ⟨hcoherent, hholds'⟩ := hmove.own hs.coherent hholds
    have hurls := hmove.touches.1.urls
    exact ⟨⟨hcoherent, fun raw hraw => (hs.queued raw hraw).mono hurls⟩, hholds', hsound'⟩
  | drop => exact ⟨hs, trivial, trivial⟩
  | enter hid =>
    obtain ⟨row, hrow, -, hdescribes⟩ := hholds
    exact ⟨hs, trivial, sound_enter hrow hdescribes hid⟩
  | track hmove =>
    obtain ⟨hqueued, hsound'⟩ := sound_track hmove hs.queued hsound
    exact ⟨⟨hs.coherent, hqueued⟩, trivial, hsound'⟩
  | start => exact ⟨hs, trivial, fun raw hraw => nomatch hraw⟩
  | flush hmove =>
    obtain ⟨hqueued, hsound'⟩ := sound_flush hmove hs.queued hsound
    exact ⟨⟨hs.coherent, hqueued⟩, trivial, hsound'⟩

lemma TaskMove.touches (hmove : TaskMove host batchSize s task s' task') :
    Touches task.asCall.reserved s.db s'.db ∧ (task'.asCall.reserved = none ∨
      task'.asCall.reserved = task.asCall.reserved ∨
      ∃ n, n ∉ s.db.used ∧ task'.asCall.reserved = some (AliasGenerator.numeral n)) := by
  cases hmove with
  | call hmove _ => exact hmove.touches
  | drop | enter | track | start | flush =>
    exact ⟨.of_eq (List.Subset.refl _) rfl rfl, .inl rfl⟩

end Steps

/-- The proof outline of the service: that of its calls, with what its tasks know. -/
def outline (joi : Joi) (host : Host) (batchSize : ℕ) : Outline (tasks joi host batchSize) where
  shared := Sane host
  thread s task := task.asCall.Holds s.db ∧ task.Sound s.db
  pair task other := Apart task.asCall other.asCall
  pair_symm _ _ h a hm hl := h a hl hm
  own _ _ _ _ _ hs htask h := (taskMove_of_step h).own hs htask.1 htask.2
  other r s task s' task' other hs htask hother hpair h := by
    have hmove := taskMove_of_step h
    obtain ⟨ht, hres⟩ := hmove.touches
    have hcoherent := (hmove.own hs htask.1 htask.2).1.coherent
    exact ⟨⟨hother.1.stable ht hcoherent hpair, hother.2.mono ht.urls⟩,
      Apart.step hpair hother.1 hs.coherent hres⟩
  env_shared e s s' hs h := by
    obtain ⟨db', hstep, rfl⟩ := Option.map_eq_some_iff.mp h
    obtain ⟨hcoherent, ht⟩ := hs.coherent.surroundings hstep
    exact ⟨hcoherent, fun raw hraw => (hs.queued raw hraw).mono ht.urls⟩
  env_thread e s s' task hs htask h := by
    obtain ⟨db', hstep, rfl⟩ := Option.map_eq_some_iff.mp h
    obtain ⟨hcoherent, ht⟩ := hs.coherent.surroundings hstep
    exact ⟨htask.1.stable ht hcoherent (fun _ => nofun), htask.2.mono ht.urls⟩

section Runs
variable {ι κ : Type*} [DecidableEq ι] [DecidableEq κ] {joi : Joi} {host : Host} {batchSize : ℕ}

omit [DecidableEq ι] [DecidableEq κ] in
lemma outline_atStart : (outline joi host batchSize).Holds
    ((emptyService, atStart) : Service × (ι ⊕ κ → Task)) := by
  refine ⟨⟨⟨?_, ?_, ?_⟩, ?_⟩, fun i => ?_, fun i j _ => ?_⟩
  · simp [emptyService, Db.empty]
  · simp [emptyService, Db.empty]
  · simp [emptyService, Db.empty]
  · intro raw hraw
    cases hraw
  · cases i with
    | inl i => exact ⟨trivial, trivial⟩
    | inr i =>
      refine ⟨trivial, fun raw hraw => ?_⟩
      cases hraw
  · intro a ha
    cases i <;> cases ha

/-- Every event that is queued or held passes validation and names a committed row, and so
does every row that a worker inserts. -/
theorem clicks_storable {d : Service × (ι ⊕ κ → Task)}
    (h : ((tasks joi host batchSize).system (ι ⊕ κ)).Reaches (emptyService, atStart) d) :
    (∀ raw ∈ d.1.store.buffer, Storable d.1.db raw) ∧
    (∀ i pc, d.2 i = .worker pc → ∀ raw ∈ held pc, Storable d.1.db raw) ∧
    ∀ i raws, d.2 i = .worker (.inserting raws) → ∀ row ∈ parsedRows raws,
      ∃ url ∈ d.1.db.urls, row.url_id = .str (decimal url.id) := by
  have hd := (outline joi host batchSize).holds_of_reaches h outline_atStart
  have hheld : ∀ i pc, d.2 i = .worker pc → ∀ raw ∈ held pc, Storable d.1.db raw := by
    intro i pc hi
    have hsound := (hd.thread i).2
    rw [hi] at hsound
    exact hsound
  refine ⟨hd.shared.queued, hheld, fun i raws hi => ?_⟩
  exact Storable.parsedRows (hheld i _ hi)

/-- The rules of `Admits`, checked unit by unit. -/
def admits (schema : Validation.StringSchema) (s : JsString) : Bool :=
  !s.isEmpty && (!schema.alphanum || s.all isAlphanumeric) &&
    schema.min.all (· ≤ s.length) && schema.max.all (s.length ≤ ·)

lemma admits_iff {schema : Validation.StringSchema} {s : JsString} :
    admits schema s = true ↔ schema.Admits s := by
  obtain ⟨alphanum, scheme, min, max, trim, required⟩ := schema
  cases alphanum <;> cases min <;> cases max <;>
    simp [admits, Validation.StringSchema.Admits, and_assoc]

/-- `plainJoi` with these rules for aliases. -/
def unitwiseJoi : Joi where
  string schema value :=
    if schema.scheme.isNone && !schema.trim then
      if admits schema value then .ok value else .error []
    else Validation.plainJoi.string schema value
  object := Validation.plainJoi.object
  string_ok_iff schema s value hscheme htrim := by
    by_cases hadmits : admits schema s = true
    · have := admits_iff.mp hadmits
      simp [hscheme, htrim, hadmits, this, eq_comm]
    · have := mt admits_iff.mpr hadmits
      simp [hscheme, htrim, hadmits, this]
  object_trims := Validation.plainJoi.object_trims

/-- A URL is shortened to the alias `1000` and visited, and its click is popped. -/
def oneVisit : List ((Bool ⊕ Unit) × TaskEvent ⊕ Surroundings) :=
  (TaskEvent.call (.shorten (js "https://a.example") none) ::
      [Reply.done, .done, .id 238328, .clock 0, .clock 0, .done].map
        fun r => TaskEvent.call (.reply r)).map (fun e => .inl (.inl false, e)) ++
    (TaskEvent.visit ⟨js "1000", some (js "127.0.0.1"), none, none⟩ :: .resolve .done ::
      .answer 0 :: List.replicate 4 (.track ⟨.served, 0⟩)).map (fun e => .inl (.inl true, e)) ++
    [.inl (.inr (), .worker .tick), .inl (.inr (), .worker (.flush .done))]

/-- The events a worker holds that has popped all it asked for. -/
def popped : Task → Option (List JsString)
  | .worker (.popping 0 raws) => some raws
  | _ => none

lemma eq_of_popped {task : Task} {raws : List JsString} (h : popped task = some raws) :
    task = .worker (.popping 0 raws) := by
  unfold popped at h
  split at h
  · exact congrArg (fun raws => Task.worker (.popping 0 raws)) (Option.some.inj h)
  · cases h

theorem clicks_storable_oneVisit : ∃ d : Service × (Bool ⊕ Unit → Task), ∃ raw,
    d.2 (.inr ()) = .worker (.popping 0 [raw]) ∧ Storable d.1.db raw := by
  have hrun : (((tasks unitwiseJoi epochHost 1).system (Bool ⊕ Unit)).run oneVisit
      (emptyService, atStart)).map (fun d => (popped (d.2 (.inr ()))).map List.length) =
        some (some 1) := by decide +kernel
  obtain ⟨d, hd, hpopped⟩ := Option.map_eq_some_iff.mp hrun
  obtain ⟨raws, hraws, hlength⟩ := Option.map_eq_some_iff.mp hpopped
  obtain ⟨raw, rfl⟩ := List.length_eq_one_iff.mp hlength
  have hworker := eq_of_popped hraws
  obtain ⟨-, hheld, -⟩ := clicks_storable ⟨oneVisit, hd⟩
  exact ⟨d, raw, hworker, hheld _ _ hworker raw List.mem_cons_self⟩

end Runs

end UrlShortener.StorableClicks
