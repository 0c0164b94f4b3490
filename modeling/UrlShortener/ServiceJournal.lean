import UrlShortener.StorableClicks
import UrlShortener.DailyVisitors

/-! The whole service with a journal of its answers to visits: where it redirects to, and how
the figures that it keeps of a URL compare with the redirects. -/
namespace UrlShortener.ServiceJournal
open Js Json Transition FlushWorker Analytics ClickQueue UrlService StorableClicks
open Shutdown (held)
open Validation (Joi)
open Routes (Visit Answer Click getAlias aliasSchema bigIntText asText invalidAlias)

structure Journal where
  service : Service
  answered : List (Visit × Answer)

/-- What the handler of `GET /:alias` answers in a step. -/
def answeredBy (joi : Joi) : TaskEvent → Task → List (Visit × Answer)
  | .visit req, .call .idle =>
    match joi.string aliasSchema req.alias with
    | .error details => [(req, invalidAlias details)]
    | .ok _ => []
  | .answer _, .visit req _ pc =>
    ((outcome pc).map fun result => (req, getAlias joi (fun _ => result) req)).toList
  | _, _ => []

def journalStep (joi : Joi) (host : Host) (batchSize : ℕ) (e : TaskEvent) (j : Journal)
    (task : Task) : Option (Journal × Task) :=
  (taskStep joi host batchSize e j.service task).map fun d =>
    (⟨d.1, j.answered ++ answeredBy joi e task⟩, d.2)

def journaled (joi : Joi) (host : Host) (batchSize : ℕ) :
    Threads Journal Task TaskEvent Surroundings where
  step := journalStep joi host batchSize
  env e j := (surroundingsStep e j.service.db).map fun db =>
    { j with service := { j.service with db := db } }

def emptyJournal : Journal := ⟨emptyService, []⟩

variable {joi : Joi} {host : Host} {batchSize : ℕ} {e : TaskEvent} {j j' : Journal}
  {task task' : Task}

lemma step_of_journalStep (h : journalStep joi host batchSize e j task = some (j', task')) :
    taskStep joi host batchSize e j.service task = some (j'.service, task') ∧
      j'.answered = j.answered ++ answeredBy joi e task := by
  obtain ⟨⟨s', l'⟩, hstep, hd⟩ := Option.map_eq_some_iff.mp h
  obtain ⟨rfl, rfl⟩ := Prod.mk.inj hd
  exact ⟨hstep, rfl⟩

lemma tasks_env {e : Surroundings} {s : Service} {db' : Db}
    (h : surroundingsStep e s.db = some db') :
    (tasks joi host batchSize).env e s = some { s with db := db' } :=
  Option.map_eq_some_iff.mpr ⟨db', h, rfl⟩

/-! Where the service redirects to. -/

/-- A redirect goes to the URL of the committed row that has the alias, and reports a click of
that row. -/
def Faithful (db : Db) : Visit × Answer → Prop
  | (req, .redirect status location click) => status = 302 ∧ ∃ row ∈ db.urls,
      row.alias = req.alias ∧ location = some (.str row.original_url) ∧
      click.urlId = decimal row.id
  | _ => True

lemma Faithful.mono {db db' : Db} (hurls : db.urls ⊆ db'.urls) {visit : Visit × Answer}
    (h : Faithful db visit) : Faithful db' visit := by
  obtain ⟨req, answer⟩ := visit
  cases answer with
  | json | failed => trivial
  | redirect status location click =>
    obtain ⟨hstatus, row, hrow, hclick⟩ := h
    exact ⟨hstatus, row, hurls hrow, hclick⟩

/-- A visit resolves the alias that it was made for. -/
def Asks : Task → Prop
  | .visit req a _ => a = req.alias
  | _ => True

lemma asks_afterAnswer (now : ℤ) (answer : Answer) : Asks (afterAnswer now answer) := by
  cases answer <;> trivial

lemma asks_step {s s' : Service} (h : taskStep joi host batchSize e s task = some (s', task'))
    (hasks : Asks task) : Asks task' := by
  revert h
  fun_cases taskStep joi host batchSize e s task with
  | case1 e c =>
    intro h
    obtain ⟨d, -, hd⟩ := Option.map_eq_some_iff.mp h
    obtain ⟨-, rfl⟩ := Prod.mk.inj hd
    trivial
  | case2 req details =>
    intro h
    cases h
    trivial
  | case3 req a hjoi =>
    intro h
    cases h
    exact ((joi.string_ok_iff aliasSchema req.alias a rfl rfl).mp hjoi).2
  | case4 req a pc reply =>
    intro h
    obtain ⟨d, -, hd⟩ := Option.map_eq_some_iff.mp h
    obtain ⟨-, rfl⟩ := Prod.mk.inj hd
    exact hasks
  | case5 now req a pc =>
    intro h
    obtain ⟨result, -, hd⟩ := Option.map_eq_some_iff.mp h
    obtain ⟨-, rfl⟩ := Prod.mk.inj hd
    exact asks_afterAnswer now _
  | case6 reply pc =>
    intro h
    obtain ⟨d, -, hd⟩ := Option.map_eq_some_iff.mp h
    obtain ⟨-, rfl⟩ := Prod.mk.inj hd
    trivial
  | case7 e pc =>
    intro h
    obtain ⟨d, -, hd⟩ := Option.map_eq_some_iff.mp h
    obtain ⟨-, rfl⟩ := Prod.mk.inj hd
    trivial
  | case8 =>
    intro h
    cases h

lemma faithful_getAlias {db : Db} {req : Visit} {result : Except JsString (Option UrlRecord)}
    (h : ∀ record, result = .ok (some record) → ∃ row ∈ db.urls,
      row.alias = req.alias ∧ Describes record row) :
    Faithful db (req, getAlias joi (fun _ => result) req) := by
  unfold getAlias
  cases joi.string aliasSchema req.alias with
  | error details => trivial
  | ok a =>
    cases result with
    | error message => trivial
    | ok found =>
      cases found with
      | none => trivial
      | some record =>
        obtain ⟨row, hrow, ha, hid, -, hurl⟩ := h record rfl
        refine ⟨rfl, row, hrow, ha, hurl, ?_⟩
        change bigIntText record.id = decimal row.id
        rw [hid, bigIntText_natCast]

/-- What a visit knows when its resolution has ended makes its answer faithful. -/
lemma faithful_answeredBy {db : Db} (hholds : task.asCall.Holds db) (hasks : Asks task) :
    ∀ visit ∈ answeredBy joi e task, Faithful db visit := by
  intro visit hvisit
  revert hvisit
  fun_cases answeredBy joi e task with
  | case1 req details =>
    intro hvisit
    rw [List.mem_singleton.mp hvisit]
    trivial
  | case3 now req a pc =>
    intro hvisit
    obtain ⟨result, hresult, rfl⟩ := Option.map_eq_some_iff.mp (Option.mem_toList.mp hvisit)
    apply faithful_getAlias
    rintro record rfl
    have hreturned := eq_of_outcome hresult
    subst hreturned
    obtain ⟨row, hrow, ha, hdescribes⟩ := hholds
    exact ⟨row, hrow, ha.trans hasks, hdescribes⟩
  | case2 | case4 =>
    intro hvisit
    cases hvisit

/-- The proof outline of the service, with the answers that it has given. -/
def outline (joi : Joi) (host : Host) (batchSize : ℕ) : Outline (journaled joi host batchSize) where
  shared j := Sane host j.service ∧ ∀ visit ∈ j.answered, Faithful j.service.db visit
  thread j task := (task.asCall.Holds j.service.db ∧ task.Sound j.service.db) ∧ Asks task
  pair task other := Apart task.asCall other.asCall
  pair_symm _ _ h a hm hl := h a hl hm
  own e j task j' task' hj htask h := by
    obtain ⟨hstep, hanswered⟩ := step_of_journalStep h
    have hmove := taskMove_of_step hstep
    have hurls := hmove.touches.1.urls
    obtain ⟨hsane, hthread⟩ := hmove.own hj.1 htask.1.1 htask.1.2
    refine ⟨⟨hsane, fun visit hvisit => ?_⟩, hthread, asks_step hstep htask.2⟩
    rw [hanswered] at hvisit
    rcases List.mem_append.mp hvisit with hold | hnew
    · exact (hj.2 visit hold).mono hurls
    · exact (faithful_answeredBy htask.1.1 htask.2 visit hnew).mono hurls
  other e j task j' task' other hj htask hother hpair h := by
    have hstep := (step_of_journalStep h).1
    obtain ⟨hthread, hapart⟩ := (StorableClicks.outline joi host batchSize).other e j.service task
      j'.service task' other hj.1 htask.1 hother.1 hpair hstep
    exact ⟨⟨hthread, hother.2⟩, hapart⟩
  env_shared e j j' hj h := by
    obtain ⟨db', hstep, rfl⟩ := Option.map_eq_some_iff.mp h
    have hurls := (hj.1.coherent.surroundings hstep).2.urls
    exact ⟨(StorableClicks.outline joi host batchSize).env_shared e _ _ hj.1
      (tasks_env hstep), fun visit hvisit => (hj.2 visit hvisit).mono hurls⟩
  env_thread e j j' task hj htask h := by
    obtain ⟨db', hstep, rfl⟩ := Option.map_eq_some_iff.mp h
    exact ⟨(StorableClicks.outline joi host batchSize).env_thread e _ _ task hj.1 htask.1
      (tasks_env hstep), htask.2⟩

/-! The figures of a URL. -/

/-- The redirects that report a click of the URL. -/
def redirectsOf (urlId : JsString) (answered : List (Visit × Answer)) : ℕ :=
  answered.countP fun visit =>
    match visit.2 with
    | .redirect _ _ click => click.urlId = urlId
    | _ => false

def rowsOf (urlId : JsString) (rows : List ClickRow) : ℕ :=
  rows.countP fun row => asText (some row.url_id) = some urlId

/-- The unique visitors over some days. -/
def visitorsOf (urlId : JsString) (days : Finset JsString) (s : Metrics) : ℕ :=
  ∑ day ∈ days, (s.visitors (visitorsKey urlId day)).length

/-- One for a click of the URL. -/
def unitOf (urlId : JsString) (c : TrackedClick) : ℕ := if c.url_id = urlId then 1 else 0

/-- What a call of `trackClick` may still add to the counter of a URL, to its visitors and to
its events. -/
def owed (urlId : JsString) : TrackPc → ℕ × ℕ × ℕ
  | .checking c | .counting c => (unitOf urlId c, 0, 0)
  | .fingerprinting c _ => (0, unitOf urlId c, unitOf urlId c)
  | .pushing c => (0, 0, unitOf urlId c)
  | .finished => 0

def share (urlId : JsString) : Task → ℕ × ℕ × ℕ
  | .tracking pc => owed urlId pc
  | .worker pc => (0, 0, rowsOf urlId (parsedRows (held pc)))
  | .call _ | .visit _ _ _ => 0

/-- The rows of the URL and those that its queued events will give. -/
def eventsOf (urlId : JsString) (s : Stores) : ℕ :=
  rowsOf urlId s.clicks + rowsOf urlId (parsedRows s.buffer)

/-- The figures with what the tasks still owe them. -/
structure Balanced (urlId : JsString) (days : Finset JsString) (j : Journal)
    (total : ℕ × ℕ × ℕ) : Prop where
  counted : j.service.store.totals (clicksKey urlId) + total.1 ≤ redirectsOf urlId j.answered
  visitors : visitorsOf urlId days j.service.store + total.2.1 ≤
    j.service.store.totals (clicksKey urlId)
  recorded : eventsOf urlId j.service.store.toStores + total.2.2 ≤
    j.service.store.totals (clicksKey urlId)

/-- The day under which a visitor is filed is a date. -/
def Dated : Task → Prop
  | .tracking (.fingerprinting _ day) => day.length = 10
  | _ => True

/-- A step that answers `r` redirects and counts `n` clicks. -/
structure Books (urlId : JsString) (days : Finset JsString) (r n : ℕ) (s s' : Metrics)
    (own own' : ℕ × ℕ × ℕ) : Prop where
  totals : s'.totals (clicksKey urlId) = s.totals (clicksKey urlId) + n
  counted : n + own'.1 ≤ own.1 + r
  visitors : visitorsOf urlId days s' + own'.2.1 ≤ visitorsOf urlId days s + own.2.1 + n
  recorded : eventsOf urlId s'.toStores + own'.2.2 ≤ eventsOf urlId s.toStores + own.2.2 + n

variable {urlId : JsString} {days : Finset JsString}

lemma rowsOf_append (rows rows' : List ClickRow) :
    rowsOf urlId (rows ++ rows') = rowsOf urlId rows + rowsOf urlId rows' :=
  List.countP_append

lemma rowsOf_cons (raw : JsString) (raws : List JsString) :
    rowsOf urlId (parsedRows (raw :: raws)) =
      rowsOf urlId (parsedRows [raw]) + rowsOf urlId (parsedRows raws) := by
  rw [← rowsOf_append, ← parsedRows_append, List.singleton_append]

variable (urlId) in
lemma rowsOf_le_of_start {raws raws' : List JsString} (h : raws <+: raws') :
    rowsOf urlId (parsedRows raws) ≤ rowsOf urlId (parsedRows raws') := by
  obtain ⟨rest, rfl⟩ := h
  rw [parsedRows_append, rowsOf_append]
  exact Nat.le_add_right _ _

/-- Only a click of the URL gives a row of it. -/
lemma rowsOf_eventPayload (c : TrackedClick) :
    rowsOf urlId (parsedRows [eventPayload c]) ≤ unitOf urlId c := by
  cases hevent : parseEvent (eventPayload c) with
  | none => simp [parsedRows, hevent, rowsOf]
  | some event =>
    have hrows : parsedRows [eventPayload c] = [rowOf event] := by simp [parsedRows, hevent]
    have hid : event.url_id = .str c.url_id := by
      rw [parseEvent, parse_eventPayload, Option.bind_some, validateEvent, prop_url_id,
        prop_timestamp, prop_ip_address, prop_user_agent, prop_referer] at hevent
      obtain ⟨-, hd⟩ := Option.ite_none_right_eq_some.mp hevent
      rw [← Option.some.inj hd]
    have htext : asText (some (rowOf event).url_id) = some c.url_id := by
      rw [rowOf, hid]
      rfl
    rw [hrows, rowsOf, unitOf, List.countP_singleton]
    simp [htext]

lemma eventsOf_push (s : Stores) (raw : JsString) :
    eventsOf urlId (s.push [raw]) = eventsOf urlId s + rowsOf urlId (parsedRows [raw]) := by
  rw [eventsOf, Stores.push, parsedRows_append, rowsOf_append, ← Nat.add_assoc]
  rfl

lemma length_insert_list_le {α : Type*} [DecidableEq α] {a : α} {l : List α} :
    (insert a l).length ≤ l.length + 1 := by
  by_cases h : a ∈ l
  · exact (List.length_insert_of_mem h).le.trans (Nat.le_succ _)
  · exact (List.length_insert_of_not_mem h).le

/-- SADD adds at most one visitor, to one day of one URL. -/
lemma visitorsOf_sadd (hdays : ∀ day ∈ days, day.length = 10) (s : Metrics) (c : TrackedClick)
    {day : JsString} (hday : day.length = 10) (member : JsString) :
    visitorsOf urlId days (s.sadd (visitorsKey c.url_id day) member) ≤
      visitorsOf urlId days s + unitOf urlId c := by
  have hterm : ∀ other ∈ days,
      ((s.sadd (visitorsKey c.url_id day) member).visitors (visitorsKey urlId other)).length ≤
        (s.visitors (visitorsKey urlId other)).length +
          if other = day then unitOf urlId c else 0 := by
    intro other hother
    have hkey : visitorsKey urlId other = visitorsKey c.url_id day ↔
        urlId = c.url_id ∧ other = day :=
      DailyVisitors.visitorsKey_eq_iff ((hdays other hother).trans hday.symm)
    rw [Metrics.sadd]
    dsimp only
    by_cases hsame : visitorsKey urlId other = visitorsKey c.url_id day
    · obtain ⟨hid, rfl⟩ := hkey.mp hsame
      rw [hsame, Function.update_self, if_pos rfl, unitOf, if_pos hid.symm]
      exact length_insert_list_le
    · rw [Function.update_of_ne hsame]
      exact Nat.le_add_right _ _
  calc visitorsOf urlId days (s.sadd (visitorsKey c.url_id day) member)
      ≤ ∑ other ∈ days, ((s.visitors (visitorsKey urlId other)).length +
          if other = day then unitOf urlId c else 0) := Finset.sum_le_sum hterm
    _ = visitorsOf urlId days s + ∑ other ∈ days, if other = day then unitOf urlId c else 0 :=
        Finset.sum_add_distrib
    _ ≤ visitorsOf urlId days s + unitOf urlId c := by
        rw [Finset.sum_ite_eq']
        split_ifs <;> omega

lemma Books.refl (s : Metrics) (own : ℕ × ℕ × ℕ) : Books urlId days 0 0 s s own own :=
  ⟨rfl, (Nat.zero_add _).le, le_rfl, le_rfl⟩

/-- What is owed may be given up. -/
lemma Books.forgive {n : ℕ} {s s' : Metrics} {own own' : ℕ × ℕ × ℕ}
    (h : Books urlId days 0 n s s' own own') : Books urlId days 0 n s s' own 0 := by
  have hcounted := h.counted
  have hvisitors := h.visitors
  have hrecorded := h.recorded
  refine ⟨h.totals, ?_, ?_, ?_⟩
  · change n + 0 ≤ own.1 + 0
    omega
  · change visitorsOf urlId days s' + 0 ≤ _
    omega
  · change eventsOf urlId s'.toStores + 0 ≤ _
    omega

/-- A command that is executed keeps the books, and so does one that is not or whose reply is
lost. -/
lemma books_issue (n : ℕ) {s executed s' : Metrics} {own : ℕ × ℕ × ℕ} {outcome : Outcome}
    {next pc' : TrackPc} (hserved : Books urlId days 0 n s executed own (owed urlId next))
    (h : issue outcome s executed next = (s', pc')) :
    ∃ m, Books urlId days 0 m s s' own (owed urlId pc') := by
  cases outcome with
  | served =>
    cases h
    exact ⟨n, hserved⟩
  | failed =>
    cases h
    exact ⟨0, (Books.refl s own).forgive⟩
  | lost =>
    cases h
    exact ⟨n, hserved.forgive⟩

lemma totals_hincrby (s : Metrics) (c : TrackedClick) :
    (s.hincrby (clicksKey c.url_id)).totals (clicksKey urlId) =
      s.totals (clicksKey urlId) + unitOf urlId c := by
  rw [Metrics.hincrby, unitOf]
  dsimp only
  by_cases h : c.url_id = urlId
  · rw [h, Function.update_self, if_pos rfl]
  · have hne : clicksKey urlId ≠ clicksKey c.url_id := fun hkey =>
      h (List.append_right_injective (js "metrics:clicks:") hkey).symm
    rw [Function.update_of_ne hne, if_neg h, Nat.add_zero]

lemma books_push (s : Metrics) {raw : JsString} {n : ℕ}
    (hraw : rowsOf urlId (parsedRows [raw]) ≤ n) :
    Books urlId days 0 0 s (s.rpush raw) (0, 0, n) 0 := by
  refine ⟨rfl, le_rfl, le_rfl, ?_⟩
  change eventsOf urlId (s.toStores.push [raw]) + 0 ≤ eventsOf urlId s.toStores + n
  rw [eventsOf_push]
  exact Nat.add_le_add_left hraw _

lemma books_track (hdays : ∀ day ∈ days, day.length = 10) {reply : TrackReply} {s s' : Metrics}
    {pc pc' : TrackPc} (hpc : Dated (.tracking pc)) (h : trackStep reply s pc = some (s', pc')) :
    ∃ n, Books urlId days 0 n s s' (owed urlId pc) (owed urlId pc') := by
  cases pc with
  | finished => cases h
  | checking c =>
    refine books_issue 0 ?_ (Option.some.inj h)
    split_ifs
    · exact (Books.refl s _).forgive
    · exact Books.refl s _
  | counting c =>
    refine books_issue (unitOf urlId c) ⟨totals_hincrby s c, le_rfl, ?_, ?_⟩ (Option.some.inj h)
    · exact le_rfl
    · exact le_rfl
  | fingerprinting c day =>
    have hserved : Books urlId days 0 0 s (s.sadd (visitorsKey c.url_id day) c.fingerprint)
        (owed urlId (.fingerprinting c day)) (owed urlId (.pushing c)) :=
      ⟨rfl, le_rfl, visitorsOf_sadd hdays s c hpc c.fingerprint, le_rfl⟩
    exact books_issue 0 hserved (Option.some.inj h)
  | pushing c =>
    exact books_issue 0 (books_push s (rowsOf_eventPayload c)) (Option.some.inj h)

lemma owed_enter (call : TrackCall) :
    (owed urlId call.enter).1 ≤ (if call.urlId = urlId then 1 else 0) ∧
      (owed urlId call.enter).2 = 0 ∧ Dated (.tracking call.enter) := by
  unfold TrackCall.enter
  by_cases hip : isIP call.ip = 0
  · rw [if_pos hip]
    exact ⟨Nat.zero_le _, rfl, trivial⟩
  · rw [if_neg hip]
    exact ⟨le_rfl, rfl, trivial⟩

lemma dated_track {reply : TrackReply} {s s' : Metrics} {pc pc' : TrackPc}
    (h : trackStep reply s pc = some (s', pc')) : Dated (.tracking pc') := by
  obtain ⟨outcome, now⟩ := reply
  cases pc with
  | finished => cases h
  | checking c =>
    cases outcome <;> cases h
    · split_ifs <;> trivial
    · trivial
    · trivial
  | counting c =>
    cases outcome <;> cases h
    · exact isoDay_length now
    · trivial
    · trivial
  | fingerprinting c day | pushing c => cases outcome <;> cases h <;> trivial

/-- A worker hands events on, or turns them into rows. -/
lemma books_flush {s s' : Stores} {pc pc' : FlushPc} (hmove : FlushMove s pc s' pc') :
    eventsOf urlId s' + rowsOf urlId (parsedRows (held pc')) ≤
      eventsOf urlId s + rowsOf urlId (parsedRows (held pc)) := by
  cases hmove with
  | keep hheld hpops => exact Nat.add_le_add_left (rowsOf_le_of_start urlId hheld) _
  | @pop raw rest _ hbuffer hheld hpops =>
    have hle := rowsOf_le_of_start urlId hheld
    rw [parsedRows_append, rowsOf_append] at hle
    rw [eventsOf, eventsOf, hbuffer, rowsOf_cons raw rest]
    dsimp only
    omega
  | commit hheld hpops =>
    rw [hheld]
    change rowsOf urlId (s.clicks ++ parsedRows (held pc)) + rowsOf urlId (parsedRows s.buffer) +
      0 ≤ rowsOf urlId s.clicks + rowsOf urlId (parsedRows s.buffer) + _
    rw [rowsOf_append]
    omega
  | @requeue raw rest _ hheld hrest hpops =>
    have hle := rowsOf_le_of_start urlId hrest
    rw [eventsOf_push, hheld, rowsOf_cons raw rest]
    omega

variable (urlId) in
/-- A redirect owes a click of its URL. -/
lemma share_afterAnswer (req : Visit) (now : ℤ) (answer : Answer) :
    (share urlId (afterAnswer now answer)).1 ≤ redirectsOf urlId [(req, answer)] ∧
      (share urlId (afterAnswer now answer)).2 = 0 ∧ Dated (afterAnswer now answer) := by
  cases answer with
  | json | failed => exact ⟨Nat.zero_le _, rfl, trivial⟩
  | redirect status location click =>
    have hcount : redirectsOf urlId [(req, .redirect status location click)] =
        if click.urlId = urlId then 1 else 0 := by
      rw [redirectsOf, List.countP_singleton]
      simp
    rw [hcount]
    exact owed_enter _

lemma books_step (hdays : ∀ day ∈ days, day.length = 10) {s s' : Service}
    (h : taskStep joi host batchSize e s task = some (s', task')) (hdated : Dated task) :
    Dated task' ∧ ∃ n, Books urlId days (redirectsOf urlId (answeredBy joi e task)) n s.store
      s'.store (share urlId task) (share urlId task') := by
  revert h
  fun_cases taskStep joi host batchSize e s task with
  | case1 e c =>
    intro h
    obtain ⟨d, -, hd⟩ := Option.map_eq_some_iff.mp h
    obtain ⟨rfl, rfl⟩ := Prod.mk.inj hd
    exact ⟨trivial, 0, Books.refl _ _⟩
  | case2 req details hjoi =>
    intro h
    cases h
    refine ⟨trivial, 0, ?_⟩
    rw [answeredBy, hjoi]
    exact Books.refl _ _
  | case3 req a hjoi =>
    intro h
    cases h
    refine ⟨trivial, 0, ?_⟩
    rw [answeredBy, hjoi]
    exact Books.refl _ _
  | case4 req a pc reply =>
    intro h
    obtain ⟨d, -, hd⟩ := Option.map_eq_some_iff.mp h
    obtain ⟨rfl, rfl⟩ := Prod.mk.inj hd
    exact ⟨trivial, 0, Books.refl _ _⟩
  | case5 now req a pc =>
    intro h
    obtain ⟨result, hresult, hd⟩ := Option.map_eq_some_iff.mp h
    obtain ⟨rfl, rfl⟩ := Prod.mk.inj hd
    obtain ⟨hshare, hrest, hdated'⟩ :=
      share_afterAnswer urlId req now (getAlias joi (fun _ => result) req)
    refine ⟨hdated', 0, rfl, ?_, ?_, ?_⟩
    · rw [answeredBy, hresult]
      exact (Nat.zero_add _).le.trans (hshare.trans (Nat.le_add_left _ _))
    · rw [hrest]
      exact le_rfl
    · rw [hrest]
      exact le_rfl
  | case6 reply pc =>
    intro h
    obtain ⟨d, hstep, hd⟩ := Option.map_eq_some_iff.mp h
    obtain ⟨rfl, rfl⟩ := Prod.mk.inj hd
    exact ⟨dated_track hstep, books_track hdays hdated hstep⟩
  | case7 e pc =>
    intro h
    obtain ⟨⟨stores', pc'⟩, hstep, hd⟩ := Option.map_eq_some_iff.mp h
    obtain ⟨rfl, rfl⟩ := Prod.mk.inj hd
    refine ⟨trivial, 0, ?_⟩
    rcases workerStep_cases hstep with ⟨rfl, rfl, rfl⟩ | hmove
    · exact Books.refl _ _
    · exact ⟨rfl, le_rfl, le_rfl, books_flush hmove⟩
  | case8 =>
    intro h
    cases h

lemma Balanced.step {r n : ℕ} {own own' others : ℕ × ℕ × ℕ}
    (hbooks : Books urlId days r n j.service.store j'.service.store own own')
    (hredirects : redirectsOf urlId j'.answered = redirectsOf urlId j.answered + r)
    (h : Balanced urlId days j (own + others)) : Balanced urlId days j' (own' + others) := by
  have htotals := hbooks.totals
  have hcounted := hbooks.counted
  have hvisitors := hbooks.visitors
  have hrecorded := hbooks.recorded
  obtain ⟨hcounted', hvisitors', hrecorded'⟩ := h
  simp only [Prod.fst_add, Prod.snd_add] at hcounted' hvisitors' hrecorded'
  refine ⟨?_, ?_, ?_⟩
  · rw [Prod.fst_add]
    omega
  · rw [Prod.snd_add, Prod.fst_add]
    omega
  · rw [Prod.snd_add, Prod.snd_add]
    omega

section Runs
variable {ι κ : Type*} [DecidableEq ι] [DecidableEq κ]

omit [DecidableEq ι] [DecidableEq κ] in
lemma outline_empty : (outline joi host batchSize).Holds
    ((emptyJournal, atStart) : Journal × (ι ⊕ κ → Task)) := by
  have hstart : (StorableClicks.outline joi host batchSize).Holds
      ((emptyService, atStart) : Service × (ι ⊕ κ → Task)) := outline_atStart
  refine ⟨⟨hstart.shared, fun visit hvisit => ?_⟩, fun i => ⟨hstart.thread i, ?_⟩, hstart.pair⟩
  · cases hvisit
  · cases i <;> trivial

/-- Every redirect that the service has ever answered goes to the URL of the committed row with
the alias that was asked for, whatever failed in between; and where a call of `shortenUrl` has
returned that alias, this is the URL that was submitted to it. -/
theorem redirects_faithful {d : Journal × (ι ⊕ κ → Task)}
    (h : ((journaled joi host batchSize).system (ι ⊕ κ)).Reaches (emptyJournal, atStart) d) :
    ∀ req status location click, (req, .redirect status location click) ∈ d.1.answered →
      status = 302 ∧ ∃ row ∈ d.1.service.db.urls, row.alias = req.alias ∧
        location = some (.str row.original_url) ∧ click.urlId = decimal row.id ∧
        ∀ i u o, d.2 i = .call (.shorten u o (.returned req.alias)) → row.original_url = u := by
  intro req status location click hmem
  have hd := (outline joi host batchSize).holds_of_reaches h outline_empty
  obtain ⟨hstatus, row, hrow, ha, hlocation, hclick⟩ := hd.shared.2 _ hmem
  refine ⟨hstatus, row, hrow, ha, hlocation, hclick, fun i u o hi => ?_⟩
  have hcall := (hd.thread i).1.1
  rw [hi] at hcall
  obtain ⟨row', hrow', ha', hurl⟩ := hcall
  rw [hd.shared.1.coherent.alias_injective hrow hrow' (ha.trans ha'.symm)]
  exact hurl

lemma run_oneVisit : ∃ d, ((journaled unitwiseJoi epochHost 1).system (Bool ⊕ Unit)).run oneVisit
    (emptyJournal, atStart) = some d ∧ redirectsOf (js "238328") d.1.answered = 1 ∧
    d.1.answered.map (fun visit => visit.1.alias) = [js "1000"] ∧
    d.1.service.store.totals (clicksKey (js "238328")) = 1 := by
  have hrun : (((journaled unitwiseJoi epochHost 1).system (Bool ⊕ Unit)).run oneVisit
      (emptyJournal, atStart)).map (fun d => (redirectsOf (js "238328") d.1.answered,
        d.1.answered.map fun visit => visit.1.alias,
        d.1.service.store.totals (clicksKey (js "238328")))) = some (1, [js "1000"], 1) := by
    decide +kernel
  obtain ⟨d, hd, hview⟩ := Option.map_eq_some_iff.mp hrun
  obtain ⟨hcount, hview⟩ := Prod.mk.inj hview
  exact ⟨d, hd, hcount, Prod.mk.inj hview⟩

theorem redirects_faithful_oneVisit : ∃ d : Journal × (Bool ⊕ Unit → Task),
    ((journaled unitwiseJoi epochHost 1).system (Bool ⊕ Unit)).run oneVisit
      (emptyJournal, atStart) = some d ∧
    d.1.answered.map (fun visit => visit.1.alias) = [js "1000"] ∧
    redirectsOf (js "238328") d.1.answered = 1 ∧
    ∀ req status location click, (req, .redirect status location click) ∈ d.1.answered →
      status = 302 ∧ ∃ row ∈ d.1.service.db.urls, row.alias = req.alias ∧
        location = some (.str row.original_url) ∧ click.urlId = decimal row.id ∧
        ∀ i u o, d.2 i = .call (.shorten u o (.returned req.alias)) → row.original_url = u := by
  obtain ⟨d, hd, hcount, haliases, -⟩ := run_oneVisit
  exact ⟨d, hd, haliases, hcount, redirects_faithful ⟨oneVisit, hd⟩⟩

variable [Fintype ι] [Fintype κ]

/-- Whatever fails and whatever gets lost, as long as a failing COMMIT is not applied and each
command of Redis runs at most once: over a URL's clicks the table never shows more than the live
counter, counted with what is still queued or held by a worker; the unique visitors of any days are
never more than the counter shows, and that is never more than the redirects. -/
theorem counts_never_exceed_redirects {d : Journal × (ι ⊕ κ → Task)}
    (h : ((journaled joi host batchSize).system (ι ⊕ κ)).Reaches (emptyJournal, atStart) d)
    (urlId : JsString) :
    rowsOf urlId d.1.service.store.clicks + rowsOf urlId (parsedRows d.1.service.store.buffer) +
        ∑ i, (share urlId (d.2 i)).2.2 ≤ d.1.service.store.totals (clicksKey urlId) ∧
      (∀ days : Finset JsString, (∀ day ∈ days, day.length = 10) →
        visitorsOf urlId days d.1.service.store ≤ d.1.service.store.totals (clicksKey urlId)) ∧
      d.1.service.store.totals (clicksKey urlId) ≤ redirectsOf urlId d.1.answered := by
  have hbalanced : ∀ days : Finset JsString, (∀ day ∈ days, day.length = 10) →
      Balanced urlId days d.1 (∑ i, share urlId (d.2 i)) := by
    intro days hdays
    refine (Threads.total_invariant Dated (share urlId) (Balanced urlId days) ?_ ?_ h ?_ ?_).2
    · intro e j task j' task' others hdated hj hstep
      obtain ⟨htask, hanswered⟩ := step_of_journalStep hstep
      obtain ⟨hdated', n, hbooks⟩ := books_step hdays htask hdated
      refine ⟨hdated', hj.step hbooks ?_⟩
      rw [hanswered, redirectsOf, List.countP_append]
      rfl
    · intro e j j' total hj hstep
      obtain ⟨db', -, rfl⟩ := Option.map_eq_some_iff.mp hstep
      exact ⟨hj.counted, hj.visitors, hj.recorded⟩
    · intro i
      cases i <;> trivial
    · have hzero : ∀ i : ι ⊕ κ, share urlId (atStart i) = 0 := by
        intro i
        cases i <;> rfl
      simp only [hzero, Finset.sum_const_zero]
      refine ⟨le_rfl, ?_, le_rfl⟩
      simp [visitorsOf, emptyJournal, emptyService, emptyQueue]
  have hfigures := hbalanced ∅ (by simp)
  have hcounted := hfigures.counted
  have hrecorded := hfigures.recorded
  rw [Prod.snd_sum, Prod.snd_sum] at hrecorded
  refine ⟨hrecorded, fun days hdays => ?_, (Nat.le_add_right _ _).trans hcounted⟩
  exact (Nat.le_add_right _ _).trans (hbalanced days hdays).visitors

theorem counts_never_exceed_redirects_oneVisit : ∃ d : Journal × (Bool ⊕ Unit → Task),
    ((journaled unitwiseJoi epochHost 1).system (Bool ⊕ Unit)).run oneVisit
      (emptyJournal, atStart) = some d ∧
    redirectsOf (js "238328") d.1.answered = 1 ∧
    d.1.service.store.totals (clicksKey (js "238328")) = 1 ∧
    rowsOf (js "238328") d.1.service.store.clicks +
        rowsOf (js "238328") (parsedRows d.1.service.store.buffer) +
        ∑ i, (share (js "238328") (d.2 i)).2.2 ≤
      d.1.service.store.totals (clicksKey (js "238328")) ∧
    (∀ days : Finset JsString, (∀ day ∈ days, day.length = 10) →
      visitorsOf (js "238328") days d.1.service.store ≤
        d.1.service.store.totals (clicksKey (js "238328"))) ∧
    d.1.service.store.totals (clicksKey (js "238328")) ≤
      redirectsOf (js "238328") d.1.answered := by
  obtain ⟨d, hd, hcount, -, htotal⟩ := run_oneVisit
  exact ⟨d, hd, hcount, htotal, counts_never_exceed_redirects ⟨oneVisit, hd⟩ _⟩

end Runs

end UrlShortener.ServiceJournal
