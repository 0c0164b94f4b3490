import UrlShortener.ClickQueue
import UrlShortener.Calendar

/-! The sets `metrics:visitors:*` beside the events of the buffer, day by day, when every command
is served. A call reads the clock twice, with commands of other calls in between. -/
namespace UrlShortener.DailyVisitors
open Js Transition FlushWorker Analytics ClickQueue

/-- A call is begun, or its command is answered; either reads the clock. -/
inductive Request
  | track (call : TrackCall)
  | served (now : ℤ)

def Request.now : Request → ℤ
  | .track call => call.now
  | .served now => now

def Request.event : Request → Event
  | .track call => .track call
  | .served now => .command ⟨.served, now⟩

/-- The queue with the last reading of the clock, the clicks with the second reading of their
calls, and the clicks whose SADD was executed, with the day of its key. -/
structure Diary where
  queue : Queue
  clock : ℤ
  read : List (TrackedClick × ℤ)
  filed : List (TrackedClick × JsString)

def readBy : Request → TrackPc → List (TrackedClick × ℤ)
  | .served now, .counting c => [(c, now)]
  | _, _ => []

def filedBy : Request → TrackPc → List (TrackedClick × JsString)
  | .served _, .fingerprinting c day => [(c, day)]
  | _, _ => []

/-- The clock does not go back. -/
def callerStep (r : Request) (l : Diary) (pc : TrackPc) : Option (Diary × TrackPc) :=
  if l.clock ≤ r.now then
    (producerStep r.event l.queue pc).map fun d =>
      (⟨d.1, r.now, l.read ++ readBy r pc, l.filed ++ filedBy r pc⟩, d.2)
  else none

/-- The consumers change the buffer between the steps of the calls. -/
def callers : Threads Diary TrackPc Request (List JsString) where
  step := callerStep
  env buffer l := some { l with queue := { l.queue with store :=
    { l.queue.store with buffer := buffer } } }

def emptyDiary (clock : ℤ) : Diary := ⟨emptyQueue, clock, [], []⟩

/-- The day on which the `timestamp` field falls. -/
def clickDay (c : TrackedClick) : Option ℤ := (parseISO c.timestamp).map utcDay

/-- The set of every URL and day holds the fingerprints of the events pushed for that URL whose
timestamp falls on that day. -/
def SetsMatch (q : Queue) : Prop :=
  ∀ (urlId : JsString) (day : ℤ) (fingerprint : JsString),
    fingerprint ∈ q.store.visitors (visitorsKey urlId (isoDay (day * 86400000))) ↔
      ∃ c ∈ q.pushed, c.url_id = urlId ∧ clickDay c = some day ∧ c.fingerprint = fingerprint

/-- Both readings of the clock fall on one day. -/
def SameDay (r : TrackedClick × ℤ) : Prop := clickDay r.1 = some (utcDay r.2)

instance (r : TrackedClick × ℤ) : Decidable (SameDay r) :=
  inferInstanceAs (Decidable (clickDay r.1 = some (utcDay r.2)))

/-! What the steps keep. -/

/-- The clicks of a call under way: those that are read and not yet filed, and those that are
filed and not yet pushed. -/
def pending : TrackPc → Multiset (TrackedClick × JsString) × Multiset TrackedClick
  | .fingerprinting c day => ({(c, day)}, 0)
  | .pushing c => (0, {c})
  | _ => 0

/-- Every set holds what was filed under its key. -/
def Filed (l : Diary) : Prop := ∀ key fingerprint, fingerprint ∈ l.queue.store.visitors key ↔
  ∃ f ∈ l.filed, visitorsKey f.1.url_id f.2 = key ∧ f.1.fingerprint = fingerprint

structure Kept (l : Diary) (total : Multiset (TrackedClick × JsString) × Multiset TrackedClick) :
    Prop where
  read : (l.read.map fun r => (r.1, isoDay r.2) : Multiset (TrackedClick × JsString)) =
    l.filed + total.1
  pushed : (l.filed.map Prod.fst : Multiset TrackedClick) = l.queue.pushed + total.2
  sets : Filed l

/-- What one step of a call does to the records. -/
inductive DiaryMove (l : Diary) (pc : TrackPc) : Diary → TrackPc → Prop
  | skip {store : Metrics} {clock : ℤ} {pc' : TrackPc}
      (hsets : store.visitors = l.queue.store.visitors) (hpc : pending pc' = pending pc) :
      DiaryMove l pc ⟨⟨store, l.queue.pushed⟩, clock, l.read, l.filed⟩ pc'
  | read {store : Metrics} {now : ℤ} {c : TrackedClick} {pc' : TrackPc}
      (hsets : store.visitors = l.queue.store.visitors) (hpc : pending pc = 0)
      (hpc' : pending pc' = ({(c, isoDay now)}, 0)) :
      DiaryMove l pc ⟨⟨store, l.queue.pushed⟩, now, l.read ++ [(c, now)], l.filed⟩ pc'
  | file {clock : ℤ} {c : TrackedClick} {day : JsString} {pc' : TrackPc}
      (hpc : pending pc = ({(c, day)}, 0)) (hpc' : pending pc' = (0, {c})) :
      DiaryMove l pc ⟨⟨l.queue.store.sadd (visitorsKey c.url_id day) c.fingerprint,
        l.queue.pushed⟩, clock, l.read, l.filed ++ [(c, day)]⟩ pc'
  | push {store : Metrics} {clock : ℤ} {c : TrackedClick} {pc' : TrackPc}
      (hsets : store.visitors = l.queue.store.visitors) (hpc : pending pc = (0, {c}))
      (hpc' : pending pc' = 0) :
      DiaryMove l pc ⟨⟨store, l.queue.pushed ++ [c]⟩, clock, l.read, l.filed⟩ pc'

lemma pending_enter (call : TrackCall) : pending call.enter = 0 := by
  unfold TrackCall.enter
  split_ifs <;> rfl

lemma diaryMove_of_step {r : Request} {l l' : Diary} {pc pc' : TrackPc}
    (h : callerStep r l pc = some (l', pc')) : DiaryMove l pc l' pc' := by
  obtain ⟨-, h⟩ := Option.ite_none_right_eq_some.mp h
  obtain ⟨⟨q', pc''⟩, hstep, hd⟩ := Option.map_eq_some_iff.mp h
  obtain ⟨rfl, rfl⟩ := Prod.mk.inj hd
  cases r with
  | track call =>
    rcases producerStep_cases hstep with ⟨call', he, rfl, rfl, rfl⟩ | ⟨reply, s', he, -⟩
    · simp only [readBy, filedBy, List.append_nil]
      exact .skip rfl (pending_enter call')
    · cases he
  | served now =>
    cases pc with
    | checking c =>
      cases hstep
      simp only [readBy, filedBy, pushedBy, List.append_nil]
      exact .skip rfl (by split_ifs <;> rfl)
    | counting c =>
      cases hstep
      simp only [readBy, filedBy, pushedBy, List.append_nil]
      exact .read rfl rfl rfl
    | fingerprinting c day =>
      cases hstep
      simp only [readBy, filedBy, pushedBy, List.append_nil]
      exact .file rfl rfl
    | pushing c =>
      cases hstep
      simp only [readBy, filedBy, pushedBy, List.append_nil]
      exact .push rfl rfl rfl
    | finished => cases hstep

lemma Filed.sadd {l l' : Diary} {c : TrackedClick} {day : JsString} (h : Filed l)
    (hstore : l'.queue.store = l.queue.store.sadd (visitorsKey c.url_id day) c.fingerprint)
    (hfiled : l'.filed = l.filed ++ [(c, day)]) : Filed l' := by
  intro key fingerprint
  rw [hstore, hfiled, Metrics.mem_sadd, h key fingerprint]
  simp only [List.mem_append, List.mem_singleton, or_and_right, exists_or, exists_eq_left]

lemma DiaryMove.kept {l l' : Diary} {pc pc' : TrackPc}
    {others : Multiset (TrackedClick × JsString) × Multiset TrackedClick}
    (hmove : DiaryMove l pc l' pc') (h : Kept l (pending pc + others)) :
    Kept l' (pending pc' + others) := by
  obtain ⟨hread, hpushed, hsets⟩ := h
  cases hmove with
  | skip hvisitors hpc =>
    rw [hpc]
    exact ⟨hread, hpushed, fun key => by rw [hvisitors]; exact hsets key⟩
  | @read store now c pc' hvisitors hpc hpc' =>
    rw [hpc, zero_add] at hread hpushed
    refine ⟨?_, ?_, fun key => by rw [hvisitors]; exact hsets key⟩
    · rw [hpc', List.map_append, ← Multiset.coe_add, hread, Prod.fst_add, List.map_singleton,
        Multiset.coe_singleton]
      abel
    · rw [hpc', Prod.snd_add, zero_add]
      exact hpushed
  | @file clock c day pc' hpc hpc' =>
    rw [hpc] at hread hpushed
    refine ⟨?_, ?_, hsets.sadd rfl rfl⟩
    · rw [hpc', hread, ← Multiset.coe_add, Multiset.coe_singleton, Prod.fst_add, Prod.fst_add]
      abel
    · rw [hpc', List.map_append, ← Multiset.coe_add, hpushed, List.map_singleton,
        Multiset.coe_singleton, Prod.snd_add, Prod.snd_add, zero_add]
      abel
  | @push store clock c pc' hvisitors hpc hpc' =>
    rw [hpc] at hread hpushed
    refine ⟨?_, ?_, fun key => by rw [hvisitors]; exact hsets key⟩
    · rw [hpc', zero_add]
      rw [Prod.fst_add, zero_add] at hread
      exact hread
    · rw [hpc', hpushed, ← Multiset.coe_add, Multiset.coe_singleton, Prod.snd_add, zero_add]
      abel

section Runs
variable {ι : Type*} [DecidableEq ι] [Fintype ι] {clock : ℤ} {d : Diary × (ι → TrackPc)}

lemma kept_of_reaches (h : (callers.system ι).Reaches (emptyDiary clock, fun _ => .finished) d) :
    Kept d.1 (∑ i, pending (d.2 i)) := by
  refine (Threads.total_invariant (fun _ => True) pending Kept ?_ ?_ h (fun _ => trivial) ?_).2
  · intro r l pc l' pc' others _ hl hstep
    exact ⟨trivial, (diaryMove_of_step hstep).kept hl⟩
  · intro buffer l l' total hl hstep
    cases hstep
    exact ⟨hl.read, hl.pushed, hl.sets⟩
  · refine ⟨by simp [emptyDiary, pending], by simp [emptyDiary, emptyQueue, pending], ?_⟩
    intro key fingerprint
    simp [emptyDiary, emptyQueue]

/-- When no call is in flight, every click that was read is filed and pushed. -/
lemma records_of_rest
    (h : (callers.system ι).Reaches (emptyDiary clock, fun _ => .finished) d)
    (hrest : ∀ i, d.2 i = .finished) :
    (∀ f, f ∈ d.1.filed ↔ ∃ r ∈ d.1.read, (r.1, isoDay r.2) = f) ∧
    ∀ c, c ∈ d.1.queue.pushed ↔ ∃ r ∈ d.1.read, r.1 = c := by
  obtain ⟨hread, hpushed, -⟩ := kept_of_reaches h
  simp only [hrest, pending, Finset.sum_const_zero, Prod.fst_zero, Prod.snd_zero,
    add_zero] at hread hpushed
  have hfiled : ∀ f, f ∈ d.1.filed ↔ ∃ r ∈ d.1.read, (r.1, isoDay r.2) = f := by
    intro f
    rw [← Multiset.mem_coe, ← hread, Multiset.mem_coe, List.mem_map]
  refine ⟨hfiled, fun c => ?_⟩
  rw [← Multiset.mem_coe, ← hpushed, Multiset.mem_coe, List.mem_map]
  constructor
  · intro hc
    obtain ⟨f, hf, rfl⟩ := hc
    obtain ⟨r, hr, rfl⟩ := (hfiled f).mp hf
    exact ⟨r, hr, rfl⟩
  · intro hc
    obtain ⟨r, hr, rfl⟩ := hc
    exact ⟨_, (hfiled _).mpr ⟨r, hr, rfl⟩, rfl⟩

lemma visitorsKey_eq_iff {urlId urlId' day day' : JsString} (hlen : day.length = day'.length) :
    visitorsKey urlId day = visitorsKey urlId' day' ↔ urlId = urlId' ∧ day = day' := by
  have hkey : ∀ id text : JsString,
      visitorsKey id text = js "metrics:visitors:" ++ (id ++ unit ':' :: text) := fun id text =>
    List.append_assoc _ _ _
  rw [hkey, hkey, List.append_cancel_left_eq]
  constructor
  · intro h
    obtain ⟨hid, hday⟩ := List.append_inj' h (by simp [hlen])
    exact ⟨hid, (List.cons.inj hday).2⟩
  · intro h
    rw [h.1, h.2]

/-- The second readings fall into years of four digits. -/
def FourDigitYears (l : Diary) : Prop := ∀ r ∈ l.read, FourDigitYear (utcDay r.2)

lemma mem_visitors
    (h : (callers.system ι).Reaches (emptyDiary clock, fun _ => .finished) d)
    (hrest : ∀ i, d.2 i = .finished) (hyears : FourDigitYears d.1) (urlId : JsString) (day : ℤ)
    (fingerprint : JsString) :
    fingerprint ∈ d.1.queue.store.visitors (visitorsKey urlId (isoDay (day * 86400000))) ↔
      ∃ r ∈ d.1.read, r.1.url_id = urlId ∧ utcDay r.2 = day ∧ r.1.fingerprint = fingerprint := by
  obtain ⟨hfiled, -⟩ := records_of_rest h hrest
  have hsets := (kept_of_reaches h).sets
  have hday : ∀ r ∈ d.1.read, isoDay r.2 = isoDay (day * 86400000) ↔ utcDay r.2 = day := by
    intro r hr
    rw [isoDay_eq_iff (hyears r hr), utcDay, utcDay, Int.mul_ediv_cancel day (by norm_num)]
  rw [hsets]
  constructor
  · intro hf
    obtain ⟨f, hf, hkey, hprint⟩ := hf
    obtain ⟨r, hr, rfl⟩ := (hfiled f).mp hf
    rw [visitorsKey_eq_iff (by rw [isoDay_length, isoDay_length]), hday r hr] at hkey
    exact ⟨r, hr, hkey.1, hkey.2, hprint⟩
  · intro hr
    obtain ⟨r, hr, hid, hd, hprint⟩ := hr
    refine ⟨_, (hfiled _).mpr ⟨r, hr, rfl⟩, ?_, hprint⟩
    rw [visitorsKey_eq_iff (by rw [isoDay_length, isoDay_length]), hday r hr]
    exact ⟨hid, hd⟩

/-- Two clicks of one visitor on one URL. -/
def Twin (c c' : TrackedClick) : Prop :=
  c'.url_id = c.url_id ∧ c'.fingerprint = c.fingerprint

/-- When no call is in flight, the sets match the pushed events if in every call both readings of
the clock fall on one day; and exactly if every click for which they do not has a twin that is
filed on the day of its timestamp, and one with a timestamp of the day on which it is filed. -/
theorem sets_match_of_same_day
    (h : (callers.system ι).Reaches (emptyDiary clock, fun _ => .finished) d)
    (hrest : ∀ i, d.2 i = .finished) (hyears : FourDigitYears d.1) :
    ((∀ r ∈ d.1.read, SameDay r) → SetsMatch d.1.queue) ∧
    (SetsMatch d.1.queue ↔ ∀ r ∈ d.1.read, ¬ SameDay r →
      (∀ day, clickDay r.1 = some day → ∃ r' ∈ d.1.read, Twin r.1 r'.1 ∧ utcDay r'.2 = day) ∧
      ∃ r' ∈ d.1.read, Twin r.1 r'.1 ∧ clickDay r'.1 = some (utcDay r.2)) := by
  have hpushed := (records_of_rest h hrest).2
  have hexact : SetsMatch d.1.queue ↔ ∀ r ∈ d.1.read, ¬ SameDay r →
      (∀ day, clickDay r.1 = some day → ∃ r' ∈ d.1.read, Twin r.1 r'.1 ∧ utcDay r'.2 = day) ∧
      ∃ r' ∈ d.1.read, Twin r.1 r'.1 ∧ clickDay r'.1 = some (utcDay r.2) := by
    constructor
    · intro hmatch r hr _
      constructor
      · intro day hday
        have hmem := (hmatch r.1.url_id day r.1.fingerprint).mpr
          ⟨r.1, (hpushed r.1).mpr ⟨r, hr, rfl⟩, rfl, hday, rfl⟩
        obtain ⟨r', hr', hid, hd, hprint⟩ := (mem_visitors h hrest hyears _ _ _).mp hmem
        exact ⟨r', hr', ⟨hid, hprint⟩, hd⟩
      · have hmem := (mem_visitors h hrest hyears _ _ _).mpr ⟨r, hr, rfl, rfl, rfl⟩
        obtain ⟨c, hc, hid, hd, hprint⟩ := (hmatch _ _ _).mp hmem
        obtain ⟨r', hr', rfl⟩ := (hpushed c).mp hc
        exact ⟨r', hr', ⟨hid, hprint⟩, hd⟩
    · intro htwins urlId day fingerprint
      rw [mem_visitors h hrest hyears]
      constructor
      · intro hr
        obtain ⟨r, hr, rfl, rfl, rfl⟩ := hr
        by_cases hsame : SameDay r
        · exact ⟨r.1, (hpushed r.1).mpr ⟨r, hr, rfl⟩, rfl, hsame, rfl⟩
        · obtain ⟨r', hr', ⟨hid, hprint⟩, hd⟩ := (htwins r hr hsame).2
          exact ⟨r'.1, (hpushed r'.1).mpr ⟨r', hr', rfl⟩, hid, hd, hprint⟩
      · intro hc
        obtain ⟨c, hc, rfl, hd, rfl⟩ := hc
        obtain ⟨r, hr, rfl⟩ := (hpushed c).mp hc
        by_cases hsame : SameDay r
        · have hday : utcDay r.2 = day := Option.some.inj (hsame.symm.trans hd)
          exact ⟨r, hr, rfl, hday, rfl⟩
        · obtain ⟨r', hr', ⟨hid, hprint⟩, hd'⟩ := (htwins r hr hsame).1 day hd
          exact ⟨r', hr', hid, hd', hprint⟩
  exact ⟨fun hsame => hexact.mpr fun r hr hne => absurd (hsame r hr) hne, hexact⟩

end Runs

/-- A call that starts at `start` and counts its click at `later`. -/
def oneCall (start later : ℤ) : List (Unit × Request ⊕ List JsString) :=
  [.inl ((), .track ⟨js "1", js "::1", js "agent", [], start⟩), .inl ((), .served start),
    .inl ((), .served later), .inl ((), .served later), .inl ((), .served later)]

def visitor : JsString := js "::1:agent"

theorem sets_match_of_same_day_noon :
    ∃ d : Diary × (Unit → TrackPc),
      (callers.system Unit).run (oneCall 43200000 43200001)
        (emptyDiary 0, fun _ => .finished) = some d ∧
      d.1.queue.pushed.length = 1 ∧ SetsMatch d.1.queue := by
  have hrun : ((callers.system Unit).run (oneCall 43200000 43200001)
      (emptyDiary 0, fun _ => .finished)).map
        (fun d => (d.2 (), d.1.queue.pushed.length, d.1.read)) =
      some (.finished, 1,
        [(⟨js "1", toISOString 43200000, js "::1", js "agent", []⟩, 43200001)]) := by
    decide +kernel
  obtain ⟨d, hd, hview⟩ := Option.map_eq_some_iff.mp hrun
  obtain ⟨hpc, hview⟩ := Prod.mk.inj hview
  obtain ⟨hpushed, hread⟩ := Prod.mk.inj hview
  have hyears : FourDigitYears d.1 := by
    intro r hr
    rw [hread, List.mem_singleton] at hr
    subst hr
    decide +kernel
  refine ⟨d, hd, hpushed, (sets_match_of_same_day ⟨_, hd⟩ (fun _ => hpc) hyears).1 ?_⟩
  intro r hr
  rw [hread, List.mem_singleton] at hr
  subst hr
  decide +kernel

/-- A call that starts in the last millisecond of a day is filed under the next one. -/
theorem visitor_filed_a_day_late : ¬ ∀ (clock : ℤ) (d : Diary × (Unit → TrackPc)),
    (callers.system Unit).Reaches (emptyDiary clock, fun _ => .finished) d →
    (∀ i, d.2 i = .finished) → SetsMatch d.1.queue := by
  intro hmatch
  have hrun : ((callers.system Unit).run (oneCall 86399999 86400000)
      (emptyDiary 0, fun _ => .finished)).map (fun d => (d.2 (),
        d.1.queue.store.visitors (visitorsKey (js "1") (isoDay (1 * 86400000))),
        d.1.queue.pushed.map clickDay)) = some (.finished, [visitor], [some 0]) := by
    decide +kernel
  obtain ⟨d, hd, hview⟩ := Option.map_eq_some_iff.mp hrun
  obtain ⟨hpc, hview⟩ := Prod.mk.inj hview
  obtain ⟨hset, hdays⟩ := Prod.mk.inj hview
  have hmem : visitor ∈
      d.1.queue.store.visitors (visitorsKey (js "1") (isoDay (1 * 86400000))) := by
    rw [hset]
    exact List.mem_singleton_self _
  obtain ⟨c, hc, -, hday, -⟩ := (hmatch 0 d ⟨_, hd⟩ (fun _ => hpc) _ _ _).mp hmem
  have hzero : clickDay c ∈ d.1.queue.pushed.map clickDay := List.mem_map_of_mem hc
  rw [hdays, hday, List.mem_singleton] at hzero
  exact absurd hzero (by decide)

end UrlShortener.DailyVisitors
