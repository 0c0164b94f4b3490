import UrlShortener.MigrationRunner
import UrlShortener.RangeCatalog
import UrlShortener.Calendar

/-! The monthly partitions of `clicks` over repeated migrations: the statements that
`ensureMonthlyPartitions` computes in local time, and what any number of runs, each stopping
anywhere, make of them. -/
namespace UrlShortener.Migration
open Js Transition

/-! Local time; `offset` is how far it is ahead of UTC, in milliseconds. -/

def localDay (offset t : ℤ) : ℤ := utcDay (t + offset)

def getFullYear (offset t : ℤ) : ℤ := (civil (localDay offset t)).1

/-- Months count from 0. -/
def getMonth (offset t : ℤ) : ℕ := (civil (localDay offset t)).2.1 - 1

/-- `new Date(year, month, 1)`: months past December belong to later years, and a year of two
digits to the twentieth century. -/
def newDate (offset year : ℤ) (month : ℕ) : ℤ :=
  firstDay (12 * (if 0 ≤ year ∧ year ≤ 99 then 1900 + year else year) + month) * 86400000 - offset

def yearText (year : ℤ) : JsString :=
  if year < 0 then unit '-' :: decimal year.natAbs else decimal year.natAbs

/-- A statement that creates a partition, with the text of its bounds. -/
structure PartitionSql where
  tableName : JsString
  start : JsString
  «end» : JsString
  deriving DecidableEq

/-- The statement for the `i`-th month from the current one on. -/
def partitionSql (offset now : ℤ) (i : ℕ) : PartitionSql :=
  let date := newDate offset (getFullYear offset now) (getMonth offset now + i)
  let nextDate := newDate offset (getFullYear offset now) (getMonth offset now + i + 1)
  ⟨js "clicks_y" ++ yearText (getFullYear offset date) ++ unit 'm' ::
    pad 2 (getMonth offset date + 1), toISOString date, toISOString nextDate⟩

/-! The database. `timestamptz` is how it reads the text of an instant. -/

/-- The partitions of `clicks` by name. -/
abbrev Partitions := Catalog JsString ℤ

section Database
variable (timestamptz : JsString → Option ℤ)

def PartitionSql.bounds (sql : PartitionSql) : Option (ℤ × ℤ) :=
  (timestamptz sql.start).bind fun lo => (timestamptz sql.end).map fun hi => (lo, hi)

def PartitionSql.execute (sql : PartitionSql) (c : Partitions) : Except Refusal Partitions :=
  c.create sql.tableName (sql.bounds timestamptz)

/-- The other statements do not touch the partitions. -/
def Ddl.execute (offset now : ℤ) (c : Partitions) : Ddl → Except Refusal Partitions
  | .createPartition i => (partitionSql offset now i).execute timestamptz c
  | _ => .ok c

/-- The errors of refused statements; none of them is transient. -/
def refusalError : Refusal → DbError
  | .unreadable => ⟨some (js "22007"), js "invalid input syntax for type timestamp with time zone"⟩
  | .empty => ⟨some (js "42P17"), js "empty range bound specified for partition"⟩
  | .overlap => ⟨some (js "42P17"), js "partition would overlap partition"⟩

/-- A statement is executed and answered, it is executed and its reply lost, or it is not
executed. -/
inductive Reply
  | answered
  | lost (err : DbError)
  | failed (err : DbError)

/-- What becomes of the partitions, and what the awaited call of a run sees. -/
def respond (offset now : ℤ) (reply : Reply) (c : Partitions) (pc : RunnerPc) :
    Partitions × Outcome :=
  match reply, pc with
  | .answered, .executing sql _ _ =>
    match sql.execute timestamptz offset now c with
    | .ok c' => (c', none)
    | .error refusal => (c, some (refusalError refusal))
  | .answered, _ => (c, none)
  | .lost err, .executing sql _ _ =>
    match sql.execute timestamptz offset now c with
    | .ok c' => (c', some err)
    | .error _ => (c, some err)
  | .lost err, _ => (c, some err)
  | .failed err, _ => (c, some err)

/-- One step of a run of `migrate` with the instant at which it reads the clock. -/
def migrationStep (offset : ℤ) (maxRetries : ℕ) (reply : Reply) (s : Bool × Partitions)
    (l : ℤ × RunnerPc) : Option ((Bool × Partitions) × (ℤ × RunnerPc)) :=
  let r := respond timestamptz offset l.1 reply s.2 l.2
  (runnerStep maxRetries r.2 s.1 l.2).map fun d => ((d.1, r.1), (l.1, d.2))

/-- Any number of runs, one after the other or side by side. -/
def migrations (offset : ℤ) (maxRetries : ℕ) :
    Threads (Bool × Partitions) (ℤ × RunnerPc) Reply Empty where
  step := migrationStep timestamptz offset maxRetries
  env e := nomatch e

end Database

/-- No partition is there, and no run has begun. -/
def fresh {ι : Type*} (instants : ι → ℤ) : (Bool × Partitions) × (ι → ℤ × RunnerPc) :=
  ((false, .empty), fun i => (instants i, .connecting))

/-! The months of a process. -/

/-- The local month of an instant. -/
def localMonth (offset t : ℤ) : ℤ := monthOf (localDay offset t)

/-- The instant at which a month begins. -/
def monthStart (offset month : ℤ) : ℤ := firstDay month * 86400000 - offset

def monthName (month : ℤ) : JsString :=
  js "clicks_y" ++ yearText (month / 12) ++ unit 'm' :: pad 2 ((month % 12).toNat + 1)

lemma decimal_injective : Function.Injective decimal := by
  intro m n h
  have hm := readNumeral_decimal m
  rw [h, readNumeral_decimal] at hm
  exact (Option.some.inj hm).symm

lemma minus_ne_decimal (m n : ℕ) : unit '-' :: decimal m ≠ decimal n := by
  intro h
  have hdigit := (decimal_digits n).2 (unit '-') (h ▸ List.mem_cons_self)
  exact absurd hdigit (by decide)

lemma yearText_injective : Function.Injective yearText := by
  intro year year' h
  unfold yearText at h
  split_ifs at h with hneg hneg' hneg'
  · have habs := decimal_injective (List.cons.inj h).2
    omega
  · exact absurd h (minus_ne_decimal _ _)
  · exact absurd h.symm (minus_ne_decimal _ _)
  · have habs := decimal_injective h
    omega

lemma monthName_injective : Function.Injective monthName := by
  intro month month' h
  have hlen : ∀ k : ℤ, (pad 2 ((k % 12).toNat + 1)).length = 2 := fun k =>
    pad_length two_pos (by omega)
  rw [monthName, monthName] at h
  obtain ⟨hyear, hmonth⟩ := List.append_inj' h (by simp [hlen])
  have hyears := yearText_injective (List.append_cancel_left hyear)
  have hmonths := congrArg (readNumeral 10) (List.cons.inj hmonth).2
  rw [readNumeral_pad, readNumeral_pad, Option.some.injEq] at hmonths
  omega

lemma monthStart_strictMono (offset : ℤ) : StrictMono (monthStart offset) := by
  intro month month' h
  have hlt := firstDay_strictMono h
  unfold monthStart
  omega

def monthGrid (offset : ℤ) : Grid JsString ℤ :=
  ⟨monthName, monthStart offset, monthName_injective, monthStart_strictMono offset⟩

lemma localDay_monthStart (offset month : ℤ) :
    localDay offset (monthStart offset month) = firstDay month := by
  unfold localDay monthStart utcDay
  omega

/-- The statement is that of a month. -/
lemma partitionSql_eq {offset now : ℤ} (hyear : 100 ≤ getFullYear offset now) (i : ℕ) :
    partitionSql offset now i = ⟨monthName (localMonth offset now + i),
      toISOString (monthStart offset (localMonth offset now + i)),
      toISOString (monthStart offset (localMonth offset now + i + 1))⟩ := by
  have hdate : ∀ n : ℕ, newDate offset (getFullYear offset now) (getMonth offset now + n) =
      monthStart offset (localMonth offset now + n) := by
    intro n
    rw [newDate, if_neg (by omega), monthStart, localMonth, monthOf, getFullYear, getMonth,
      Nat.cast_add, add_assoc]
  have hnext := hdate (i + 1)
  rw [← add_assoc] at hnext
  obtain ⟨hcivilYear, hcivilMonth⟩ := civil_firstDay (localMonth offset now + i)
  rw [partitionSql, hdate, hnext]
  simp only [getFullYear, getMonth, localDay_monthStart, hcivilYear, hcivilMonth, monthName,
    Nat.add_sub_cancel, Nat.cast_add, Nat.cast_one, add_assoc]

/-! The instants of the runs. -/

/-- UTC offsets are shorter than a day. -/
def IsOffset (offset : ℤ) : Prop := offset.natAbs < 86400000

/-- The year of the instant, in UTC or in local time, is one of 1970 to 9999. -/
def InYears (offset t : ℤ) : Prop :=
  (1970 ≤ getFullYear 0 t ∧ getFullYear 0 t ≤ 9999) ∨
    (1970 ≤ getFullYear offset t ∧ getFullYear offset t ≤ 9999)

lemma localDay_near {offset : ℤ} (hoffset : IsOffset offset) (t : ℤ) :
    localDay 0 t - 1 ≤ localDay offset t ∧ localDay offset t ≤ localDay 0 t + 1 := by
  unfold IsOffset at hoffset
  unfold localDay utcDay
  omega

/-- From the end of 1969 to the beginning of 10000. -/
lemma localMonth_bounds {offset t : ℤ} (hoffset : IsOffset offset) (ht : InYears offset t) :
    23639 ≤ localMonth offset t ∧ localMonth offset t ≤ 120000 := by
  have hyear : ∀ o, 1970 ≤ getFullYear o t ∧ getFullYear o t ≤ 9999 →
      0 ≤ localDay o t ∧ localDay o t < 2932897 := by
    intro o ho
    obtain ⟨hmonth, -⟩ := monthOf_div_mod (localDay o t)
    obtain ⟨hlow, hhigh⟩ := monthOf_spec (localDay o t)
    have hfirst : firstDay (12 * 1970) ≤ firstDay (monthOf (localDay o t)) :=
      firstDay_strictMono.monotone (by unfold getFullYear at ho; omega)
    have hlast : firstDay (monthOf (localDay o t) + 1) ≤ firstDay (12 * 10000) :=
      firstDay_strictMono.monotone (by unfold getFullYear at ho; omega)
    have hvalues : firstDay (12 * 1970) = 0 ∧ firstDay (12 * 10000) = 2932897 := by decide +kernel
    omega
  have hnear := localDay_near hoffset t
  have hdays : -1 ≤ localDay offset t ∧ localDay offset t ≤ 2932897 := by
    rcases ht with ht | ht
    · have hutc := hyear 0 ht
      omega
    · have hlocal := hyear offset ht
      omega
  have hvalues : monthOf (-1) = 23639 ∧ monthOf 2932897 = 120000 := by decide +kernel
  exact ⟨hvalues.1 ▸ monthOf_mono hdays.1, hvalues.2 ▸ monthOf_mono hdays.2⟩

lemma isTime_monthStart {offset month : ℤ} (hoffset : IsOffset offset) (hlow : 23639 ≤ month)
    (hhigh : month ≤ 120007) : IsTime (monthStart offset month) := by
  have hfirst := firstDay_strictMono.monotone hlow
  have hlast := firstDay_strictMono.monotone hhigh
  have hvalues : firstDay 23639 = -31 ∧ firstDay 120007 = 2933110 := by decide +kernel
  unfold IsOffset at hoffset
  unfold IsTime monthStart
  omega

lemma year_of_inYears {offset t : ℤ} (hoffset : IsOffset offset) (ht : InYears offset t) :
    100 ≤ getFullYear offset t := by
  have hlow := (localMonth_bounds hoffset ht).1
  have hyear := (monthOf_div_mod (localDay offset t)).1
  unfold localMonth at hlow
  unfold getFullYear
  omega

/-- The database reads an instant from its ISO form, where it reads one. -/
def ReadsIso (timestamptz : JsString → Option ℤ) : Prop :=
  ∀ t, IsTime t → ∀ t', timestamptz (toISOString t) = some t' → t' = t

section Runs
variable {timestamptz : JsString → Option ℤ} (hreads : ReadsIso timestamptz) {offset : ℤ}
  (hoffset : IsOffset offset)
include hreads hoffset

/-- The statement of a month creates the cell of that month. -/
lemma bounds_of_month {now : ℤ} (hnow : InYears offset now) {i : ℕ} (hi : i < 7) :
    (partitionSql offset now i).tableName = (monthGrid offset).name (localMonth offset now + i) ∧
    (monthGrid offset).Bounds (localMonth offset now + i)
      ((partitionSql offset now i).bounds timestamptz) := by
  obtain ⟨hlow, hhigh⟩ := localMonth_bounds hoffset hnow
  rw [partitionSql_eq (year_of_inYears hoffset hnow)]
  refine ⟨rfl, fun lo hi hbounds => ?_⟩
  obtain ⟨lo', hlo, hbounds⟩ := Option.bind_eq_some_iff.mp hbounds
  obtain ⟨hi', hhi, hpair⟩ := Option.map_eq_some_iff.mp hbounds
  obtain ⟨rfl, rfl⟩ := Prod.mk.inj hpair
  exact ⟨hreads _ (isTime_monthStart hoffset (by omega) (by omega)) _ hlo,
    hreads _ (isTime_monthStart hoffset (by omega) (by omega)) _ hhi⟩

/-- A statement of a run meets no overlap, and leaves the cells with its own among them. -/
lemma execute_holds {now : ℤ} (hnow : InYears offset now) {c : Partitions}
    (hc : (monthGrid offset).Holds c) {sql : Ddl} (hsql : sql ∈ statements) :
    sql.execute timestamptz offset now c ≠ .error .overlap ∧
    ∀ c', sql.execute timestamptz offset now c = .ok c' → (monthGrid offset).Holds c' ∧
      ∀ i, sql = .createPartition i →
        (monthGrid offset).cell (localMonth offset now + i) ∈ c'.ranges := by
  cases sql with
  | createUrlsTable | createClicksTable =>
    constructor
    · intro h
      cases h
    · intro c' h
      obtain rfl := Except.ok.inj h
      refine ⟨hc, fun i hi => ?_⟩
      cases hi
  | createPartition i =>
    have hi : i < 7 := by simpa [statements] using hsql
    obtain ⟨hname, hbounds⟩ := bounds_of_month hreads hoffset hnow hi
    rw [Ddl.execute, PartitionSql.execute, hname]
    refine ⟨Grid.create_ne_overlap hc hbounds, fun c' h => ?_⟩
    obtain ⟨hholds, hcell⟩ := Grid.create_holds hc hbounds h
    refine ⟨hholds, fun j hj => ?_⟩
    cases hj
    exact hcell

end Runs

/-! What the steps of the runs keep. -/

/-- The statements that a run still has to send; `none` when it has failed. -/
def remaining : RunnerPc → Option (List Ddl)
  | .connecting | .locking | .locked => some statements
  | .executing sql rest _ | .backingOff sql rest _ _ => some (sql :: rest)
  | .succeeded => some []
  | .failed _ => none

lemma remaining_proceed (maxRetries : ℕ) (sqls : List Ddl) :
    remaining (proceed maxRetries sqls) = some sqls := by
  cases sqls <;> rfl

/-- A run fails, keeps what it has to send, or has its current statement behind it. -/
lemma remaining_of_step {maxRetries : ℕ} {outcome : Outcome} {held held' : Bool} {pc pc' : RunnerPc}
    (h : runnerStep maxRetries outcome held pc = some (held', pc')) :
    remaining pc' = none ∨ remaining pc' = remaining pc ∨
      ∃ sql rest retries, outcome = none ∧ pc = .executing sql rest retries ∧
        remaining pc' = some rest := by
  revert h
  fun_cases runnerStep maxRetries outcome held pc with
  | case6 =>
    intro h
    cases h
    exact .inr (.inl (remaining_proceed _ _))
  | case8 sql rest retries =>
    intro h
    cases h
    exact .inr (.inr ⟨sql, rest, retries, rfl, rfl, remaining_proceed _ _⟩)
  | _ =>
    intro h
    first
    | cases h
      done
    | cases h
      first
      | exact .inl rfl
      | exact .inr (.inl rfl)

/-- The database executes the current statement of a run, or nothing. -/
lemma respond_cases (timestamptz : JsString → Option ℤ) (offset now : ℤ) (reply : Reply)
    (c : Partitions) (pc : RunnerPc) :
    ((respond timestamptz offset now reply c pc).1 = c ∧
      ∀ sql rest retries, pc = .executing sql rest retries →
        (respond timestamptz offset now reply c pc).2 ≠ none) ∨
    ∃ sql rest retries, pc = .executing sql rest retries ∧
      sql.execute timestamptz offset now c = .ok (respond timestamptz offset now reply c pc).1 := by
  cases pc with
  | executing sql rest retries =>
    cases h : sql.execute timestamptz offset now c with
    | ok c' =>
      cases reply with
      | answered | lost err => exact .inr ⟨sql, rest, retries, rfl, by simp [respond, h]⟩
      | failed err => exact .inl ⟨rfl, fun _ _ _ _ => Option.some_ne_none _⟩
    | error refusal => cases reply <;> exact .inl (by simp [respond, h])
  | _ => cases reply <;> exact .inl ⟨rfl, fun _ _ _ hpc => RunnerPc.noConfusion hpc⟩

/-- What a run has sent is there. -/
def Progress (offset : ℤ) (c : Partitions) (l : ℤ × RunnerPc) : Prop :=
  ∀ sqls, remaining l.2 = some sqls → ∃ sent, statements = sent ++ sqls ∧
    ∀ i, .createPartition i ∈ sent →
      (monthGrid offset).cell (localMonth offset l.1 + i) ∈ c.ranges

lemma Progress.mono {offset : ℤ} {c c' : Partitions} {l : ℤ × RunnerPc}
    (h : Progress offset c l) (hc : c.ranges ⊆ c'.ranges) : Progress offset c' l := by
  intro sqls hsqls
  obtain ⟨sent, hsent, hcells⟩ := h sqls hsqls
  exact ⟨sent, hsent, fun i hi => hc (hcells i hi)⟩

lemma subset_of_execute {timestamptz : JsString → Option ℤ} {offset now : ℤ} {c c' : Partitions}
    {sql : Ddl} (h : sql.execute timestamptz offset now c = .ok c') : c.ranges ⊆ c'.ranges := by
  cases sql with
  | createUrlsTable | createClicksTable =>
    obtain rfl := Except.ok.inj h
    exact List.Subset.refl _
  | createPartition i => exact fun p hp => Catalog.mem_of_create h hp

section Runs
variable {timestamptz : JsString → Option ℤ} {offset : ℤ} {maxRetries : ℕ} {reply : Reply}
  {s s' : Bool × Partitions} {l l' : ℤ × RunnerPc}

/-- What one step of a run does to the partitions and to what it has to send. -/
lemma migrationStep_cases
    (h : migrationStep timestamptz offset maxRetries reply s l = some (s', l')) :
    l'.1 = l.1 ∧
    ((s'.2 = s.2 ∧ (remaining l'.2 = none ∨ remaining l'.2 = remaining l.2)) ∨
      ∃ sql rest retries, l.2 = .executing sql rest retries ∧
        sql.execute timestamptz offset l.1 s.2 = .ok s'.2 ∧
        (remaining l'.2 = none ∨ remaining l'.2 = some (sql :: rest) ∨
          remaining l'.2 = some rest)) := by
  obtain ⟨⟨held', pc'⟩, hstep, hd⟩ := Option.map_eq_some_iff.mp h
  obtain ⟨rfl, rfl⟩ := Prod.mk.inj hd
  refine ⟨rfl, ?_⟩
  have hremaining := remaining_of_step hstep
  rcases respond_cases timestamptz offset l.1 reply s.2 l.2 with
    ⟨hsame, hfailed⟩ | ⟨sql, rest, retries, hpc, hexec⟩
  · refine .inl ⟨hsame, ?_⟩
    rcases hremaining with hnone | hkeep | ⟨sql, rest, retries, hok, hpc, -⟩
    · exact .inl hnone
    · exact .inr hkeep
    · exact absurd hok (hfailed sql rest retries hpc)
  · refine .inr ⟨sql, rest, retries, hpc, hexec, ?_⟩
    rcases hremaining with hnone | hkeep | ⟨sql', rest', retries', -, hpc', hrest⟩
    · exact .inl hnone
    · exact .inr (.inl (by rw [hkeep, hpc]; rfl))
    · rw [hpc] at hpc'
      cases hpc'
      exact .inr (.inr hrest)

lemma subset_of_step (h : migrationStep timestamptz offset maxRetries reply s l = some (s', l')) :
    s.2.ranges ⊆ s'.2.ranges := by
  obtain ⟨-, ⟨hsame, -⟩ | ⟨sql, rest, retries, -, hexec, -⟩⟩ := migrationStep_cases h
  · rw [hsame]
    exact List.Subset.refl _
  · exact subset_of_execute hexec

lemma progress_of_step (hreads : ReadsIso timestamptz) (hoffset : IsOffset offset)
    (hs : (monthGrid offset).Holds s.2) (hnow : InYears offset l.1) (hl : Progress offset s.2 l)
    (h : migrationStep timestamptz offset maxRetries reply s l = some (s', l')) :
    (monthGrid offset).Holds s'.2 ∧ Progress offset s'.2 l' := by
  obtain ⟨hclock, ⟨hsame, hrem⟩ | ⟨sql, rest, retries, hpc, hexec, hrem⟩⟩ := migrationStep_cases h
  · rw [hsame]
    refine ⟨hs, fun sqls hsqls => ?_⟩
    rw [hclock]
    rcases hrem with hnone | hkeep
    · rw [hnone] at hsqls
      cases hsqls
    · exact hl sqls (hkeep ▸ hsqls)
  · obtain ⟨sent, hsent, hcells⟩ := hl (sql :: rest) (by rw [hpc]; rfl)
    have hmem : sql ∈ statements := by simp [hsent]
    obtain ⟨hholds, hcell⟩ := (execute_holds hreads hoffset hnow hs hmem).2 _ hexec
    have hgrows := subset_of_execute hexec
    refine ⟨hholds, fun sqls hsqls => ?_⟩
    rw [hclock]
    rcases hrem with hnone | hagain | hnext
    · rw [hnone] at hsqls
      cases hsqls
    · -- executed, but the reply was lost: the statement will be sent again
      obtain rfl := Option.some.inj (hagain.symm.trans hsqls)
      exact ⟨sent, hsent, fun i hi => hgrows (hcells i hi)⟩
    · obtain rfl := Option.some.inj (hnext.symm.trans hsqls)
      refine ⟨sent ++ [sql], by rw [hsent, List.append_assoc, List.singleton_append],
        fun i hi => ?_⟩
      rcases List.mem_append.mp hi with hi | hi
      · exact hgrows (hcells i hi)
      · exact hcell i (List.mem_singleton.mp hi).symm

/-- There are only cells, and what each run has sent is among them. -/
def partitionOutline (hreads : ReadsIso timestamptz) (hoffset : IsOffset offset) (maxRetries : ℕ) :
    Outline (migrations timestamptz offset maxRetries) where
  shared s := (monthGrid offset).Holds s.2
  thread s l := InYears offset l.1 ∧ Progress offset s.2 l
  pair _ _ := True
  pair_symm _ _ _ := trivial
  own reply s l s' l' hs hl h := by
    obtain ⟨hholds, hprogress⟩ := progress_of_step hreads hoffset hs hl.1 hl.2 h
    have hclock := (migrationStep_cases h).1
    exact ⟨hholds, hclock ▸ hl.1, hprogress⟩
  other reply s l s' l' m _ _ hm _ h := ⟨⟨hm.1, hm.2.mono (subset_of_step h)⟩, trivial⟩
  env_shared e := nomatch e
  env_thread e := nomatch e

end Runs

section Reached
variable {timestamptz : JsString → Option ℤ} {offset : ℤ} {maxRetries : ℕ} {ι : Type}
  [DecidableEq ι] {instants : ι → ℤ} {d : (Bool × Partitions) × (ι → ℤ × RunnerPc)}

/-- A run keeps its reading of the clock. -/
lemma clock_of_reaches
    (h : ((migrations timestamptz offset maxRetries).system ι).Reaches (fresh instants) d)
    (run : ι) : (d.2 run).1 = instants run := by
  refine h.invariant (P := fun d => (d.2 run).1 = instants run) (fun a s t hs hnext => ?_) rfl
  cases a with
  | inl a =>
    obtain ⟨i, reply⟩ := a
    obtain ⟨s', l', hstep, rfl⟩ := Threads.next_thread hnext
    have hclock := (migrationStep_cases hstep).1
    by_cases hi : run = i
    · subst hi
      simpa [hclock] using hs
    · simpa [hi] using hs
  | inr e => exact e.elim

lemma outline_of_reaches (hreads : ReadsIso timestamptz) (hoffset : IsOffset offset)
    (hyears : ∀ run, InYears offset (instants run))
    (h : ((migrations timestamptz offset maxRetries).system ι).Reaches (fresh instants) d) :
    (partitionOutline hreads hoffset maxRetries).Holds d := by
  refine (partitionOutline hreads hoffset maxRetries).holds_of_reaches h ⟨?_, fun run => ?_, ?_⟩
  · exact fun p hp => absurd hp List.not_mem_nil
  · refine ⟨hyears run, fun sqls hsqls => ⟨[], ?_, ?_⟩⟩
    · exact Option.some.inj hsqls
    · exact fun i hi => absurd hi List.not_mem_nil
  · exact fun _ _ _ => trivial

end Reached

/-- A name stands for one range; in any interleaving of runs, whatever they meet, no statement
overlaps another partition; and once a run has completed, every instant of the seven months that
begin with its own lies in exactly one partition. -/
theorem monthly_partitions_consistent {timestamptz : JsString → Option ℤ}
    (hreads : ReadsIso timestamptz) {offset : ℤ} (hoffset : IsOffset offset) (maxRetries : ℕ) :
    (∀ now now', InYears offset now → InYears offset now' → ∀ i < 7, ∀ i' < 7,
      (partitionSql offset now i).tableName = (partitionSql offset now' i').tableName →
        partitionSql offset now i = partitionSql offset now' i') ∧
    ∀ {ι : Type} [DecidableEq ι] (instants : ι → ℤ), (∀ run, InYears offset (instants run)) →
      ∀ d, ((migrations timestamptz offset maxRetries).system ι).Reaches (fresh instants) d →
        (∀ run sql rest retries, (d.2 run).2 = .executing sql rest retries →
          sql.execute timestamptz offset (d.2 run).1 d.1.2 ≠ .error .overlap) ∧
        ∀ run, (d.2 run).2 = .succeeded → ∀ t,
          monthStart offset (localMonth offset (instants run)) ≤ t →
          t < monthStart offset (localMonth offset (instants run) + 7) → d.1.2.coverage t = 1 := by
  constructor
  · intro now now' hnow hnow' i hi i' hi' hname
    have hyear := year_of_inYears hoffset hnow
    have hyear' := year_of_inYears hoffset hnow'
    rw [partitionSql_eq hyear, partitionSql_eq hyear'] at hname ⊢
    rw [monthName_injective hname]
  · intro ι _ instants hyears d h
    obtain ⟨hholds, hthread, -⟩ := outline_of_reaches hreads hoffset hyears h
    constructor
    · intro run sql rest retries hpc
      obtain ⟨hnow, hprogress⟩ := hthread run
      obtain ⟨sent, hsent, -⟩ := hprogress (sql :: rest) (by rw [hpc]; rfl)
      exact (execute_holds hreads hoffset hnow hholds (by simp [hsent])).1
    · intro run hpc t hlow hhigh
      obtain ⟨sent, hsent, hcells⟩ := (hthread run).2 [] (by rw [hpc]; rfl)
      rw [List.append_nil] at hsent
      rw [clock_of_reaches h run] at hcells
      refine (monthGrid offset).coverage_eq_one (fun k hk hk' => ?_) hlow hhigh
      obtain ⟨i, rfl⟩ : ∃ i : ℕ, k = localMonth offset (instants run) + i :=
        ⟨(k - localMonth offset (instants run)).toNat, by omega⟩
      have hi : i < 7 := by omega
      exact hcells i (by rw [← hsent]; simpa [statements] using hi)

/-- One run in which every call is answered. -/
def answeredRun : List (Unit × Reply ⊕ Empty) := List.replicate 12 (.inl ((), .answered))

/-- A migration on the last day of 2023 in UTC, which is the first of 2024 an hour ahead of it. -/
theorem monthly_partitions_consistent_newYear : ∃ d : (Bool × Partitions) × (Unit → ℤ × RunnerPc),
    ((migrations parseISO 3600000 5).system Unit).run answeredRun (fresh fun _ => 1704065400000) =
      some d ∧ (d.2 ()).2 = .succeeded ∧ d.1.2.coverage 1709210096789 = 1 := by
  have hreads : ReadsIso parseISO := by
    intro t ht t' h
    rw [parseISO_toISOString ht] at h
    exact (Option.some.inj h).symm
  have hrun : (((migrations parseISO 3600000 5).system Unit).run answeredRun
      (fresh fun _ => 1704065400000)).map (fun d => (d.2 ()).2) = some .succeeded := by
    decide +kernel
  obtain ⟨d, hd, hpc⟩ := Option.map_eq_some_iff.mp hrun
  have hyears : InYears 3600000 1704065400000 := by
    unfold InYears
    decide +kernel
  have hoffset : IsOffset 3600000 := by
    unfold IsOffset
    decide
  obtain ⟨-, hreached⟩ := monthly_partitions_consistent hreads hoffset 5
  obtain ⟨-, hcovered⟩ := hreached (fun _ : Unit => 1704065400000) (fun _ => hyears) d ⟨_, hd⟩
  exact ⟨d, hd, hpc, hcovered () hpc 1709210096789 (by decide +kernel) (by decide +kernel)⟩

end UrlShortener.Migration
