import UrlShortener.MonthlyPartitions

/-! The partitions of `schema_manager.sql`, whose bounds are instants of UTC, beside those of
`ensureMonthlyPartitions`, whose bounds are instants of local time. -/
namespace UrlShortener.Migration
open Js

/-- The partitions that `schema_manager.sql` creates. -/
def schemaPartitions : List PartitionSql :=
  [⟨js "clicks_y2026m04", js "2026-04-01 00:00:00+00", js "2026-05-01 00:00:00+00"⟩,
    ⟨js "clicks_y2026m05", js "2026-05-01 00:00:00+00", js "2026-06-01 00:00:00+00"⟩,
    ⟨js "clicks_y2026m06", js "2026-06-01 00:00:00+00", js "2026-07-01 00:00:00+00"⟩,
    ⟨js "clicks_y2026m07", js "2026-07-01 00:00:00+00", js "2026-08-01 00:00:00+00"⟩,
    ⟨js "clicks_y2026m08", js "2026-08-01 00:00:00+00", js "2026-09-01 00:00:00+00"⟩,
    ⟨js "clicks_y2026m09", js "2026-09-01 00:00:00+00", js "2026-10-01 00:00:00+00"⟩,
    ⟨js "clicks_y2026m10", js "2026-10-01 00:00:00+00", js "2026-11-01 00:00:00+00"⟩,
    ⟨js "clicks_y2026m11", js "2026-11-01 00:00:00+00", js "2026-12-01 00:00:00+00"⟩,
    ⟨js "clicks_y2026m12", js "2026-12-01 00:00:00+00", js "2027-01-01 00:00:00+00"⟩]

def ensureMonthlyPartitions (offset now : ℤ) : List PartitionSql :=
  (List.range 7).map (partitionSql offset now)

section Database
variable (timestamptz : JsString → Option ℤ)

/-- Execute the statements one after the other. -/
def executeAll (sqls : List PartitionSql) (c : Partitions) : Except Refusal Partitions :=
  c.createAll (sqls.map fun sql => (sql.tableName, sql.bounds timestamptz))

/-- The schema and then the migration succeed, and every instant from `t` to the start of the
seventh month after that of `t` lies in exactly one partition. -/
def Agrees (offset t : ℤ) : Prop :=
  ∃ c, executeAll timestamptz (schemaPartitions ++ ensureMonthlyPartitions offset t) .empty =
      .ok c ∧
    ∀ u, t ≤ u → u < monthStart offset (localMonth offset t + 7) → c.coverage u = 1

/-- The database reads the ISO form of an instant, and the form that the schema is written in. -/
structure ReadsTimestamps : Prop where
  iso : ∀ t, FourDigitYear (utcDay t) → timestamptz (toISOString t) = some t
  sql : ∀ day, FourDigitYear day →
    timestamptz (dateText day ++ js " 00:00:00+00") = some (day * 86400000)

end Database

/-- The months are numbered from 0 on, and so is this one. -/
def april : ℤ := 12 * 2026 + 3

/-- The instant lies in April to December 2026, in UTC or in local time. -/
def InSeason (offset t : ℤ) : Prop :=
  (april ≤ localMonth 0 t ∧ localMonth 0 t ≤ april + 8) ∨
    (april ≤ localMonth offset t ∧ localMonth offset t ≤ april + 8)

lemma localMonth_spec (offset t : ℤ) : monthStart offset (localMonth offset t) ≤ t ∧
    t < monthStart offset (localMonth offset t + 1) := by
  obtain ⟨hlow, hhigh⟩ := monthOf_spec (localDay offset t)
  unfold localDay utcDay at hlow hhigh
  unfold monthStart localMonth localDay utcDay
  omega

lemma fourDigitYear_of_bounds {day : ℤ} (hlow : -719528 ≤ day) (hhigh : day < 2932897) :
    FourDigitYear day := by
  have hvalues : firstDay 0 = -719528 ∧ firstDay 120000 = 2932897 := by decide +kernel
  obtain ⟨hmonth, hmonth'⟩ := monthOf_spec day
  have hyear := (monthOf_div_mod day).1
  have hge : (0 : ℤ) < monthOf day + 1 :=
    firstDay_strictMono.lt_iff_lt.mp ((hvalues.1 ▸ hlow).trans_lt hmonth')
  have hlt : monthOf day < 120000 :=
    firstDay_strictMono.lt_iff_lt.mp (hmonth.trans_lt (hvalues.2 ▸ hhigh))
  unfold FourDigitYear
  omega

lemma fourDigitYear_monthStart {offset month : ℤ} (hoffset : IsOffset offset)
    (hlow : april - 1 ≤ month) (hhigh : month ≤ april + 16) :
    FourDigitYear (utcDay (monthStart offset month)) := by
  have hfirst := firstDay_strictMono.monotone hlow
  have hlast := firstDay_strictMono.monotone hhigh
  have hvalues : firstDay (april - 1) = 20513 ∧ firstDay (april + 16) = 21031 := by decide +kernel
  unfold IsOffset at hoffset
  refine fourDigitYear_of_bounds ?_ ?_
  · unfold utcDay monthStart
    omega
  · unfold utcDay monthStart
    omega

section Statements
variable {timestamptz : JsString → Option ℤ} (hreads : ReadsTimestamps timestamptz)
include hreads

/-- The schema wants the months from April to December, as UTC has them. -/
lemma schema_wanted :
    schemaPartitions.map (fun sql => (sql.tableName, sql.bounds timestamptz)) =
      ((List.range 9).map fun i : ℕ => april + i).map (monthGrid 0).wanted := by
  have hliteral : schemaPartitions = (List.range 9).map fun i : ℕ =>
      ⟨monthName (april + i), dateText (firstDay (april + i)) ++ js " 00:00:00+00",
        dateText (firstDay (april + i + 1)) ++ js " 00:00:00+00"⟩ := by decide +kernel
  have hyears : ∀ i ≤ 9, FourDigitYear (firstDay (april + (i : ℕ))) := by decide +kernel
  rw [hliteral, List.map_map, List.map_map]
  refine List.map_congr_left fun i hi => ?_
  have hi : i < 9 := List.mem_range.mp hi
  have hlo := hreads.sql _ (hyears i (by omega))
  have hhi := hreads.sql _ (hyears (i + 1) (by omega))
  rw [Nat.cast_succ, ← add_assoc] at hhi
  simp only [Function.comp_apply, PartitionSql.bounds, hlo, hhi, Option.bind_some, Option.map_some]
  simp [Grid.wanted, monthGrid, monthStart]

/-- The migration wants seven months, as local time has them. -/
lemma ensure_wanted {offset t : ℤ} (hoffset : IsOffset offset)
    (hlow : april - 1 ≤ localMonth offset t) (hhigh : localMonth offset t ≤ april + 9) :
    (ensureMonthlyPartitions offset t).map (fun sql => (sql.tableName, sql.bounds timestamptz)) =
      ((List.range 7).map fun i : ℕ => localMonth offset t + i).map (monthGrid offset).wanted := by
  have hyear : 100 ≤ getFullYear offset t := by
    have hmonth := (monthOf_div_mod (localDay offset t)).1
    unfold april localMonth at hlow
    unfold getFullYear
    omega
  rw [ensureMonthlyPartitions, List.map_map, List.map_map]
  refine List.map_congr_left fun i hi => ?_
  have hi : i < 7 := List.mem_range.mp hi
  have hlo := hreads.iso _ (fourDigitYear_monthStart hoffset
    (show april - 1 ≤ localMonth offset t + i by omega) (by omega))
  have hhi := hreads.iso _ (fourDigitYear_monthStart hoffset
    (show april - 1 ≤ localMonth offset t + i + 1 by omega) (by omega))
  simp only [Function.comp_apply, partitionSql_eq hyear, PartitionSql.bounds, hlo, hhi,
    Option.bind_some, Option.map_some]
  rfl

end Statements

/-! The two sets of partitions. -/

/-- The cells from April to December. -/
def IsSchema (c : Partitions) : Prop :=
  ∀ p, p ∈ c.ranges ↔ ∃ k, april ≤ k ∧ k ≤ april + 8 ∧ p = (monthGrid 0).cell k

lemma exists_schema : ∃ c : Partitions, IsSchema c ∧
    Catalog.empty.createAll (((List.range 9).map fun i : ℕ => april + i).map (monthGrid 0).wanted) =
      .ok c := by
  have hempty : (monthGrid 0).Holds .empty := fun p hp => absurd hp List.not_mem_nil
  obtain ⟨c, hc, -, hcells⟩ := Grid.createAll_wanted hempty
    ((List.range 9).map fun i : ℕ => april + i)
  refine ⟨c, fun p => ⟨fun hp => ?_, fun hp => ?_⟩, hc⟩
  · rcases Grid.createAll_wanted_cases hc hp with hold | ⟨k, hk, hcell, -⟩
    · exact absurd hold List.not_mem_nil
    · obtain ⟨i, hi, rfl⟩ := List.mem_map.mp hk
      have hi : i < 9 := List.mem_range.mp hi
      exact ⟨april + i, by omega, by omega, hcell⟩
  · obtain ⟨k, hlow, hhigh, rfl⟩ := hp
    exact hcells k (List.mem_map.mpr ⟨(k - april).toNat, List.mem_range.mpr (by omega), by omega⟩)

/-- The months from the current one on. -/
def months (current : ℤ) : List ℤ := (List.range 7).map fun i : ℕ => current + i

lemma mem_months {current k : ℤ} : k ∈ months current ↔ current ≤ k ∧ k < current + 7 := by
  constructor
  · intro h
    obtain ⟨i, hi, rfl⟩ := List.mem_map.mp h
    have hi : i < 7 := List.mem_range.mp hi
    omega
  · intro h
    exact List.mem_map.mpr ⟨(k - current).toNat, List.mem_range.mpr (by omega), by omega⟩

lemma monthStart_eq (offset month : ℤ) : monthStart offset month = monthStart 0 month - offset := by
  unfold monthStart
  omega

/-- Months are longer than any offset. -/
lemma monthStart_gap (month : ℤ) :
    monthStart 0 month + 28 * 86400000 ≤ monthStart 0 (month + 1) := by
  have hgap := firstDay_add_le month
  unfold monthStart
  omega

section Seam
variable {schema c : Partitions} (hschema : IsSchema schema) {offset : ℤ} {current t : ℤ}
include hschema

lemma coverage_schema (u : ℤ) :
    schema.coverage u = 1 ↔ monthStart 0 april ≤ u ∧ u < monthStart 0 (april + 9) := by
  constructor
  · intro h
    obtain ⟨p, hp, hu⟩ := (schema.coverage_eq_one_iff u).mp h
    obtain ⟨k, hlow, hhigh, rfl⟩ := (hschema p).mp hp
    have hfirst := (monthStart_strictMono 0).monotone hlow
    have hlast := (monthStart_strictMono 0).monotone (show k + 1 ≤ april + 9 by omega)
    exact ⟨hfirst.trans hu.1, hu.2.trans_le hlast⟩
  · intro h
    refine (monthGrid 0).coverage_eq_one (fun k hlow hhigh => ?_) h.1 h.2
    exact (hschema _).mpr ⟨k, hlow, by omega, rfl⟩

/-- A partition that the migration has added is that of a month outside the schema. -/
lemma added_cases (h : schema.createAll ((months current).map (monthGrid offset).wanted) = .ok c)
    {p : NamedRange JsString ℤ} (hp : p ∈ c.ranges) : p ∈ schema.ranges ∨
      ∃ k ∈ months current, (k < april ∨ april + 8 < k) ∧ p = (monthGrid offset).cell k := by
  rcases Grid.createAll_wanted_cases h hp with hold | ⟨k, hk, hcell, hfree⟩
  · exact .inl hold
  · refine .inr ⟨k, hk, ?_, hcell⟩
    by_contra hin
    exact hfree _ ((hschema _).mpr ⟨k, by omega, by omega, rfl⟩) rfl

/-- The migration fails where a month outside the schema overlaps one of it. -/
lemma not_created {k m : ℤ} (hk : k ∈ months current) (hout : k < april ∨ april + 8 < k)
    (hm : april ≤ m ∧ m ≤ april + 8)
    (hoverlap : ((monthGrid offset).cell k).Overlaps ((monthGrid 0).cell m)) :
    schema.createAll ((months current).map (monthGrid offset).wanted) ≠ .ok c := by
  intro h
  obtain ⟨q, hq, hname⟩ := Catalog.exists_name_of_createAll h (List.mem_map_of_mem hk)
  have hqk : q = (monthGrid offset).cell k := by
    rcases added_cases hschema h hq with hold | ⟨j, -, -, rfl⟩
    · obtain ⟨j, hlow, hhigh, rfl⟩ := (hschema q).mp hold
      have hjk : j = k := monthName_injective hname
      omega
    · have hjk : j = k := monthName_injective hname
      rw [hjk]
  have hmem : (monthGrid 0).cell m ∈ c.ranges :=
    Catalog.mem_of_createAll h ((hschema _).mpr ⟨m, hm.1, hm.2, rfl⟩)
  have heq := c.eq_of_overlaps (hqk ▸ hq) hmem hoverlap
  have hkm : k = m := monthName_injective (congrArg NamedRange.name heq)
  omega

/-- Up to June all months of the migration are in the schema. -/
lemma created_nothing (hlow : april ≤ current) (hhigh : current ≤ april + 2) :
    schema.createAll ((months current).map (monthGrid offset).wanted) = .ok schema := by
  refine Catalog.createAll_of_taken fun w hw => ?_
  obtain ⟨k, hk, rfl⟩ := List.mem_map.mp hw
  have hrange := mem_months.mp hk
  exact ⟨(monthGrid 0).cell k, (hschema _).mpr ⟨k, by omega, by omega, rfl⟩, rfl⟩

/-- From July on a process ahead of UTC wants January to begin before the schema's December ends. -/
lemma ahead_fails (hoffset : IsOffset offset) (hahead : 0 < offset) (hlow : april + 3 ≤ current)
    (hhigh : current ≤ april + 9) :
    schema.createAll ((months current).map (monthGrid offset).wanted) ≠ .ok c := by
  have hdecember := monthStart_gap (april + 8)
  have hjanuary := monthStart_gap (april + 9)
  refine not_created hschema (k := april + 9) (m := april + 8) (mem_months.mpr (by omega))
    (by omega) (by omega) ?_
  unfold IsOffset at hoffset
  have hstart := monthStart_eq offset (april + 9)
  have hend := monthStart_eq offset (april + 9 + 1)
  constructor
  · change monthStart offset (april + 9) < monthStart 0 (april + 8 + 1)
    rw [show april + 8 + 1 = april + 9 by ring]
    omega
  · change monthStart 0 (april + 8) < monthStart offset (april + 9 + 1)
    rw [show april + 8 + 1 = april + 9 by ring] at hdecember
    omega

/-- In local March a process behind UTC wants March to end after the schema's April begins. -/
lemma march_fails (hoffset : IsOffset offset) (hbehind : offset < 0)
    (hcurrent : current = april - 1) :
    schema.createAll ((months current).map (monthGrid offset).wanted) ≠ .ok c := by
  have hmarch := monthStart_gap (april - 1)
  have hapril := monthStart_gap april
  refine not_created hschema (k := april - 1) (m := april) (mem_months.mpr (by omega))
    (by omega) (by omega) ?_
  unfold IsOffset at hoffset
  have hstart := monthStart_eq offset (april - 1)
  have hend := monthStart_eq offset (april - 1 + 1)
  rw [show april - 1 + 1 = april by ring] at hmarch hend
  constructor
  · change monthStart offset (april - 1) < monthStart 0 (april + 1)
    omega
  · change monthStart 0 april < monthStart offset (april - 1 + 1)
    rw [show april - 1 + 1 = april by ring]
    omega

/-- A process behind UTC leaves a gap after the schema's December. -/
lemma behind_gap (hbehind : offset < 0) (ht : t < monthStart offset (april + 9))
    (hlow : april ≤ current)
    (h : schema.createAll ((months current).map (monthGrid offset).wanted) = .ok c) :
    c.coverage (max t (monthStart 0 (april + 9))) ≠ 1 := by
  intro hcovered
  obtain ⟨p, hp, hu⟩ := (c.coverage_eq_one_iff _).mp hcovered
  have hstart := monthStart_eq offset (april + 9)
  rcases added_cases hschema h hp with hold | ⟨k, hk, hout, rfl⟩
  · obtain ⟨k, -, hhigh, rfl⟩ := (hschema p).mp hold
    have hend := (monthStart_strictMono 0).monotone (show k + 1 ≤ april + 9 by omega)
    exact absurd (hu.2.trans_le hend) (not_lt.mpr (le_max_right _ _))
  · have hrange := mem_months.mp hk
    have hfirst := (monthStart_strictMono offset).monotone (show april + 9 ≤ k by omega)
    have hlow' := hfirst.trans hu.1
    rcases le_max_iff.mp hlow' with hle | hle <;> omega

/-- From `t` on to the start of the seventh month after the current one. -/
def CoveredFrom (c : Partitions) (offset current t : ℤ) : Prop :=
  ∀ u, t ≤ u → u < monthStart offset (current + 7) → c.coverage u = 1

variable (hoffset : IsOffset offset) (hend : t < monthStart offset (current + 1))
include hoffset hend

lemma covered_behind (hstart : monthStart offset current ≤ t) (hbehind : offset < 0)
    (hlow : april - 1 ≤ current) (hhigh : current ≤ april + 8) :
    (∃ c, schema.createAll ((months current).map (monthGrid offset).wanted) = .ok c ∧
      CoveredFrom c offset current t) ↔ april ≤ current ∧ current ≤ april + 1 := by
  have hmono := (monthStart_strictMono offset).monotone
  have hjanuary := monthStart_eq offset (april + 9)
  constructor
  · intro h
    obtain ⟨c, hc, hcovered⟩ := h
    have hapril : april ≤ current := by
      by_contra hmarch
      exact march_fails hschema hoffset hbehind (by omega) hc
    refine ⟨hapril, ?_⟩
    by_contra hlate
    have ht : t < monthStart offset (april + 9) := hend.trans_le (hmono (by omega))
    have hlast := hmono (show april + 9 ≤ current + 7 by omega)
    refine behind_gap hschema hbehind ht hapril hc (hcovered _ (le_max_left _ _) (max_lt ?_ ?_))
    · exact ht.trans_le hlast
    · omega
  · intro h
    refine ⟨schema, created_nothing hschema h.1 (by omega), fun u hu hu' => ?_⟩
    have hfirst := hmono h.1
    have hlast := hmono (show current + 7 ≤ april + 8 by omega)
    have hapril := monthStart_eq offset april
    have hdecember := monthStart_eq offset (april + 8)
    have hgap := monthStart_gap (april + 8)
    rw [show april + 8 + 1 = april + 9 by ring] at hgap
    unfold IsOffset at hoffset
    rw [coverage_schema hschema]
    omega

lemma covered_ahead (hahead : 0 < offset) (hlow : april ≤ current) (hhigh : current ≤ april + 9) :
    (∃ c, schema.createAll ((months current).map (monthGrid offset).wanted) = .ok c ∧
      CoveredFrom c offset current t) ↔ current ≤ april + 2 ∧ monthStart 0 april ≤ t := by
  have hmono := (monthStart_strictMono offset).monotone
  have hjanuary := monthStart_eq offset (april + 9)
  constructor
  · intro h
    obtain ⟨c, hc, hcovered⟩ := h
    have hjune : current ≤ april + 2 := by
      by_contra hlate
      exact ahead_fails hschema hoffset hahead (by omega) hhigh hc
    have hnothing : schema.createAll ((months current).map (monthGrid offset).wanted) =
        .ok schema := created_nothing hschema hlow hjune
    obtain rfl : schema = c := Except.ok.inj (hnothing.symm.trans hc)
    have ht := hcovered t le_rfl (hend.trans_le (hmono (by omega)))
    exact ⟨hjune, ((coverage_schema hschema t).mp ht).1⟩
  · intro h
    refine ⟨schema, created_nothing hschema hlow h.1, fun u hu hu' => ?_⟩
    have hlast := hmono (show current + 7 ≤ april + 9 by omega)
    rw [coverage_schema hschema]
    omega

end Seam

/-- At UTC the months of the migration are those of the schema. -/
lemma covered_at_utc {schema : Partitions} (hschema : IsSchema schema) {current t : ℤ}
    (hstart : monthStart 0 current ≤ t) :
    ∃ c, schema.createAll ((months current).map (monthGrid 0).wanted) = .ok c ∧
      CoveredFrom c 0 current t := by
  have hholds : (monthGrid 0).Holds schema := by
    intro p hp
    obtain ⟨k, -, -, hk⟩ := (hschema p).mp hp
    exact ⟨k, hk⟩
  obtain ⟨c, hc, -, hcells⟩ := Grid.createAll_wanted hholds (months current)
  refine ⟨c, hc, fun u hu hu' => ?_⟩
  exact (monthGrid 0).coverage_eq_one (fun k hlow hhigh => hcells k (mem_months.mpr ⟨hlow, hhigh⟩))
    (hstart.trans hu) hu'

section Agreement
variable {timestamptz : JsString → Option ℤ} {offset t : ℤ} (hoffset : IsOffset offset)
include hoffset

lemma agrees_iff (hreads : ReadsTimestamps timestamptz) {schema : Partitions}
    (hschema : Catalog.empty.createAll
      (((List.range 9).map fun i : ℕ => april + i).map (monthGrid 0).wanted) = .ok schema)
    (hlow : april - 1 ≤ localMonth offset t) (hhigh : localMonth offset t ≤ april + 9) :
    Agrees timestamptz offset t ↔
      ∃ c, schema.createAll ((months (localMonth offset t)).map (monthGrid offset).wanted) =
        .ok c ∧ CoveredFrom c offset (localMonth offset t) t := by
  have hall : executeAll timestamptz (schemaPartitions ++ ensureMonthlyPartitions offset t) .empty =
      schema.createAll ((months (localMonth offset t)).map (monthGrid offset).wanted) := by
    rw [executeAll, List.map_append, schema_wanted hreads, ensure_wanted hreads hoffset hlow hhigh,
      Catalog.createAll_append, hschema]
    rfl
  rw [Agrees, hall]
  rfl

/-- The season in local months. -/
lemma season_bounds (hseason : InSeason offset t) :
    april - 1 ≤ localMonth offset t ∧ localMonth offset t ≤ april + 9 ∧
    (0 ≤ offset → april ≤ localMonth offset t) ∧
    (offset ≤ 0 → localMonth offset t ≤ april + 8) := by
  rcases hseason with hutc | hlocal
  · obtain ⟨hstart, hend⟩ := localMonth_spec 0 t
    obtain ⟨hstart', hend'⟩ := localMonth_spec offset t
    have hmono := monthStart_strictMono 0
    have hfirst := hmono.monotone hutc.1
    have hlast := hmono.monotone (show localMonth 0 t + 1 ≤ april + 9 by omega)
    have hmarch := monthStart_gap (april - 1)
    have hjanuary := monthStart_gap (april + 9)
    rw [show april - 1 + 1 = april by ring] at hmarch
    rw [monthStart_eq] at hstart' hend'
    unfold IsOffset at hoffset
    have hlow : april - 1 < localMonth offset t + 1 := hmono.lt_iff_lt.mp (by omega)
    have hhigh : localMonth offset t < april + 9 + 1 := hmono.lt_iff_lt.mp (by omega)
    refine ⟨by omega, by omega, fun h => ?_, fun h => ?_⟩
    · have hlt : april < localMonth offset t + 1 := hmono.lt_iff_lt.mp (by omega)
      omega
    · have hlt : localMonth offset t < april + 9 := hmono.lt_iff_lt.mp (by omega)
      omega
  · omega

/-- The migration agrees with the schema in a process at UTC; behind UTC in local April and May;
and ahead of UTC in local April, May and June, once April has begun in UTC. -/
theorem schema_agrees_iff (hreads : ReadsTimestamps timestamptz) (hseason : InSeason offset t) :
    Agrees timestamptz offset t ↔ offset = 0 ∨
      (offset < 0 ∧ april ≤ localMonth offset t ∧ localMonth offset t ≤ april + 1) ∨
      (0 < offset ∧ localMonth offset t ≤ april + 2 ∧ monthStart 0 april ≤ t) := by
  obtain ⟨hlow, hhigh, hnotBehind, hnotAhead⟩ := season_bounds hoffset hseason
  obtain ⟨schema, hschema, hcreated⟩ := exists_schema
  obtain ⟨hstart, hend⟩ := localMonth_spec offset t
  rw [agrees_iff hoffset hreads hcreated hlow hhigh]
  rcases lt_trichotomy offset 0 with hbehind | rfl | hahead
  · rw [covered_behind hschema hoffset hend hstart hbehind hlow (hnotAhead hbehind.le)]
    omega
  · exact iff_of_true (covered_at_utc hschema hstart) (.inl rfl)
  · rw [covered_ahead hschema hoffset hend hahead (hnotBehind hahead.le) hhigh]
    omega

end Agreement

/-- A reader of the two forms. -/
def readTimestamp (s : JsString) : Option ℤ :=
  if s.drop 10 = js " 00:00:00+00" then parseISO (s.take 10 ++ js "T00:00:00.000Z") else parseISO s

lemma isTime_of_fourDigitYear {t : ℤ} (h : FourDigitYear (utcDay t)) : IsTime t := by
  have hvalues : firstDay 0 = -719528 ∧ firstDay 120000 = 2932897 := by decide +kernel
  obtain ⟨hmonth, hmonth'⟩ := monthOf_spec (utcDay t)
  have hyear := (monthOf_div_mod (utcDay t)).1
  unfold FourDigitYear at h
  have hlow := firstDay_strictMono.monotone (show 0 ≤ monthOf (utcDay t) by omega)
  have hhigh := firstDay_strictMono.monotone (show monthOf (utcDay t) + 1 ≤ 120000 by omega)
  unfold utcDay at *
  unfold IsTime
  omega

lemma toISOString_midnight (day : ℤ) :
    toISOString (day * 86400000) = dateText day ++ js "T00:00:00.000Z" := by
  have hday : day * 86400000 / 86400000 = day := by omega
  have hms : (day * 86400000 % 86400000).toNat = 0 := by omega
  have htime : js "T00:00:00.000Z" = unit 'T' :: pad 2 0 ++ unit ':' :: pad 2 0 ++
      unit ':' :: pad 2 0 ++ unit '.' :: pad 3 0 ++ [unit 'Z'] := by decide +kernel
  simp only [toISOString, hday, hms, dateText, htime, List.append_assoc, List.cons_append]

lemma readTimestamp_reads : ReadsTimestamps readTimestamp := by
  constructor
  · intro t ht
    obtain ⟨time, htime⟩ := toISOString_eq t
    have hdrop : (toISOString t).drop 10 ≠ js " 00:00:00+00" := by
      rw [htime, List.drop_left' (dateText_length ht)]
      intro h
      exact absurd (List.cons.inj h).1 (by decide)
    rw [readTimestamp, if_neg hdrop, parseISO_toISOString (isTime_of_fourDigitYear ht)]
  · intro day hday
    have hutc : utcDay (day * 86400000) = day := by
      unfold utcDay
      omega
    have htime := isTime_of_fourDigitYear (hutc.symm ▸ hday)
    have hlength := dateText_length hday
    rw [readTimestamp, List.drop_left' hlength, if_pos rfl, List.take_left' hlength,
      ← toISOString_midnight, parseISO_toISOString htime]

/-- Noon of the fifteenth of April, at UTC. -/
theorem schema_agrees_iff_april : Agrees readTimestamp 0 1776254400000 ↔ (0 : ℤ) = 0 ∨
    ((0 : ℤ) < 0 ∧ april ≤ localMonth 0 1776254400000 ∧ localMonth 0 1776254400000 ≤ april + 1) ∨
    ((0 : ℤ) < 0 ∧ localMonth 0 1776254400000 ≤ april + 2 ∧ monthStart 0 april ≤ 1776254400000) :=
  schema_agrees_iff (by unfold IsOffset; decide) readTimestamp_reads
    (by unfold InSeason; decide +kernel)

def refusalOf : Except Refusal Partitions → Option Refusal
  | .error refusal => some refusal
  | .ok _ => none

/-- Noon of the fifteenth of July, an hour ahead of UTC. -/
theorem january_overlaps_december : ¬ ∀ (timestamptz : JsString → Option ℤ) (offset t : ℤ),
    ReadsTimestamps timestamptz → IsOffset offset → InSeason offset t →
      Agrees timestamptz offset t := by
  intro hagrees
  have hoverlap : refusalOf (executeAll readTimestamp
      (schemaPartitions ++ ensureMonthlyPartitions 3600000 1784116800000) .empty) =
        some .overlap := by decide +kernel
  obtain ⟨c, hc, -⟩ := hagrees readTimestamp 3600000 1784116800000 readTimestamp_reads
    (by unfold IsOffset; decide) (by unfold InSeason; decide +kernel)
  rw [hc] at hoverlap
  cases hoverlap

end UrlShortener.Migration
