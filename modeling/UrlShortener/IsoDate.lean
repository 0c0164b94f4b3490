import UrlShortener.JsNumber

/-! The ISO form of a date read back: the calendar that `toISOString` writes from is inverted,
and so is each field of its text. -/
namespace UrlShortener.Js

def isLeapYear (year : ℤ) : Bool := year % 4 = 0 && (year % 100 ≠ 0 || year % 400 = 0)

def daysInMonth (year : ℤ) (month : ℕ) : ℕ :=
  if month = 2 then if isLeapYear year then 29 else 28
  else if month = 4 ∨ month = 6 ∨ month = 9 ∨ month = 11 then 30 else 31

/-- The days from the epoch to a date. Years are counted from March on, in eras of 400. -/
def dayNumber (year : ℤ) (month day : ℕ) : ℤ :=
  let year := if month ≤ 2 then year - 1 else year
  let yoe := (year % 400).toNat
  let mp := if 2 < month then month - 3 else month + 9
  let doy := (153 * mp + 2) / 5 + day - 1
  year / 400 * 146097 + (365 * yoe + yoe / 4 - yoe / 100 + doy : ℕ) - 719468

/-- The days of an era before a year of it. -/
def eraStart (year : ℕ) : ℕ := 365 * year + year / 4 - year / 100 + year / 400

/-- The division of `civil` that finds the year. -/
def leapless (doe : ℕ) : ℕ := doe - doe / 1460 + doe / 36524 - doe / 146096

lemma leapless_mono : Monotone leapless := by
  refine monotone_nat_of_le_succ fun n => ?_
  unfold leapless
  omega

lemma leapless_eraStart : ∀ year < 400, 365 * year ≤ leapless (eraStart year) ∧
    leapless (eraStart (year + 1) - 1) < 365 * (year + 1) := by decide +kernel

lemma exists_year {doe : ℕ} : ∀ years, doe < eraStart years →
    ∃ year < years, eraStart year ≤ doe ∧ doe < eraStart (year + 1)
  | 0, h => absurd h (Nat.not_lt_zero _)
  | years + 1, h => by
    by_cases hlt : doe < eraStart years
    · obtain ⟨year, hyear, hbounds⟩ := exists_year years hlt
      exact ⟨year, hyear.trans (Nat.lt_succ_self _), hbounds⟩
    · exact ⟨years, Nat.lt_succ_self _, not_lt.mp hlt, h⟩

/-- Year of the era from the day of the era. -/
lemma yearOfEra_spec {doe : ℕ} (h : doe < 146097) :
    leapless doe / 365 < 400 ∧ eraStart (leapless doe / 365) ≤ doe ∧
      doe < eraStart (leapless doe / 365 + 1) := by
  obtain ⟨year, hyear, hstart, hend⟩ := exists_year 400 h
  obtain ⟨hlow, hhigh⟩ := leapless_eraStart year hyear
  have hge := hlow.trans (leapless_mono hstart)
  have hle := (leapless_mono (Nat.le_sub_one_of_lt hend)).trans_lt hhigh
  have hyears : leapless doe / 365 = year := by omega
  rw [hyears]
  exact ⟨hyear, hstart, hend⟩

lemma monthOfYear_spec {doy : ℕ} (h : doy < 366) :
    (5 * doy + 2) / 153 ≤ 11 ∧ (153 * ((5 * doy + 2) / 153) + 2) / 5 ≤ doy ∧
      doy < (153 * ((5 * doy + 2) / 153 + 1) + 2) / 5 := by
  omega

/-- The month with its number in a year that begins in March. -/
def monthFrom (mp : ℕ) : ℕ := if mp < 10 then mp + 3 else mp - 9

/-- The year of a month, from the year that begins in the March before it. -/
def yearFrom (era : ℤ) (yoe mp : ℕ) : ℤ :=
  yoe + era * 400 + if monthFrom mp ≤ 2 then 1 else 0

lemma dayNumber_from {era : ℤ} {yoe mp : ℕ} (hyoe : yoe < 400) (hmp : mp ≤ 11) (n : ℕ) :
    dayNumber (yearFrom era yoe mp) (monthFrom mp) (n + 1) =
      era * 146097 + (365 * yoe + yoe / 4 - yoe / 100 + ((153 * mp + 2) / 5 + n) : ℕ) - 719468 := by
  by_cases hm : mp < 10
  · have hmonth : monthFrom mp = mp + 3 := if_pos hm
    have hyear : yearFrom era yoe mp = yoe + era * 400 := by
      rw [yearFrom, hmonth, if_neg (by omega), add_zero]
    have hmod : (yoe + era * 400) % 400 = (yoe : ℤ) := by omega
    have hdiv : (yoe + era * 400) / 400 = era := by omega
    rw [hyear, hmonth, dayNumber]
    simp only [if_neg (show ¬ mp + 3 ≤ 2 by omega), if_pos (show 2 < mp + 3 by omega), hmod, hdiv,
      Int.toNat_natCast, Nat.add_sub_cancel]
    omega
  · have hmonth : monthFrom mp = mp - 9 := if_neg hm
    have hyear : yearFrom era yoe mp = yoe + era * 400 + 1 := by
      rw [yearFrom, hmonth, if_pos (by omega)]
    have hmod : (yoe + era * 400 + 1 - 1) % 400 = (yoe : ℤ) := by omega
    have hdiv : (yoe + era * 400 + 1 - 1) / 400 = era := by omega
    have hmp' : mp - 9 + 9 = mp := by omega
    rw [hyear, hmonth, dayNumber]
    simp only [if_pos (show mp - 9 ≤ 2 by omega), if_neg (show ¬ 2 < mp - 9 by omega), hmod, hdiv,
      Int.toNat_natCast, hmp']
    omega

lemma le_daysInMonth {era : ℤ} {yoe mp n : ℕ} (hmp : mp ≤ 11)
    (hn : n + (153 * mp + 2) / 5 < (153 * (mp + 1) + 2) / 5)
    (hyear : n + (153 * mp + 2) / 5 < eraStart (yoe + 1) - eraStart yoe) :
    n + 1 ≤ daysInMonth (yearFrom era yoe mp) (monthFrom mp) := by
  by_cases hfeb : mp = 11
  · subst hfeb
    -- the year has a day more only when the next one, of whose second month this is, is leap
    have hmonth : monthFrom 11 = 2 := rfl
    have hyear' : yearFrom era yoe 11 = yoe + era * 400 + 1 := rfl
    rw [daysInMonth, hmonth, if_pos rfl, hyear', isLeapYear]
    unfold eraStart at hyear
    simp only [Bool.and_eq_true, Bool.or_eq_true, decide_eq_true_eq]
    split_ifs with hleap
    · omega
    · omega
  · have hmp' : mp ≤ 10 := by omega
    rw [daysInMonth]
    interval_cases mp <;> simp [monthFrom] <;> omega

/-- The date of a day, from its place in an era. -/
lemma civil_eq (days : ℤ) : ∃ yoe mp n, yoe < 400 ∧ mp ≤ 11 ∧
    civil days = (yearFrom ((days + 719468) / 146097) yoe mp, monthFrom mp, n + 1) ∧
    days = dayNumber (yearFrom ((days + 719468) / 146097) yoe mp) (monthFrom mp) (n + 1) ∧
    n + 1 ≤ daysInMonth (yearFrom ((days + 719468) / 146097) yoe mp) (monthFrom mp) := by
  obtain ⟨doe, hdoe⟩ : ∃ doe : ℕ, ((days + 719468) % 146097).toNat = doe := ⟨_, rfl⟩
  have hlt : doe < 146097 := by omega
  obtain ⟨hyoe, hstart, hend⟩ := yearOfEra_spec hlt
  obtain ⟨yoe, hyoe_eq⟩ : ∃ yoe, leapless doe / 365 = yoe := ⟨_, rfl⟩
  rw [hyoe_eq] at hyoe hstart hend
  have hlen : eraStart (yoe + 1) - eraStart yoe ≤ 366 := by
    unfold eraStart
    omega
  obtain ⟨doy, hdoy⟩ : ∃ doy, doe - eraStart yoe = doy := ⟨_, rfl⟩
  have hdoy_lt : doy < 366 := by omega
  obtain ⟨hmp, hlow, hhigh⟩ := monthOfYear_spec hdoy_lt
  obtain ⟨mp, hmp_eq⟩ : ∃ mp, (5 * doy + 2) / 153 = mp := ⟨_, rfl⟩
  rw [hmp_eq] at hmp hlow hhigh
  obtain ⟨n, rfl⟩ : ∃ n, doy = (153 * mp + 2) / 5 + n := ⟨_, (Nat.add_sub_of_le hlow).symm⟩
  have hstart_eq : eraStart yoe = 365 * yoe + yoe / 4 - yoe / 100 := by
    unfold eraStart
    omega
  have hmonth : n + (153 * mp + 2) / 5 < (153 * (mp + 1) + 2) / 5 := by omega
  have hyear : n + (153 * mp + 2) / 5 < eraStart (yoe + 1) - eraStart yoe := by omega
  refine ⟨yoe, mp, n, hyoe, hmp, ?_, ?_, le_daysInMonth hmp hmonth hyear⟩
  · rw [civil]
    simp only [hdoe]
    rw [show (doe - doe / 1460 + doe / 36524 - doe / 146096) / 365 = yoe from hyoe_eq,
      ← hstart_eq, hdoy, hmp_eq, Nat.add_sub_cancel_left]
    rfl
  · rw [dayNumber_from hyoe hmp, ← hstart_eq]
    omega

/-- The date of a day is a date, and its day is that day. -/
theorem civil_spec (days : ℤ) :
    dayNumber (civil days).1 (civil days).2.1 (civil days).2.2 = days ∧
      (1 ≤ (civil days).2.1 ∧ (civil days).2.1 ≤ 12) ∧
      1 ≤ (civil days).2.2 ∧ (civil days).2.2 ≤ daysInMonth (civil days).1 (civil days).2.1 := by
  obtain ⟨yoe, mp, n, -, hmp, hcivil, hdays, hlast⟩ := civil_eq days
  rw [hcivil]
  refine ⟨hdays.symm, ?_, Nat.succ_pos n, hlast⟩
  dsimp only [monthFrom]
  split_ifs <;> omega

/-- The years that a date can have. -/
lemma civil_year {days : ℤ} (h : days.natAbs ≤ 100000000) : (civil days).1.natAbs < 10 ^ 6 := by
  obtain ⟨yoe, mp, n, hyoe, -, hcivil, -⟩ := civil_eq days
  rw [hcivil]
  dsimp only [yearFrom]
  split_ifs <;> omega

/-! Reading the text of a date back. -/

/-- A number of so many digits, and what follows it. -/
def readField (width : ℕ) (s : JsString) : Option (ℕ × JsString) :=
  if (s.take width).length = width ∧ (s.take width).all isDigit then
    (readNumeral 10 (s.take width)).map fun n => (n, s.drop width)
  else none

/-- A separator and a field. -/
def readPart (separator : Char) (width : ℕ) (s : JsString) : Option (ℕ × JsString) :=
  if s.head? = some (unit separator) then readField width s.tail else none

/-- Four digits, or a sign and six; there is no year -0. -/
def readYear (s : JsString) : Option (ℤ × JsString) :=
  if s.head? = some (unit '+') then
    (readField 6 s.tail).map fun field => ((field.1 : ℤ), field.2)
  else if s.head? = some (unit '-') then
    (readField 6 s.tail).bind fun field =>
      if field.1 = 0 then none else some (-(field.1 : ℤ), field.2)
  else (readField 4 s).map fun field => ((field.1 : ℤ), field.2)

/-- The time values of dates. -/
def IsTime (t : ℤ) : Prop := t.natAbs ≤ 8640000000000000

instance (t : ℤ) : Decidable (IsTime t) := Nat.decLe _ _

/-- The interchange form of a date with all its parts and in UTC, as `Date.parse` reads it. -/
def parseISO (s : JsString) : Option ℤ := do
  let year ← readYear s
  let month ← readPart '-' 2 year.2
  let day ← readPart '-' 2 month.2
  let hour ← readPart 'T' 2 day.2
  let minute ← readPart ':' 2 hour.2
  let second ← readPart ':' 2 minute.2
  let ms ← readPart '.' 3 second.2
  let t := dayNumber year.1 month.1 day.1 * 86400000 +
    (hour.1 * 3600000 + minute.1 * 60000 + second.1 * 1000 + ms.1 : ℕ)
  if ms.2 = [unit 'Z'] ∧ (1 ≤ month.1 ∧ month.1 ≤ 12) ∧
      (1 ≤ day.1 ∧ day.1 ≤ daysInMonth year.1 month.1) ∧ hour.1 < 24 ∧ minute.1 < 60 ∧
      second.1 < 60 ∧ t.natAbs ≤ 8640000000000000 then some t
  else none

example : ["2024-02-29T12:34:56.789Z", "2023-02-29T00:00:00.000Z", "-000001-12-31T23:59:59.999Z",
    "+275760-09-13T00:00:00.001Z", "2024-02-29"].map (fun s => parseISO (js s)) =
      [some 1709210096789, none, some (-62167219200001), none, none] := by decide +kernel

lemma pad_length {width n : ℕ} (hwidth : 0 < width) (hn : n < 10 ^ width) :
    (pad width n).length = width := by
  have hle : (decimal n).length ≤ width := by
    rw [decimal]
    split_ifs with hzero
    · exact hwidth
    · rw [List.length_map, List.length_reverse]
      exact (Nat.digits_length_le_iff (by norm_num) n).mpr hn
  rw [pad, List.length_append, List.length_replicate]
  omega

lemma pad_digits (width n : ℕ) : (pad width n).all isDigit = true := by
  refine List.all_eq_true.mpr fun c hc => ?_
  rcases List.mem_append.mp hc with hzero | hdecimal
  · rw [List.eq_of_mem_replicate hzero]
    decide
  · exact isDigit_of_mem_decimal hdecimal

lemma readDigits_zeros (k : ℕ) (s : JsString) :
    readDigits 10 (List.replicate k (unit '0') ++ s) 0 = readDigits 10 s 0 := by
  induction k with
  | zero => rfl
  | succ k ih => exact ih

lemma readNumeral_pad (width n : ℕ) : readNumeral 10 (pad width n) = some n := by
  have hdecimal := readNumeral_decimal n
  have hne := (decimal_digits n).1
  rw [readNumeral, if_neg (by simpa using hne)] at hdecimal
  rw [readNumeral, if_neg (by simp [pad, hne]), pad, readDigits_zeros, hdecimal]

lemma readField_pad {width n : ℕ} (hwidth : 0 < width) (hn : n < 10 ^ width) (s : JsString) :
    readField width (pad width n ++ s) = some (n, s) := by
  have hlength := pad_length hwidth hn
  have htake : (pad width n ++ s).take width = pad width n := List.take_left' hlength
  have hdrop : (pad width n ++ s).drop width = s := List.drop_left' hlength
  rw [readField, htake, hdrop, if_pos ⟨hlength, pad_digits width n⟩, readNumeral_pad]
  rfl

lemma readPart_pad {width n : ℕ} (hwidth : 0 < width) (hn : n < 10 ^ width) (separator : Char)
    (s : JsString) :
    readPart separator width (unit separator :: (pad width n ++ s)) = some (n, s) := by
  rw [readPart, List.head?_cons, if_pos rfl, List.tail_cons, readField_pad hwidth hn]

lemma readYear_isoYear {year : ℤ} (h : year.natAbs < 10 ^ 6) (s : JsString) :
    readYear (isoYear year ++ s) = some (year, s) := by
  unfold isoYear
  split_ifs with hfour hneg
  · have hlt : year.toNat < 10 ^ 4 := by omega
    have hhead : ∀ c, isDigit c = false → (pad 4 year.toNat ++ s).head? ≠ some c := by
      intro c hc hsome
      have hne : pad 4 year.toNat ≠ [] := by simp [pad, (decimal_digits year.toNat).1]
      rw [List.head?_append_of_ne_nil _ hne] at hsome
      have hdigit := List.all_eq_true.mp (pad_digits 4 year.toNat) c (List.mem_of_head? hsome)
      rw [hc] at hdigit
      exact Bool.noConfusion hdigit
    rw [readYear, if_neg (hhead _ (by decide)), if_neg (hhead _ (by decide)),
      readField_pad (by norm_num) hlt, Option.map_some, Int.toNat_of_nonneg hfour.1]
  · have hne : year.natAbs ≠ 0 := by omega
    have hyear : -(year.natAbs : ℤ) = year := by omega
    rw [List.cons_append, readYear, List.head?_cons, if_neg (by decide), if_pos rfl,
      List.tail_cons, readField_pad (by norm_num) h, Option.bind_some, if_neg hne, hyear]
  · have hyear : (year.natAbs : ℤ) = year := by omega
    rw [List.cons_append, readYear, List.head?_cons, if_pos rfl, List.tail_cons,
      readField_pad (by norm_num) h, Option.map_some, hyear]

/-- A date is read back from its text. -/
theorem parseISO_toISOString {t : ℤ} (h : IsTime t) : parseISO (toISOString t) = some t := by
  unfold IsTime at h
  obtain ⟨hday, hmonth, hdate⟩ := civil_spec (t / 86400000)
  have hyear := civil_year (show (t / 86400000).natAbs ≤ 100000000 by omega)
  have hlast : daysInMonth (civil (t / 86400000)).1 (civil (t / 86400000)).2.1 ≤ 31 := by
    unfold daysInMonth
    split_ifs <;> omega
  obtain ⟨ms, hms⟩ : ∃ ms, (t % 86400000).toNat = ms := ⟨_, rfl⟩
  have hlt : ms < 86400000 := by omega
  have htime : dayNumber (civil (t / 86400000)).1 (civil (t / 86400000)).2.1
      (civil (t / 86400000)).2.2 * 86400000 + (ms / 3600000 * 3600000 + ms / 60000 % 60 * 60000 +
        ms / 1000 % 60 * 1000 + ms % 1000 : ℕ) = t := by
    rw [hday]
    omega
  have hvalid : ms / 3600000 < 24 ∧ ms / 60000 % 60 < 60 ∧ ms / 1000 % 60 < 60 := by omega
  simp only [toISOString, hms, List.append_assoc, List.cons_append]
  simp only [parseISO, readYear_isoYear hyear,
    readPart_pad two_pos (show (civil (t / 86400000)).2.1 < 10 ^ 2 by omega),
    readPart_pad two_pos (show (civil (t / 86400000)).2.2 < 10 ^ 2 by omega),
    readPart_pad two_pos (show ms / 3600000 < 10 ^ 2 by omega),
    readPart_pad two_pos (show ms / 60000 % 60 < 10 ^ 2 by omega),
    readPart_pad two_pos (show ms / 1000 % 60 < 10 ^ 2 by omega),
    readPart_pad three_pos (show ms % 1000 < 10 ^ 3 by omega), Option.bind_eq_bind,
    Option.bind_some, htime]
  exact if_pos ⟨trivial, hmonth, hdate, hvalid.1, hvalid.2.1, hvalid.2.2, h⟩

end UrlShortener.Js
