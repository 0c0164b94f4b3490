import UrlShortener.IsoDate

/-! The days of the calendar as `toISOString` writes them, and its months numbered one after
another. -/
namespace UrlShortener.Js

/-! Days. -/

def utcDay (t : ℤ) : ℤ := t / 86400000

/-- `toISOString().slice(0, 10)`. -/
def isoDay (t : ℤ) : JsString := (toISOString t).take 10

/-- The part of the text of a date that stands before its time. -/
def dateText (day : ℤ) : JsString :=
  isoYear (civil day).1 ++ unit '-' :: pad 2 (civil day).2.1 ++ unit '-' :: pad 2 (civil day).2.2

/-- The year of the day is written with four digits. -/
def FourDigitYear (day : ℤ) : Prop := 0 ≤ (civil day).1 ∧ (civil day).1 ≤ 9999

instance (day : ℤ) : Decidable (FourDigitYear day) :=
  inferInstanceAs (Decidable (0 ≤ (civil day).1 ∧ (civil day).1 ≤ 9999))

lemma toISOString_eq (t : ℤ) :
    ∃ time, toISOString t = dateText (utcDay t) ++ unit 'T' :: time := by
  simp only [toISOString, dateText, utcDay, List.append_assoc, List.cons_append]
  exact ⟨_, rfl⟩

lemma month_lt (day : ℤ) : (civil day).2.1 < 10 ^ 2 := by
  have hmonth := (civil_spec day).2.1.2
  omega

lemma day_lt (day : ℤ) : (civil day).2.2 < 10 ^ 2 := by
  have hdate := (civil_spec day).2.2.2
  have hlast : daysInMonth (civil day).1 (civil day).2.1 ≤ 31 := by
    unfold daysInMonth
    split_ifs <;> omega
  omega

lemma le_pad_length (width n : ℕ) : width ≤ (pad width n).length := by
  rw [pad, List.length_append, List.length_replicate]
  omega

lemma le_dateText_length (day : ℤ) : 10 ≤ (dateText day).length := by
  have hyear : 4 ≤ (isoYear (civil day).1).length := by
    rw [isoYear]
    split_ifs
    · exact le_pad_length 4 _
    · exact (by norm_num : 4 ≤ 6).trans ((le_pad_length 6 _).trans (Nat.le_succ _))
    · exact (by norm_num : 4 ≤ 6).trans ((le_pad_length 6 _).trans (Nat.le_succ _))
  have hmonth := le_pad_length 2 (civil day).2.1
  have hday := le_pad_length 2 (civil day).2.2
  simp only [dateText, List.length_append, List.length_cons]
  omega

lemma dateText_length {day : ℤ} (h : FourDigitYear day) : (dateText day).length = 10 := by
  have hyear : (civil day).1.toNat < 10 ^ 4 := by
    have hhigh := h.2
    omega
  have hfour : (isoYear (civil day).1).length = 4 := by
    rw [isoYear, if_pos ⟨h.1, h.2⟩, pad_length (by norm_num) hyear]
  have hmonth := pad_length two_pos (month_lt day)
  have hday := pad_length two_pos (day_lt day)
  simp only [dateText, List.length_append, List.length_cons]
  omega

lemma isoDay_eq_dateText {t : ℤ} (h : FourDigitYear (utcDay t)) :
    isoDay t = dateText (utcDay t) := by
  obtain ⟨time, htime⟩ := toISOString_eq t
  rw [isoDay, htime, List.take_left' (dateText_length h)]

lemma isoDay_length (t : ℤ) : (isoDay t).length = 10 := by
  obtain ⟨time, htime⟩ := toISOString_eq t
  have hle := le_dateText_length (utcDay t)
  rw [isoDay, htime, List.length_take, List.length_append]
  omega

/-- The text of a day tells the day. -/
lemma dateText_injOn {day day' : ℤ} (h : FourDigitYear day) (h' : FourDigitYear day')
    (heq : dateText day = dateText day') : day = day' := by
  have hread : ∀ {d}, FourDigitYear d → (readYear (dateText d)).bind (fun year =>
      (readPart '-' 2 year.2).bind fun month => (readPart '-' 2 month.2).map fun date =>
        (year.1, month.1, date.1)) = some (civil d) := by
    intro d hd
    have hyear : (civil d).1.natAbs < 10 ^ 6 := by
      have hlow := hd.1
      have hhigh := hd.2
      omega
    have hday := readPart_pad two_pos (day_lt d) '-' []
    rw [List.append_nil] at hday
    rw [dateText, List.append_assoc, readYear_isoYear hyear, Option.bind_some, List.cons_append,
      readPart_pad two_pos (month_lt d), Option.bind_some, hday]
    rfl
  have hcivil : civil day = civil day' := by
    have hday := hread h
    rw [heq, hread h'] at hday
    exact (Option.some.inj hday).symm
  rw [← (civil_spec day).1, ← (civil_spec day').1, hcivil]

lemma head_pad (width n : ℕ) : (pad width n).head?.all isDigit = true := by
  cases hpad : pad width n with
  | nil => rfl
  | cons c s => exact List.all_eq_true.mp (pad_digits width n) c (by simp [hpad])

lemma head_isoYear (year : ℤ) :
    (isoYear year).head?.all isDigit = true ↔ 0 ≤ year ∧ year ≤ 9999 := by
  rw [isoYear]
  split_ifs with hfour hneg
  · exact iff_of_true (head_pad 4 _) hfour
  · exact iff_of_false (by rw [List.head?_cons]; decide) hfour
  · exact iff_of_false (by rw [List.head?_cons]; decide) hfour

/-- A year that is not written with four digits has a sign. -/
lemma head_isoDay (t : ℤ) : (isoDay t).head?.all isDigit = true ↔ FourDigitYear (utcDay t) := by
  obtain ⟨time, htime⟩ := toISOString_eq t
  have hne : isoYear (civil (utcDay t)).1 ≠ [] := by
    rw [isoYear]
    split_ifs
    · simp [pad, (decimal_digits _).1]
    · exact List.cons_ne_nil _ _
    · exact List.cons_ne_nil _ _
  have hhead : (isoDay t).head? = (isoYear (civil (utcDay t)).1).head? := by
    rw [isoDay, htime, List.head?_take, dateText]
    simp [List.head?_append_of_ne_nil _ hne]
  rw [hhead, head_isoYear]
  rfl

lemma isoDay_eq_iff {t u : ℤ} (ht : FourDigitYear (utcDay t)) :
    isoDay t = isoDay u ↔ utcDay t = utcDay u := by
  constructor
  · intro heq
    have hu : FourDigitYear (utcDay u) := by
      rw [← head_isoDay, ← heq]
      exact (head_isoDay t).mpr ht
    rw [isoDay_eq_dateText ht, isoDay_eq_dateText hu] at heq
    exact dateText_injOn ht hu heq
  · intro hday
    rw [isoDay_eq_dateText ht, isoDay_eq_dateText (hday ▸ ht), hday]

/-! Months, numbered from the January of year 0 on. -/

/-- The first day of a month. -/
def firstDay (month : ℤ) : ℤ := dayNumber (month / 12) ((month % 12).toNat + 1) 1

/-- The month of a day. -/
def monthOf (day : ℤ) : ℤ := 12 * (civil day).1 + ((civil day).2.1 - 1 : ℕ)

lemma dayNumber_eq_add (year : ℤ) (month : ℕ) {day : ℕ} (hday : 1 ≤ day) :
    dayNumber year month day = dayNumber year month 1 + (day - 1 : ℕ) := by
  simp only [dayNumber]
  omega

lemma dayNumber_succ {year : ℤ} {month : ℕ} (hmonth : 1 ≤ month) (hlast : month < 12) :
    dayNumber year (month + 1) 1 = dayNumber year month 1 + daysInMonth year month := by
  by_cases hfeb : month = 2
  · subst hfeb
    rw [daysInMonth, if_pos rfl, isLeapYear]
    simp only [dayNumber, Bool.and_eq_true, Bool.or_eq_true, decide_eq_true_eq]
    split_ifs <;> omega
  · interval_cases month <;> simp [dayNumber, daysInMonth] <;> omega

lemma dayNumber_january (year : ℤ) : dayNumber (year + 1) 1 1 = dayNumber year 12 1 + 31 := by
  simp [dayNumber]
  omega

/-- A month is as long as its number of days. -/
lemma firstDay_succ (month : ℤ) : firstDay (month + 1) =
    firstDay month + daysInMonth (month / 12) ((month % 12).toNat + 1) := by
  obtain ⟨m, hm⟩ : ∃ m : ℕ, (month % 12).toNat = m := ⟨_, rfl⟩
  rw [firstDay, firstDay, hm]
  by_cases hdecember : m = 11
  · have hyear : (month + 1) / 12 = month / 12 + 1 := by omega
    have hmonth : ((month + 1) % 12).toNat = 0 := by omega
    rw [hyear, hmonth, hdecember, dayNumber_january]
    rfl
  · have hyear : (month + 1) / 12 = month / 12 := by omega
    have hmonth : ((month + 1) % 12).toNat = m + 1 := by omega
    rw [hyear, hmonth, dayNumber_succ (by omega) (by omega)]

lemma daysInMonth_pos (year : ℤ) (month : ℕ) : 28 ≤ daysInMonth year month := by
  unfold daysInMonth
  split_ifs <;> norm_num

theorem firstDay_strictMono : StrictMono firstDay := by
  refine strictMono_int_of_lt_succ fun month => ?_
  have hpos := daysInMonth_pos (month / 12) ((month % 12).toNat + 1)
  rw [firstDay_succ]
  omega

lemma firstDay_add_le (month : ℤ) : firstDay month + 28 ≤ firstDay (month + 1) := by
  have hpos := daysInMonth_pos (month / 12) ((month % 12).toNat + 1)
  rw [firstDay_succ]
  omega

lemma monthOf_div_mod (day : ℤ) : monthOf day / 12 = (civil day).1 ∧
    (monthOf day % 12).toNat + 1 = (civil day).2.1 := by
  obtain ⟨-, hmonth, -⟩ := civil_spec day
  unfold monthOf
  omega

/-- A day lies in its month. -/
theorem monthOf_spec (day : ℤ) :
    firstDay (monthOf day) ≤ day ∧ day < firstDay (monthOf day + 1) := by
  obtain ⟨hday, -, hfirst, hlast⟩ := civil_spec day
  obtain ⟨hyear, hmonth⟩ := monthOf_div_mod day
  have hnumber := dayNumber_eq_add (civil day).1 (civil day).2.1 hfirst
  rw [firstDay_succ, firstDay, hyear, hmonth]
  omega

theorem monthOf_eq {month day : ℤ} (hlow : firstDay month ≤ day)
    (hhigh : day < firstDay (month + 1)) :
    monthOf day = month := by
  obtain ⟨hlow', hhigh'⟩ := monthOf_spec day
  have hle := firstDay_strictMono.lt_iff_lt.mp (hlow.trans_lt hhigh')
  have hge := firstDay_strictMono.lt_iff_lt.mp (hlow'.trans_lt hhigh)
  omega

lemma monthOf_firstDay (month : ℤ) : monthOf (firstDay month) = month :=
  monthOf_eq le_rfl (firstDay_strictMono (Int.lt_succ month))

/-- The date of the first day of a month. -/
theorem civil_firstDay (month : ℤ) :
    (civil (firstDay month)).1 = month / 12 ∧
      (civil (firstDay month)).2.1 = (month % 12).toNat + 1 := by
  obtain ⟨hyear, hmonth⟩ := monthOf_div_mod (firstDay month)
  rw [monthOf_firstDay] at hyear hmonth
  exact ⟨hyear.symm, hmonth.symm⟩

lemma monthOf_mono : Monotone monthOf := by
  intro day day' hle
  have hlow := (monthOf_spec day).1
  have hhigh := (monthOf_spec day').2
  have hlt := firstDay_strictMono.lt_iff_lt.mp ((hlow.trans hle).trans_lt hhigh)
  omega

end UrlShortener.Js
