import AlertRules.Timestamp
import Mathlib.Order.Monotone.Basic
import Mathlib.Order.SuccPred.Basic
import Mathlib.Algebra.Order.Group.Int

/-!
# AlertRules.Proofs.Timestamp.Calendar — days and dates

Every day has a date, and the day of that date is the day itself (`dateOfDay_spec`).

A date is found in a cycle of 400 years.  There the days are first counted without the leap days
(`fullDays`), so that the years have the same length; that this finds the year is told from the days on
which years start and end, since the count never falls.  Years are counted from March, so the leap day
is the last of its year.
-/

namespace AlertRules.Timestamp

/-! ## Years -/

/-- The day on which a year starts, counted from the start of the year 0. -/
def yearStart (y : Int) : Int :=
  365 * y + y / 4 - y / 100 + y / 400

/-- The year ends with a leap day: it is that of the calendar's next year. -/
def EndsLeap (y : Int) : Prop :=
  isLeapYear (y + 1) = true

theorem isLeapYear_iff (y : Int) :
    isLeapYear y = true ↔ y % 4 = 0 ∧ (y % 100 ≠ 0 ∨ y % 400 = 0) := by
  simp [isLeapYear]

theorem yearStart_succ (y : Int) :
    yearStart (y + 1) = yearStart y + 365 ∨
      yearStart (y + 1) = yearStart y + 366 ∧ EndsLeap y := by
  have hfour : (y + 1) / 4 = y / 4 ∧ (y + 1) % 4 ≠ 0 ∨ (y + 1) / 4 = y / 4 + 1 ∧ (y + 1) % 4 = 0 := by
    omega
  have hhundred : (y + 1) / 100 = y / 100 ∧ (y + 1) % 100 ≠ 0 ∨
      (y + 1) / 100 = y / 100 + 1 ∧ (y + 1) % 100 = 0 := by omega
  have hcycle : (y + 1) / 400 = y / 400 ∧ (y + 1) % 400 ≠ 0 ∨
      (y + 1) / 400 = y / 400 + 1 ∧ (y + 1) % 400 = 0 := by omega
  rw [EndsLeap, isLeapYear_iff]
  unfold yearStart
  omega

theorem yearStart_mono {y y' : Int} (h : y ≤ y') : yearStart y ≤ yearStart y' := by
  have hmono : Monotone yearStart := by
    refine monotone_int_of_le_succ fun y => ?_
    rcases yearStart_succ y with hsucc | ⟨hsucc, -⟩ <;> omega
  exact hmono h

/-! ## Years of a cycle -/

/-- The days of a cycle before the day `n`, without leap days. -/
def fullDays (n : Int) : Int :=
  n - n / 1460 + n / 36524 - n / 146096

theorem fullDays_mono {a b : Int} (h : a ≤ b) : fullDays a ≤ fullDays b := by
  unfold fullDays
  omega

theorem le_fullDays_yearStart : ∀ y < 400, 365 * (y : Nat) ≤ fullDays (yearStart y) := by
  decide +kernel

theorem fullDays_yearEnd_lt : ∀ y < 400,
    fullDays (yearStart (y + 1 : Nat) - 1) < 365 * (y + 1 : Nat) := by
  decide +kernel

/-- The year of a cycle to which its day `n` belongs. -/
def yearOf (n : Int) : Int :=
  fullDays n / 365

/-- A day of a cycle belongs to one of its 400 years, and lies between the start of that year and that
of the next. -/
theorem yearOf_spec {n : Int} (h0 : 0 ≤ n) (h1 : n < 146097) :
    0 ≤ yearOf n ∧ yearOf n < 400 ∧ yearStart (yearOf n) ≤ n ∧ n < yearStart (yearOf n + 1) := by
  have hfull : 0 ≤ fullDays n ∧ fullDays n < 146000 := by
    unfold fullDays
    omega
  have hyear : 365 * yearOf n ≤ fullDays n ∧ fullDays n < 365 * (yearOf n + 1) := by
    unfold yearOf
    omega
  generalize yearOf n = y at *
  refine ⟨by omega, by omega, ?_, ?_⟩
  · by_contra hearly
    have hpos : y ≠ 0 := by
      rintro rfl
      exact hearly h0
    have hend := fullDays_yearEnd_lt (y - 1).toNat (by omega)
    rw [show (((y - 1).toNat + 1 : Nat) : Int) = y by omega] at hend
    have hle := fullDays_mono (show n ≤ yearStart y - 1 by omega)
    omega
  · by_contra hlate
    by_cases hlast : y = 399
    · rw [hlast] at hlate
      exact hlate h1
    · have hstart := le_fullDays_yearStart (y + 1).toNat (by omega)
      rw [show ((y + 1).toNat : Int) = y + 1 by omega] at hstart
      have hle := fullDays_mono (show yearStart (y + 1) ≤ n by omega)
      omega

/-! ## Months -/

/-- The months from March on have 31, 30, 31, 30, 31 days, and so on, but the last one ends with the
year. -/
theorem monthOf_spec {n : Int} (h0 : 0 ≤ n) (h1 : n ≤ 365) :
    let month := (5 * n + 2) / 153
    let day := n - (153 * month + 2) / 5 + 1
    0 ≤ month ∧ month ≤ 11 ∧ 1 ≤ day ∧ day ≤ 31 ∧
      (month = 1 ∨ month = 3 ∨ month = 6 ∨ month = 8 → day ≤ 30) ∧
      (month = 11 → day ≤ 29 ∧ (day = 29 → n = 365)) := by
  intro month day
  omega

/-! ## Dates -/

/-- **`IsDate y m d`** — the month is one of the twelve, and the day one of those of the month. -/
structure IsDate (y : Int) (m d : Nat) : Prop where
  month : 1 ≤ m ∧ m ≤ 12
  day : 1 ≤ d ∧ d ≤ daysInMonth y m

/-- The year, counted from March, to which the month belongs. -/
def marchYear (y : Int) (m : Nat) : Int :=
  if m ≤ 2 then y - 1 else y

/-- The day of such a year, counted from 0. -/
def marchDay (m d : Nat) : Int :=
  (153 * (((m + 9) % 12 : Nat) : Int) + 2) / 5 + d - 1

theorem dayNumber_eq (y : Int) (m d : Nat) :
    dayNumber y m d = yearStart (marchYear y m) + marchDay m d - 719468 := by
  show marchYear y m / 400 * 146097 + (marchYear y m % 400 * 365 + marchYear y m % 400 / 4
    - marchYear y m % 400 / 100 + marchDay m d) - 719468 = _
  unfold yearStart
  omega

/-- The date of a day is that of its place in its year. -/
theorem dateOfDay_eq (n : Int) : ∃ year day : Int, 0 ≤ day ∧ day ≤ 365 ∧
    (day = 365 → EndsLeap year) ∧ n = yearStart year + day - 719468 ∧
    dateOfDay n =
      let month := (5 * day + 2) / 153
      let m := (if month < 10 then month + 3 else month - 9).toNat
      (if m ≤ 2 then year + 1 else year, m, (day - (153 * month + 2) / 5 + 1).toNat) := by
  obtain ⟨h0, h400, hstart, hend⟩ :=
    yearOf_spec (n := (n + 719468) % 146097) (by omega) (by omega)
  have hdate : dateOfDay n =
      let year := yearOf ((n + 719468) % 146097)
      let day := (n + 719468) % 146097 - (365 * year + year / 4 - year / 100)
      let month := (5 * day + 2) / 153
      let m := (if month < 10 then month + 3 else month - 9).toNat
      let y := year + (n + 719468) / 146097 * 400
      (if m ≤ 2 then y + 1 else y, m, (day - (153 * month + 2) / 5 + 1).toNat) := rfl
  generalize yearOf ((n + 719468) % 146097) = year at *
  have hcycle : yearStart year = 365 * year + year / 4 - year / 100 := by
    unfold yearStart
    omega
  refine ⟨year + (n + 719468) / 146097 * 400,
    (n + 719468) % 146097 - (365 * year + year / 4 - year / 100), by omega, ?_, ?_, ?_, hdate⟩
  · rcases yearStart_succ year with hsucc | ⟨hsucc, -⟩ <;> omega
  · intro hlast
    have hleap : EndsLeap year := by
      rcases yearStart_succ year with hsucc | ⟨-, hleap⟩
      · omega
      · exact hleap
    rw [EndsLeap, isLeapYear_iff] at hleap ⊢
    omega
  · have hera : yearStart (year + (n + 719468) / 146097 * 400) =
        yearStart year + (n + 719468) / 146097 * 146097 := by
      unfold yearStart
      omega
    omega

/-- Every day has a date, and is the day of that date. -/
theorem dateOfDay_spec {n y : Int} {m d : Nat} (h : dateOfDay n = (y, m, d)) :
    IsDate y m d ∧ dayNumber y m d = n := by
  obtain ⟨year, day, h0, h365, hleap, hn, hdate⟩ := dateOfDay_eq n
  obtain ⟨hm0, hm11, hd1, hd31, hshort, hlast⟩ := monthOf_spec h0 h365
  simp only [h, Prod.mk.injEq] at hdate
  generalize (5 * day + 2) / 153 = month at *
  obtain ⟨hy, hm, hd⟩ := hdate
  rw [← hm] at hy
  have hmonth : 1 ≤ m ∧ m ≤ 12 := by
    split at hm <;> omega
  have hmarch : (((m + 9) % 12 : Nat) : Int) = month := by
    split at hm <;> omega
  have hyear : marchYear y m = year := by
    unfold marchYear
    split at hy <;> split <;> omega
  have hday : marchDay m d = day := by
    rw [marchDay, hmarch]
    omega
  refine ⟨⟨hmonth, by omega, ?_⟩, by rw [dayNumber_eq, hyear, hday, hn]⟩
  unfold daysInMonth
  split
  · rename_i hfebruary
    obtain ⟨hd29, hd365⟩ := hlast (by omega)
    split
    · omega
    · rename_i hcommon
      have hnot : day ≠ 365 := by
        intro heq
        apply hcommon
        rw [hy, if_pos (by omega)]
        exact hleap heq
      omega
  · split
    · have hd30 := hshort (by omega)
      omega
    · omega

/-! ## The days that moments have -/

theorem IsDate.day_le {y : Int} {m d : Nat} (h : IsDate y m d) : d ≤ 31 := by
  have hd := h.day.2
  unfold daysInMonth at hd
  split at hd <;> split at hd <;> omega

theorem firstDay_eq (y : Int) : dayNumber y 1 1 = yearStart (y - 1) + 306 - 719468 :=
  dayNumber_eq y 1 1

theorem lastDay_eq (y : Int) : dayNumber y 12 31 = yearStart y + 305 - 719468 :=
  dayNumber_eq y 12 31

/-- A date lies between the first and the last day of its year. -/
theorem IsDate.dayNumber_bounds {y : Int} {m d : Nat} (h : IsDate y m d) :
    dayNumber y 1 1 ≤ dayNumber y m d ∧ dayNumber y m d ≤ dayNumber y 12 31 := by
  obtain ⟨hm1, hm12⟩ := h.month
  have hd1 := h.day.1
  have hd31 := h.day_le
  have hyear : yearStart (y - 1) + 365 ≤ yearStart y := by
    have hsucc := yearStart_succ (y - 1)
    rw [show y - 1 + 1 = y by omega] at hsucc
    omega
  rw [firstDay_eq, lastDay_eq, dayNumber_eq]
  unfold marchYear marchDay
  split <;> omega

theorem firstDay_mono {y y' : Int} (h : y ≤ y') : dayNumber y 1 1 ≤ dayNumber y' 1 1 := by
  have hstart := yearStart_mono (show y - 1 ≤ y' - 1 by omega)
  rw [firstDay_eq, firstDay_eq]
  omega

theorem lastDay_succ (y : Int) : dayNumber y 12 31 + 1 = dayNumber (y + 1) 1 1 := by
  rw [firstDay_eq, lastDay_eq, show y + 1 - 1 = y by omega]
  omega

/-- The days from the first of one year to the last of another belong to these years and to those
between them. -/
theorem IsDate.year_bounds {y first last : Int} {m d : Nat} (h : IsDate y m d)
    (hfirst : dayNumber first 1 1 ≤ dayNumber y m d)
    (hlast : dayNumber y m d ≤ dayNumber last 12 31) : first ≤ y ∧ y ≤ last := by
  obtain ⟨hstart, hend⟩ := h.dayNumber_bounds
  constructor
  · by_contra hearly
    have hmono := firstDay_mono (show y + 1 ≤ first by omega)
    have hsucc := lastDay_succ y
    omega
  · by_contra hlate
    have hmono := firstDay_mono (show last + 1 ≤ y by omega)
    have hsucc := lastDay_succ last
    omega

end AlertRules.Timestamp
