import Mathlib.Tactic.IntervalCases

/-!
# The proleptic Gregorian calendar

Days are numbered from the first of January of year 0 by counting the days of the years and of the
months before. Years that begin in March turn the numbers of an era of 400 years into dates.
-/

set_option autoImplicit false

namespace Kvist.Calendar

def isLeap (year : Nat) : Bool := year % 4 == 0 && (year % 100 != 0 || year % 400 == 0)

def yearLength (year : Nat) : Nat := if isLeap year then 366 else 365

def monthLength (year : Nat) : Nat → Nat
  | 1 | 3 | 5 | 7 | 8 | 10 | 12 => 31
  | 4 | 6 | 9 | 11 => 30
  | 2 => if isLeap year then 29 else 28
  | _ => 0

def daysBeforeYear : Nat → Nat
  | 0 => 0
  | year + 1 => daysBeforeYear year + yearLength year

def daysBeforeMonth (year : Nat) : Nat → Nat
  | 0 => 0
  | month + 1 => daysBeforeMonth year month + monthLength year month

/-- The days between the first of January of year 0 and this date. -/
def dayNumber (year month day : Nat) : Nat :=
  daysBeforeYear year + daysBeforeMonth year month + (day - 1)

/-- The month has this day in this year. -/
def HasDay (year month day : Nat) : Prop := 1 ≤ day ∧ day ≤ monthLength year month

instance (year month day : Nat) : Decidable (HasDay year month day) :=
  inferInstanceAs (Decidable (_ ∧ _))

/-! ## Dates are numbered in their order -/

theorem month_bounds {year month day : Nat} (real : HasDay year month day) :
    1 ≤ month ∧ month ≤ 12 := by
  obtain ⟨first, last⟩ := real
  unfold monthLength at last
  split at last <;> omega

theorem daysBeforeYear_mono {left right : Nat} (ordered : left ≤ right) :
    daysBeforeYear left ≤ daysBeforeYear right := by
  induction ordered with
  | refl => exact Nat.le_refl _
  | step _ ih => exact Nat.le_trans ih (Nat.le_add_right _ _)

theorem daysBeforeMonth_mono {year left right : Nat} (ordered : left ≤ right) :
    daysBeforeMonth year left ≤ daysBeforeMonth year right := by
  induction ordered with
  | refl => exact Nat.le_refl _
  | step _ ih => exact Nat.le_trans ih (Nat.le_add_right _ _)

/-- The twelve months make up the year. -/
theorem daysBeforeMonth_thirteen (year : Nat) : daysBeforeMonth year 13 = yearLength year := by
  simp only [daysBeforeMonth, monthLength, yearLength]
  split <;> rfl

theorem dayNumber_lt_of_year {left month day right : Nat} (real : HasDay left month day)
    (earlier : left < right) (otherMonth otherDay : Nat) :
    dayNumber left month day < dayNumber right otherMonth otherDay := by
  have inside : daysBeforeMonth left (month + 1) ≤ yearLength left := by
    rw [← daysBeforeMonth_thirteen]
    exact daysBeforeMonth_mono (Nat.succ_le_succ (month_bounds real).2)
  have years : daysBeforeYear (left + 1) ≤ daysBeforeYear right := daysBeforeYear_mono earlier
  obtain ⟨first, last⟩ := real
  simp only [daysBeforeMonth, daysBeforeYear] at inside years
  simp only [dayNumber]
  omega

theorem dayNumber_lt_of_month {year left day right : Nat} (real : HasDay year left day)
    (earlier : left < right) (otherDay : Nat) :
    dayNumber year left day < dayNumber year right otherDay := by
  have months : daysBeforeMonth year (left + 1) ≤ daysBeforeMonth year right :=
    daysBeforeMonth_mono earlier
  obtain ⟨first, last⟩ := real
  simp only [daysBeforeMonth] at months
  simp only [dayNumber]
  omega

def Precedes (year month day otherYear otherMonth otherDay : Nat) : Prop :=
  year < otherYear ∨ year = otherYear ∧ (month < otherMonth ∨ month = otherMonth ∧ day < otherDay)

theorem dayNumber_lt_of_precedes {year month day otherYear otherMonth otherDay : Nat}
    (real : HasDay year month day) (otherReal : HasDay otherYear otherMonth otherDay)
    (precedes : Precedes year month day otherYear otherMonth otherDay) :
    dayNumber year month day < dayNumber otherYear otherMonth otherDay := by
  rcases precedes with earlier | ⟨rfl, earlier | ⟨rfl, earlier⟩⟩
  · exact dayNumber_lt_of_year real earlier _ _
  · exact dayNumber_lt_of_month real earlier _
  · have first := real.1
    simp only [dayNumber]
    omega

theorem dayNumber_lt_iff {year month day otherYear otherMonth otherDay : Nat}
    (real : HasDay year month day) (otherReal : HasDay otherYear otherMonth otherDay) :
    dayNumber year month day < dayNumber otherYear otherMonth otherDay ↔
      Precedes year month day otherYear otherMonth otherDay := by
  constructor
  · intro less
    by_contra notBefore
    by_cases same : year = otherYear ∧ month = otherMonth ∧ day = otherDay
    · obtain ⟨rfl, rfl, rfl⟩ := same
      exact Nat.lt_irrefl _ less
    · have after : Precedes otherYear otherMonth otherDay year month day := by
        unfold Precedes at notBefore ⊢
        omega
      exact Nat.lt_asymm less (dayNumber_lt_of_precedes otherReal real after)
  · exact dayNumber_lt_of_precedes real otherReal

/-- A number belongs to one date only. -/
theorem dayNumber_eq_iff {year month day otherYear otherMonth otherDay : Nat}
    (real : HasDay year month day) (otherReal : HasDay otherYear otherMonth otherDay) :
    dayNumber year month day = dayNumber otherYear otherMonth otherDay ↔
      year = otherYear ∧ month = otherMonth ∧ day = otherDay := by
  have before := dayNumber_lt_iff real otherReal
  have after := dayNumber_lt_iff otherReal real
  unfold Precedes at before after
  constructor
  · intro same
    omega
  · intro same
    obtain ⟨rfl, rfl, rfl⟩ := same
    rfl

/-! ## Years that begin in March -/

def marchStart (year : Nat) : Nat := 365 * year + year / 4 - year / 100 + year / 400

/-- A leap year in terms of the days that the calendar adds and drops. -/
private theorem yearLength_eq (year : Nat) :
    yearLength year + (if 100 ∣ year then 1 else 0) =
      365 + (if 4 ∣ year then 1 else 0) + (if 400 ∣ year then 1 else 0) := by
  have hundred : 100 ∣ year → 4 ∣ year := Nat.dvd_trans (by decide)
  have fourHundred : 400 ∣ year → 100 ∣ year := Nat.dvd_trans (by decide)
  have leap : isLeap year = true ↔ 4 ∣ year ∧ (¬100 ∣ year ∨ 400 ∣ year) := by
    simp [isLeap, Nat.dvd_iff_mod_eq_zero]
  simp only [yearLength, leap]
  split_ifs <;> first | rfl | tauto

theorem marchStart_succ (year : Nat) :
    marchStart (year + 1) = marchStart year + yearLength (year + 1) := by
  have length := yearLength_eq (year + 1)
  have dropped : (if 100 ∣ year + 1 then 1 else 0) ≤ 1 := by split <;> omega
  simp only [marchStart, Nat.succ_div]
  generalize (if 4 ∣ year + 1 then 1 else 0) = four at length ⊢
  generalize (if 400 ∣ year + 1 then 1 else 0) = fourHundred at length ⊢
  generalize (if 100 ∣ year + 1 then 1 else 0) = hundred at length dropped ⊢
  omega

theorem daysBeforeYear_succ (year : Nat) : daysBeforeYear (year + 1) = marchStart year + 366 := by
  induction year with
  | zero => rfl
  | succ year ih => rw [daysBeforeYear, ih, marchStart_succ]; omega

/-- The first of March comes after January and February. -/
theorem dayNumber_march (year : Nat) : dayNumber year 3 1 = marchStart year + 60 := by
  cases year with
  | zero => rfl
  | succ year =>
      simp only [dayNumber, daysBeforeYear_succ, marchStart_succ, daysBeforeMonth, monthLength,
        yearLength]
      split <;> omega

theorem marchStart_era (year eras : Nat) :
    marchStart (year + eras * 400) = marchStart year + eras * 146097 := by
  unfold marchStart
  omega

theorem exists_marchYear {day bound : Nat} (inside : day < marchStart bound) :
    ∃ year < bound, marchStart year ≤ day ∧ day < marchStart (year + 1) := by
  induction bound with
  | zero => exact absurd inside (Nat.not_lt_zero _)
  | succ bound ih =>
      by_cases before : day < marchStart bound
      · obtain ⟨year, small, found⟩ := ih before
        exact ⟨year, Nat.lt_succ_of_lt small, found⟩
      · exact ⟨bound, Nat.lt_succ_self bound, Nat.le_of_not_lt before, inside⟩

theorem dayNumber_after_march {year month day : Nat} (late : 3 ≤ month) (first : 1 ≤ day) :
    dayNumber year month day =
      marchStart year + 60 + (daysBeforeMonth year month - daysBeforeMonth year 3) + (day - 1) := by
  have march := dayNumber_march year
  have months : daysBeforeMonth year 3 ≤ daysBeforeMonth year month := daysBeforeMonth_mono late
  simp only [dayNumber] at march ⊢
  omega

theorem marchMonth_offset (year : Nat) {month : Nat} (early : month < 10) :
    daysBeforeMonth year (month + 3) = daysBeforeMonth year 3 + (153 * month + 2) / 5 := by
  interval_cases month <;> simp only [daysBeforeMonth, monthLength]
  omega

theorem date_of_marchDay {year dayOfYear month : Nat}
    (inside : dayOfYear < yearLength (year + 1)) (named : month = (5 * dayOfYear + 2) / 153) :
    (month < 10 →
      HasDay year (month + 3) (dayOfYear - (153 * month + 2) / 5 + 1) ∧
      dayNumber year (month + 3) (dayOfYear - (153 * month + 2) / 5 + 1) =
        marchStart year + 60 + dayOfYear) ∧
    (10 ≤ month →
      (month - 9 = 1 ∨ month - 9 = 2) ∧
      HasDay (year + 1) (month - 9) (dayOfYear - (153 * month + 2) / 5 + 1) ∧
      dayNumber (year + 1) (month - 9) (dayOfYear - (153 * month + 2) / 5 + 1) =
        marchStart year + 60 + dayOfYear) := by
  have length : yearLength (year + 1) ≤ 366 := by
    unfold yearLength
    split <;> omega
  constructor
  · intro early
    have long : (153 * month + 2) / 5 ≤ dayOfYear ∧
        dayOfYear - (153 * month + 2) / 5 < monthLength year (month + 3) := by
      interval_cases month <;> simp only [monthLength] <;> omega
    refine ⟨⟨by omega, by omega⟩, ?_⟩
    rw [dayNumber_after_march (by omega) (by omega), marchMonth_offset year early]
    omega
  · intro late
    have small : month < 12 := by omega
    interval_cases month
    · refine ⟨.inl rfl, ⟨by omega, ?_⟩, ?_⟩
      · simp only [monthLength]
        omega
      · simp only [dayNumber, daysBeforeYear_succ, daysBeforeMonth, monthLength]
        omega
    · refine ⟨.inr rfl, ⟨by omega, ?_⟩, ?_⟩
      · simp only [monthLength]
        unfold yearLength at inside
        cases leap : isLeap (year + 1) with
        | true => rw [leap, if_pos rfl] at inside; rw [if_pos rfl]; omega
        | false =>
            rw [leap, if_neg Bool.false_ne_true] at inside
            rw [if_neg Bool.false_ne_true]
            omega
      · simp only [dayNumber, daysBeforeYear_succ, daysBeforeMonth, monthLength]
        omega

end Kvist.Calendar
