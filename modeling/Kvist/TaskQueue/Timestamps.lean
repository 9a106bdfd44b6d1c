import Kvist.Calendar
import Kvist.TaskQueue.Validation
import Mathlib.Data.String.Basic

/-!
# Instants as texts

How the queue writes a time: seconds since the first of January of 1970 as a date of the
proleptic Gregorian calendar and a time of day.
-/

set_option autoImplicit false

namespace Kvist.Queue

/-- `civil_date_from_days`: the year, the month and the day. -/
def civilDateFromDays (daysSinceEpoch : Nat) : Nat × Nat × Nat :=
  let days := daysSinceEpoch + 719468
  let era := days / 146097
  let dayOfEra := days % 146097
  let yearOfEra := (dayOfEra - dayOfEra / 1460 + dayOfEra / 36524 - dayOfEra / 146096) / 365
  let year := yearOfEra + era * 400
  let dayOfYear := dayOfEra - (365 * yearOfEra + yearOfEra / 4 - yearOfEra / 100)
  let monthPrime := (5 * dayOfYear + 2) / 153
  let day := dayOfYear - (153 * monthPrime + 2) / 5 + 1
  let month := if monthPrime < 10 then monthPrime + 3 else monthPrime - 9
  (if month ≤ 2 then year + 1 else year, month, day)

/-- `{value:04}` and `{value:02}`: decimal digits after as many zeros as the width asks for. -/
def zeroPadded (width value : Nat) : List Char :=
  let digits := Nat.toDigits 10 value
  List.replicate (width - digits.length) '0' ++ digits

/-- The pieces of an instant with the separators between them. -/
def instantText (year month day hour minute second : List Char) : List Char :=
  year ++ '-' :: (month ++ '-' :: (day ++ 'T' :: (hour ++ ':' :: (minute ++ ':' ::
    (second ++ ['Z'])))))

/-- `unix_seconds_to_rfc3339`. -/
def unixSecondsToRfc3339 (seconds : Nat) : String :=
  let daySeconds := 24 * 60 * 60
  let days := seconds / daySeconds
  let time := seconds % daySeconds
  let date := civilDateFromDays days
  String.ofList (instantText (zeroPadded 4 date.1) (zeroPadded 2 date.2.1) (zeroPadded 2 date.2.2)
    (zeroPadded 2 (time / 3600)) (zeroPadded 2 (time % 3600 / 60)) (zeroPadded 2 (time % 60)))

example : unixSecondsToRfc3339 951826394 = "2000-02-29T12:13:14Z" := by decide

end Kvist.Queue

/-! ## Instants in the order of time

A time that is written as a text is a valid instant and denotes that time, and valid instants
compare as texts the way their times do.
-/

namespace Kvist.Queue

open Calendar

/-! ## Dates from days -/

private def shifted (day : Nat) : Nat := day - day / 1460 + day / 36524 - day / 146096

private theorem shifted_mono {left right : Nat} (ordered : left ≤ right) (inside : right < 146097) :
    shifted left ≤ shifted right := by
  induction ordered with
  | refl => exact Nat.le_refl _
  | @step middle _ ih =>
      have next : shifted middle ≤ shifted (middle + 1) := by
        unfold shifted
        omega
      exact Nat.le_trans (ih (by omega)) next

/-- The first and the last day of every year of an era. -/
private theorem shifted_ends : ∀ year < 400,
    shifted (marchStart year) / 365 = year ∧ shifted (marchStart (year + 1) - 1) / 365 = year := by
  decide +kernel

private theorem yearOfEra_spec {dayOfEra : Nat} (inside : dayOfEra < 146097) :
    shifted dayOfEra / 365 < 400 ∧ marchStart (shifted dayOfEra / 365) ≤ dayOfEra ∧
      dayOfEra < marchStart (shifted dayOfEra / 365 + 1) := by
  obtain ⟨year, small, first, last⟩ := @exists_marchYear dayOfEra 400 inside
  obtain ⟨lower, upper⟩ := shifted_ends year small
  have era : marchStart (year + 1) ≤ 146097 := by
    unfold marchStart
    omega
  have above := Nat.div_le_div_right (c := 365) (shifted_mono first inside)
  have below := Nat.div_le_div_right (c := 365)
    (shifted_mono (Nat.le_sub_one_of_lt last) (by omega))
  have found : shifted dayOfEra / 365 = year := by omega
  rw [found]
  exact ⟨small, first, last⟩

private def marchDate (year dayOfYear : Nat) : Nat × Nat × Nat :=
  let monthPrime := (5 * dayOfYear + 2) / 153
  let month := if monthPrime < 10 then monthPrime + 3 else monthPrime - 9
  (if month ≤ 2 then year + 1 else year, month, dayOfYear - (153 * monthPrime + 2) / 5 + 1)

private theorem marchDate_spec {year dayOfYear : Nat} (inside : dayOfYear < yearLength (year + 1)) :
    HasDay (marchDate year dayOfYear).1 (marchDate year dayOfYear).2.1
        (marchDate year dayOfYear).2.2 ∧
      dayNumber (marchDate year dayOfYear).1 (marchDate year dayOfYear).2.1
        (marchDate year dayOfYear).2.2 = marchStart year + 60 + dayOfYear := by
  obtain ⟨fromMarch, untilMarch⟩ := date_of_marchDay inside rfl
  simp only [marchDate]
  by_cases early : (5 * dayOfYear + 2) / 153 < 10
  · have late : ¬(5 * dayOfYear + 2) / 153 + 3 ≤ 2 := by omega
    simp only [if_pos early, if_neg late]
    exact fromMarch early
  · obtain ⟨month, found⟩ := untilMarch (Nat.le_of_not_lt early)
    have first : (5 * dayOfYear + 2) / 153 - 9 ≤ 2 := by omega
    simp only [if_neg early, if_pos first]
    exact found

private theorem civilDateFromDays_eq (days : Nat) :
    civilDateFromDays days =
      marchDate (shifted ((days + 719468) % 146097) / 365 + (days + 719468) / 146097 * 400)
        ((days + 719468) % 146097 -
          (365 * (shifted ((days + 719468) % 146097) / 365) +
            shifted ((days + 719468) % 146097) / 365 / 4 -
            shifted ((days + 719468) % 146097) / 365 / 100)) := rfl

theorem civilDateFromDays_spec (days : Nat) :
    HasDay (civilDateFromDays days).1 (civilDateFromDays days).2.1 (civilDateFromDays days).2.2 ∧
      dayNumber (civilDateFromDays days).1 (civilDateFromDays days).2.1
        (civilDateFromDays days).2.2 = days + dayNumber 1970 1 1 := by
  have epoch : dayNumber 1970 1 1 = 719528 := by
    rw [dayNumber, daysBeforeYear_succ]
    rfl
  have dayInside : (days + 719468) % 146097 < 146097 := Nat.mod_lt _ (by decide)
  obtain ⟨small, first, last⟩ := yearOfEra_spec dayInside
  have split := Nat.div_add_mod' (days + 719468) 146097
  rw [civilDateFromDays_eq, epoch]
  generalize (days + 719468) / 146097 = era at *
  generalize (days + 719468) % 146097 = dayOfEra at *
  generalize shifted dayOfEra / 365 = yearOfEra at *
  have start : marchStart yearOfEra = 365 * yearOfEra + yearOfEra / 4 - yearOfEra / 100 := by
    unfold marchStart
    omega
  have ends := marchStart_succ (yearOfEra + era * 400)
  rw [Nat.add_right_comm, marchStart_era, marchStart_era] at ends
  rw [← start]
  have dayOfYear : dayOfEra - marchStart yearOfEra < yearLength (yearOfEra + era * 400 + 1) := by
    rw [Nat.add_right_comm]
    omega
  obtain ⟨real, number⟩ := marchDate_spec dayOfYear
  refine ⟨real, ?_⟩
  rw [number, marchStart_era]
  omega

/-! ## Mixed radices -/

theorem radix_lt_iff {radix high low otherHigh otherLow : Nat} (small : low < radix)
    (otherSmall : otherLow < radix) :
    high * radix + low < otherHigh * radix + otherLow ↔
      high < otherHigh ∨ high = otherHigh ∧ low < otherLow := by
  rcases Nat.lt_trichotomy high otherHigh with less | rfl | more
  · have gap : (high + 1) * radix ≤ otherHigh * radix := Nat.mul_le_mul_right _ less
    rw [Nat.add_mul] at gap
    omega
  · omega
  · have gap : (otherHigh + 1) * radix ≤ high * radix := Nat.mul_le_mul_right _ more
    rw [Nat.add_mul] at gap
    omega

theorem radix_eq_iff {radix high low otherHigh otherLow : Nat} (small : low < radix)
    (otherSmall : otherLow < radix) :
    high * radix + low = otherHigh * radix + otherLow ↔ high = otherHigh ∧ low = otherLow := by
  have below := @radix_lt_iff radix high low otherHigh otherLow small otherSmall
  have above := @radix_lt_iff radix otherHigh otherLow high low otherSmall small
  omega

/-! ## Digits -/

def Digits (length : Nat) (text : List Char) : Prop :=
  text.length = length ∧ ∀ character ∈ text, isAsciiDigit character = true

private theorem decimal_eq (text : List Char) : decimal text = Nat.ofDigitChars 10 text 0 := by
  rw [Nat.ofDigitChars_eq_foldl, decimal]
  simp only [Nat.mul_comm]

private theorem decimal_cons (first : Char) (rest : List Char) :
    decimal (first :: rest) = (first.toNat - '0'.toNat) * 10 ^ rest.length + decimal rest := by
  rw [decimal_eq, decimal_eq, Nat.ofDigitChars_cons, Nat.ofDigitChars_eq_ofDigitChars_zero,
    Nat.mul_zero, Nat.zero_add, Nat.mul_comm]

private theorem Digits.tail {length : Nat} {first : Char} {rest : List Char}
    (digits : Digits length (first :: rest)) : Digits rest.length rest :=
  ⟨rfl, fun character member => digits.2 character (List.mem_cons_of_mem _ member)⟩

theorem Digits.decimal_lt {length : Nat} {text : List Char} (digits : Digits length text) :
    decimal text < 10 ^ length := by
  induction text generalizing length with
  | nil =>
      obtain ⟨rfl, -⟩ := digits
      decide
  | cons first rest ih =>
      have small := ih digits.tail
      have bounds := digit_bounds (digits.2 first List.mem_cons_self)
      obtain ⟨rfl, -⟩ := digits
      rw [decimal_cons, List.length_cons, pow_succ]
      have nine : (first.toNat - '0'.toNat) * 10 ^ rest.length ≤ 9 * 10 ^ rest.length :=
        Nat.mul_le_mul_right _ (Nat.sub_le_iff_le_add.mpr bounds.2)
      omega

/-- Digits compare as texts the way their numbers do. -/
theorem Digits.lt_iff {length : Nat} {left right : List Char} (digits : Digits length left)
    (otherDigits : Digits length right) :
    (left < right ↔ decimal left < decimal right) ∧
      (left = right ↔ decimal left = decimal right) := by
  induction left generalizing length right with
  | nil =>
      obtain ⟨rfl, -⟩ := digits
      obtain rfl := List.eq_nil_of_length_eq_zero otherDigits.1
      simp
  | cons first rest ih =>
      cases right with
      | nil =>
          have := digits.1.trans otherDigits.1.symm
          cases this
      | cons other others =>
          have same : others.length = rest.length := by
            have := digits.1.trans otherDigits.1.symm
            simpa using this.symm
          have tail : Digits rest.length others := ⟨same, otherDigits.tail.2⟩
          obtain ⟨less, equal⟩ := ih digits.tail tail
          have small := digits.tail.decimal_lt
          have otherSmall := tail.decimal_lt
          have bounds := digit_bounds (digits.2 first List.mem_cons_self)
          have otherBounds := digit_bounds (otherDigits.2 other List.mem_cons_self)
          have firstLess : first < other ↔
              first.toNat - '0'.toNat < other.toNat - '0'.toNat := by
            have codes : first < other ↔ first.toNat < other.toNat := Iff.rfl
            rw [codes]
            omega
          have firstEqual : first = other ↔
              first.toNat - '0'.toNat = other.toNat - '0'.toNat := by
            rw [← Char.toNat_inj]
            omega
          rw [decimal_cons, decimal_cons, same, List.cons_lt_cons_iff, List.cons.injEq, less, equal,
            firstLess, firstEqual, radix_lt_iff small otherSmall, radix_eq_iff small otherSmall]
          exact ⟨Iff.rfl, Iff.rfl⟩

theorem zeroPadded_digits {width value : Nat} (positive : 0 < width) (small : value < 10 ^ width) :
    Digits width (zeroPadded width value) ∧ decimal (zeroPadded width value) = value := by
  have length : (Nat.toDigits 10 value).length ≤ width :=
    (Nat.length_toDigits_le_iff (by decide) positive).mpr small
  refine ⟨⟨?_, ?_⟩, ?_⟩
  · simp only [zeroPadded, List.length_append, List.length_replicate]
    omega
  · intro character member
    rcases List.mem_append.mp member with zero | digit
    · rw [(List.mem_replicate.mp zero).2]
      rfl
    · have found := Nat.isDigit_of_mem_toDigits (by decide) (by decide) digit
      have codes : 48 ≤ character.val ∧ character.val ≤ 57 := by simpa [Char.isDigit] using found
      rw [isAsciiDigit, Bool.and_eq_true, decide_eq_true_eq, decide_eq_true_eq]
      exact codes
  · rw [decimal_eq, zeroPadded, Nat.ofDigitChars_append, Nat.ofDigitChars_replicate_zero,
      Nat.mul_zero, Nat.ofDigitChars_ten_toDigits]

/-! ## The pieces of an instant -/

/-- The digits of an instant between its separators. -/
structure InstantDigits where
  year : List Char
  month : List Char
  day : List Char
  hour : List Char
  minute : List Char
  second : List Char
  yearDigits : Digits 4 year
  monthDigits : Digits 2 month
  dayDigits : Digits 2 day
  hourDigits : Digits 2 hour
  minuteDigits : Digits 2 minute
  secondDigits : Digits 2 second

namespace InstantDigits

variable (digits other : InstantDigits)

def text : List Char :=
  instantText digits.year digits.month digits.day digits.hour digits.minute digits.second

/-- The seconds since the first of January of year 0. -/
def seconds : Nat :=
  ((dayNumber (decimal digits.year) (decimal digits.month) (decimal digits.day) * 24 +
    decimal digits.hour) * 60 + decimal digits.minute) * 60 + decimal digits.second

/-- There is such a date, and such a time of day. -/
structure Real : Prop where
  hasDay : HasDay (decimal digits.year) (decimal digits.month) (decimal digits.day)
  hour : decimal digits.hour ≤ 23
  minute : decimal digits.minute ≤ 59
  second : decimal digits.second ≤ 59

private theorem append_lt_append_iff {left right : List Char} (same : left.length = right.length)
    (leftRest rightRest : List Char) :
    left ++ leftRest < right ++ rightRest ↔ left < right ∨ left = right ∧ leftRest < rightRest := by
  induction left generalizing right with
  | nil =>
      obtain rfl := List.eq_nil_of_length_eq_zero same.symm
      simp
  | cons first rest ih =>
      cases right with
      | nil => cases same
      | cons other others =>
          rw [List.cons_append, List.cons_append, List.cons_lt_cons_iff, List.cons_lt_cons_iff,
            List.cons.injEq, ih (Nat.succ.inj same)]
          tauto

/-- Behind digits, texts compare by the digits first. -/
private theorem append_lt_iff {length : Nat} {left right : List Char} (leftDigits : Digits length left)
    (rightDigits : Digits length right) (separator : Char) (leftRest rightRest : List Char) :
    left ++ separator :: leftRest < right ++ separator :: rightRest ↔
      decimal left < decimal right ∨ decimal left = decimal right ∧ leftRest < rightRest := by
  obtain ⟨less, equal⟩ := leftDigits.lt_iff rightDigits
  rw [append_lt_append_iff (leftDigits.1.trans rightDigits.1.symm), less, equal,
    List.cons_lt_cons_iff]
  simp only [Char.lt_irrefl, true_and, false_or]

/-- Instants compare as texts the way their times do. -/
theorem text_lt_iff (real : digits.Real) (otherReal : other.Real) :
    digits.text < other.text ↔ digits.seconds < other.seconds := by
  have hours := real.hour
  have minutes := real.minute
  have seconds := real.second
  have otherHours := otherReal.hour
  have otherMinutes := otherReal.minute
  have otherSeconds := otherReal.second
  unfold text instantText InstantDigits.seconds
  rw [append_lt_iff digits.yearDigits other.yearDigits,
    append_lt_iff digits.monthDigits other.monthDigits,
    append_lt_iff digits.dayDigits other.dayDigits,
    append_lt_iff digits.hourDigits other.hourDigits,
    append_lt_iff digits.minuteDigits other.minuteDigits,
    append_lt_iff digits.secondDigits other.secondDigits,
    radix_lt_iff (by omega) (by omega), radix_lt_iff (by omega) (by omega),
    radix_lt_iff (by omega) (by omega), dayNumber_lt_iff real.hasDay otherReal.hasDay]
  simp only [radix_eq_iff (Nat.lt_succ_of_le hours) (Nat.lt_succ_of_le otherHours),
    radix_eq_iff (Nat.lt_succ_of_le minutes) (Nat.lt_succ_of_le otherMinutes),
    dayNumber_eq_iff real.hasDay otherReal.hasDay, Precedes, List.not_lt_nil, and_false, or_false,
    and_or_left, and_assoc, or_assoc]

/-- The validation reads these digits. -/
theorem fields :
    field digits.text 0 4 = decimal digits.year ∧ field digits.text 5 7 = decimal digits.month ∧
      field digits.text 8 10 = decimal digits.day ∧ field digits.text 11 13 = decimal digits.hour ∧
      field digits.text 14 16 = decimal digits.minute ∧
      field digits.text 17 19 = decimal digits.second := by
  obtain ⟨year, month, day, hour, minute, second, ⟨yearLength, -⟩, ⟨monthLength, -⟩, ⟨dayLength, -⟩,
    ⟨hourLength, -⟩, ⟨minuteLength, -⟩, ⟨secondLength, -⟩⟩ := digits
  obtain ⟨_, _, _, _, rfl⟩ := List.length_eq_four.mp yearLength
  obtain ⟨_, _, rfl⟩ := List.length_eq_two.mp monthLength
  obtain ⟨_, _, rfl⟩ := List.length_eq_two.mp dayLength
  obtain ⟨_, _, rfl⟩ := List.length_eq_two.mp hourLength
  obtain ⟨_, _, rfl⟩ := List.length_eq_two.mp minuteLength
  obtain ⟨_, _, rfl⟩ := List.length_eq_two.mp secondLength
  exact ⟨rfl, rfl, rfl, rfl, rfl, rfl⟩

theorem hasInstantLayout_text : hasInstantLayout digits.text = true := by
  obtain ⟨year, month, day, hour, minute, second, yearDigits, monthDigits, dayDigits, hourDigits,
    minuteDigits, secondDigits⟩ := digits
  obtain ⟨_, _, _, _, rfl⟩ := List.length_eq_four.mp yearDigits.1
  obtain ⟨_, _, rfl⟩ := List.length_eq_two.mp monthDigits.1
  obtain ⟨_, _, rfl⟩ := List.length_eq_two.mp dayDigits.1
  obtain ⟨_, _, rfl⟩ := List.length_eq_two.mp hourDigits.1
  obtain ⟨_, _, rfl⟩ := List.length_eq_two.mp minuteDigits.1
  obtain ⟨_, _, rfl⟩ := List.length_eq_two.mp secondDigits.1
  have inYear := yearDigits.2
  have inMonth := monthDigits.2
  have inDay := dayDigits.2
  have inHour := hourDigits.2
  have inMinute := minuteDigits.2
  have inSecond := secondDigits.2
  simp only [List.forall_mem_cons, List.not_mem_nil, false_implies, implies_true, and_true]
    at inYear inMonth inDay inHour inMinute inSecond
  simp [hasInstantLayout, text, instantText, inYear, inMonth, inDay, inHour, inMinute, inSecond]

end InstantDigits

private theorem drop_of_getElem? {value : List Char} {position : Nat} {character : Char}
    (found : value[position]? = some character) :
    value.drop position = character :: value.drop (position + 1) := by
  obtain ⟨bound, rfl⟩ := List.getElem?_eq_some_iff.mp found
  exact List.drop_eq_getElem_cons bound

theorem exists_instantDigits {value : List Char} (layout : hasInstantLayout value = true) :
    ∃ digits : InstantDigits, value = digits.text := by
  simp only [hasInstantLayout, Bool.and_eq_true, beq_iff_eq] at layout
  obtain ⟨⟨⟨⟨⟨⟨⟨length, first⟩, second⟩, third⟩, fourth⟩, fifth⟩, last⟩, each⟩ := layout
  have piece (start count : Nat) (inside : start + count ≤ 20)
      (apart : ∀ offset < count, (start + offset) ∉ [4, 7, 10, 13, 16, 19]) :
      Digits count ((value.drop start).take count) := by
    constructor
    · rw [List.length_take, List.length_drop]
      omega
    · intro character member
      obtain ⟨offset, found⟩ := List.getElem?_of_mem member
      obtain ⟨bound, -⟩ := List.getElem?_eq_some_iff.mp found
      have small : offset < count := by
        rw [List.length_take] at bound
        omega
      rw [List.getElem?_take_of_lt small, List.getElem?_drop] at found
      have entry := List.all_eq_true.mp each (character, start + offset)
        (List.mk_mem_zipIdx_iff_getElem?.mpr found)
      simpa [apart offset small] using entry
  have split (start count stop : Nat) (ends : start + count = stop) :
      value.drop start = (value.drop start).take count ++ value.drop stop := by
    rw [← ends, ← List.drop_drop, List.take_append_drop]
  have ended : value.drop 20 = [] := List.drop_eq_nil_of_le (by omega)
  have pieces : value.drop 0 = instantText ((value.drop 0).take 4) ((value.drop 5).take 2)
      ((value.drop 8).take 2) ((value.drop 11).take 2) ((value.drop 14).take 2)
      ((value.drop 17).take 2) := by
    unfold instantText
    conv_lhs =>
      rw [split 0 4 4 rfl, drop_of_getElem? first, split 5 2 7 rfl, drop_of_getElem? second,
        split 8 2 10 rfl, drop_of_getElem? third, split 11 2 13 rfl, drop_of_getElem? fourth,
        split 14 2 16 rfl, drop_of_getElem? fifth, split 17 2 19 rfl, drop_of_getElem? last, ended]
  exact ⟨⟨_, _, _, _, _, _, piece 0 4 (by omega) (by decide), piece 5 2 (by omega) (by decide),
    piece 8 2 (by omega) (by decide), piece 11 2 (by omega) (by decide),
    piece 14 2 (by omega) (by decide), piece 17 2 (by omega) (by decide)⟩, pieces⟩

/-! ## Validation -/

theorem isLeapYear_eq (year : Nat) : isLeapYear year = isLeap year := by
  rw [Bool.eq_iff_iff]
  simp only [isLeapYear, isLeap, Bool.or_eq_true, Bool.and_eq_true, beq_iff_eq, bne_iff_ne]
  omega

/-- The days of a month that the validation knows are those of the calendar. -/
theorem daysInMonth_eq (year month : Nat) : daysInMonth year month = monthLength year month := by
  match month with
  | 2 =>
      have leap := isLeapYear_eq year
      exact congrArg (fun leap : Bool => if leap then 29 else 28) leap
  | 0 | 1 | 3 | 4 | 5 | 6 | 7 | 8 | 9 | 10 | 11 | 12 => rfl
  | _ + 13 => rfl

private theorem real_iff (year month day hour minute second : Nat) :
    (year != 0 && (1 ≤ month && month ≤ 12) && day != 0 && day ≤ daysInMonth year month &&
      hour ≤ 23 && minute ≤ 59 && second ≤ 59) = true ↔
      1 ≤ year ∧ HasDay year month day ∧ hour ≤ 23 ∧ minute ≤ 59 ∧ second ≤ 59 := by
  have months : HasDay year month day → 1 ≤ month ∧ month ≤ 12 := month_bounds
  simp only [Bool.and_eq_true, bne_iff_ne, decide_eq_true_eq, daysInMonth_eq]
  unfold HasDay at *
  omega

/-- Exactly the dates of the calendar from year 1 on are accepted, with a time of day. -/
theorem Timestamp.validate_ok_iff (timestamp : Timestamp) (name : String) :
    timestamp.validate name = .ok () ↔
      hasInstantLayout timestamp.value.toList = true ∧
      1 ≤ field timestamp.value.toList 0 4 ∧
      HasDay (field timestamp.value.toList 0 4) (field timestamp.value.toList 5 7)
        (field timestamp.value.toList 8 10) ∧
      field timestamp.value.toList 11 13 ≤ 23 ∧ field timestamp.value.toList 14 16 ≤ 59 ∧
      field timestamp.value.toList 17 19 ≤ 59 := by
  unfold Timestamp.validate
  rw [bind_unit_ok_iff, require, require, ensure_ok_iff, ensure_ok_iff, real_iff]

/-- The seconds between the first of January of year 0 and the instant. -/
def Timestamp.seconds (timestamp : Timestamp) : Nat :=
  let value := timestamp.value.toList
  ((dayNumber (field value 0 4) (field value 5 7) (field value 8 10) * 24 + field value 11 13) * 60 +
    field value 14 16) * 60 + field value 17 19

private theorem seconds_of_text {timestamp : Timestamp} {digits : InstantDigits}
    (written : timestamp.value.toList = digits.text) : timestamp.seconds = digits.seconds := by
  obtain ⟨year, month, day, hour, minute, second⟩ := digits.fields
  simp only [Timestamp.seconds, written, year, month, day, hour, minute, second,
    InstantDigits.seconds]

private theorem validate_text_iff {timestamp : Timestamp} {digits : InstantDigits}
    (written : timestamp.value.toList = digits.text) (name : String) :
    timestamp.validate name = .ok () ↔ 1 ≤ decimal digits.year ∧ digits.Real := by
  obtain ⟨year, month, day, hour, minute, second⟩ := digits.fields
  rw [Timestamp.validate_ok_iff, written, year, month, day, hour, minute, second]
  constructor
  · intro valid
    exact ⟨valid.2.1, valid.2.2.1, valid.2.2.2.1, valid.2.2.2.2.1, valid.2.2.2.2.2⟩
  · intro real
    obtain ⟨first, hasDay, hours, minutes, seconds⟩ := real
    exact ⟨digits.hasInstantLayout_text, first, hasDay, hours, minutes, seconds⟩

/-- Valid instants compare as texts the way their times do. -/
theorem Timestamp.before_iff {left right : Timestamp} {leftName rightName : String}
    (valid : left.validate leftName = .ok ()) (otherValid : right.validate rightName = .ok ()) :
    left.before right = true ↔ left.seconds < right.seconds := by
  obtain ⟨digits, written⟩ :=
    exists_instantDigits ((Timestamp.validate_ok_iff _ _).mp valid).1
  obtain ⟨otherDigits, otherWritten⟩ :=
    exists_instantDigits ((Timestamp.validate_ok_iff _ _).mp otherValid).1
  have real := ((validate_text_iff written _).mp valid).2
  have otherReal := ((validate_text_iff otherWritten _).mp otherValid).2
  rw [seconds_of_text written, seconds_of_text otherWritten,
    ← digits.text_lt_iff otherDigits real otherReal, Timestamp.before, decide_eq_true_eq,
    String.lt_iff_toList_lt, written, otherWritten]

/-! ## Written times -/

private theorem year_bounds {year month day seconds : Nat} (real : HasDay year month day)
    (number : dayNumber year month day = seconds / 86400 + dayNumber 1970 1 1)
    (inside : seconds < 253402300800) : 1 ≤ year ∧ year < 10000 := by
  have epoch : dayNumber 1970 1 1 = 719528 := by
    rw [dayNumber, daysBeforeYear_succ]
    rfl
  have last : daysBeforeYear 10000 = 3652425 := daysBeforeYear_succ 9999
  constructor
  · by_contra none
    obtain rfl : year = 0 := by omega
    have first := dayNumber_lt_of_year real (Nat.lt_succ_self 0) 1 1
    have next : dayNumber (Nat.succ 0) 1 1 = 366 := rfl
    omega
  · by_contra late
    have before : daysBeforeYear 10000 ≤ daysBeforeYear year :=
      daysBeforeYear_mono (Nat.le_of_not_lt late)
    unfold dayNumber at number epoch
    omega

/-- The digits that a time is written with. -/
private theorem unixSecondsToRfc3339_digits {seconds : Nat} (inside : seconds < 253402300800) :
    ∃ digits : InstantDigits, (unixSecondsToRfc3339 seconds).toList = digits.text ∧
      1 ≤ decimal digits.year ∧ digits.Real ∧
      digits.seconds = seconds + dayNumber 1970 1 1 * 86400 := by
  obtain ⟨real, number⟩ := civilDateFromDays_spec (seconds / 86400)
  have written : (unixSecondsToRfc3339 seconds).toList =
      instantText (zeroPadded 4 (civilDateFromDays (seconds / 86400)).1)
        (zeroPadded 2 (civilDateFromDays (seconds / 86400)).2.1)
        (zeroPadded 2 (civilDateFromDays (seconds / 86400)).2.2)
        (zeroPadded 2 (seconds % 86400 / 3600)) (zeroPadded 2 (seconds % 86400 % 3600 / 60))
        (zeroPadded 2 (seconds % 86400 % 60)) := String.toList_ofList
  generalize civilDateFromDays (seconds / 86400) = date at real number written
  obtain ⟨year, month, day⟩ := date
  dsimp only at real number written
  obtain ⟨first, last⟩ := year_bounds real number inside
  have months := month_bounds real
  have days : day ≤ 31 := by
    refine Nat.le_trans real.2 ?_
    unfold monthLength
    split <;> first | omega | (split <;> omega)
  obtain ⟨yearDigits, yearValue⟩ := @zeroPadded_digits 4 year (by decide) last
  have two {value : Nat} (small : value < 100) := @zeroPadded_digits 2 value (by decide) small
  obtain ⟨monthDigits, monthValue⟩ := @two month (by omega)
  obtain ⟨dayDigits, dayValue⟩ := @two day (by omega)
  obtain ⟨hourDigits, hourValue⟩ := @two (seconds % 86400 / 3600) (by omega)
  obtain ⟨minuteDigits, minuteValue⟩ := @two (seconds % 86400 % 3600 / 60) (by omega)
  obtain ⟨secondDigits, secondValue⟩ := @two (seconds % 86400 % 60) (by omega)
  refine ⟨⟨_, _, _, _, _, _, yearDigits, monthDigits, dayDigits, hourDigits, minuteDigits,
    secondDigits⟩, written, ?_, ⟨?_, ?_, ?_, ?_⟩, ?_⟩
  · rw [yearValue]
    exact first
  · simp only [yearValue, monthValue, dayValue]
    exact real
  · rw [hourValue]
    omega
  · rw [minuteValue]
    omega
  · rw [secondValue]
    omega
  · simp only [InstantDigits.seconds, yearValue, monthValue, dayValue, hourValue, minuteValue,
      secondValue, number]
    omega

private theorem defaultInstant_seconds :
    Timestamp.defaultInstant.seconds = dayNumber 1970 1 1 * 86400 := by
  have year : field Timestamp.defaultInstant.value.toList 0 4 = 1970 := by decide
  have rest : field Timestamp.defaultInstant.value.toList 5 7 = 1 ∧
      field Timestamp.defaultInstant.value.toList 8 10 = 1 ∧
      field Timestamp.defaultInstant.value.toList 11 13 = 0 ∧
      field Timestamp.defaultInstant.value.toList 14 16 = 0 ∧
      field Timestamp.defaultInstant.value.toList 17 19 = 0 := by decide
  obtain ⟨month, day, hour, minute, second⟩ := rest
  simp only [Timestamp.seconds, year, month, day, hour, minute, second]
  generalize dayNumber 1970 1 1 = epoch
  omega

theorem unixSecondsToRfc3339_valid {seconds : Nat} (inside : seconds < 253402300800)
    (name : String) :
    (Timestamp.mk (unixSecondsToRfc3339 seconds)).validate name = .ok () ∧
      (Timestamp.mk (unixSecondsToRfc3339 seconds)).seconds =
        seconds + Timestamp.defaultInstant.seconds := by
  obtain ⟨digits, written, first, real, value⟩ := unixSecondsToRfc3339_digits inside
  have denoted : (Timestamp.mk (unixSecondsToRfc3339 seconds)).seconds = digits.seconds :=
    seconds_of_text written
  refine ⟨(validate_text_iff written name).mpr ⟨first, real⟩, ?_⟩
  rw [denoted, value, defaultInstant_seconds]

/-- Times are written as valid instants that denote them, from days to dates and in the order of
time, and the validation knows the days of every month from year 1 on. -/
theorem unixSecondsToRfc3339_calendar :
    (∀ seconds < 253402300800, ∀ name,
      (Timestamp.mk (unixSecondsToRfc3339 seconds)).validate name = .ok () ∧
      (Timestamp.mk (unixSecondsToRfc3339 seconds)).seconds =
        seconds + Timestamp.defaultInstant.seconds) ∧
    (∀ days, HasDay (civilDateFromDays days).1 (civilDateFromDays days).2.1
        (civilDateFromDays days).2.2 ∧
      dayNumber (civilDateFromDays days).1 (civilDateFromDays days).2.1
        (civilDateFromDays days).2.2 = days + dayNumber 1970 1 1) ∧
    (∀ seconds < 253402300800, ∀ other < 253402300800,
      seconds < other ↔ unixSecondsToRfc3339 seconds < unixSecondsToRfc3339 other) ∧
    (∀ (left right : Timestamp) (leftName rightName : String), left.validate leftName = .ok () →
      right.validate rightName = .ok () →
      (left.before right = true ↔ left.seconds < right.seconds)) ∧
    ∀ (timestamp : Timestamp) (name : String), timestamp.validate name = .ok () ↔
      hasInstantLayout timestamp.value.toList = true ∧
      1 ≤ field timestamp.value.toList 0 4 ∧
      HasDay (field timestamp.value.toList 0 4) (field timestamp.value.toList 5 7)
        (field timestamp.value.toList 8 10) ∧
      field timestamp.value.toList 11 13 ≤ 23 ∧ field timestamp.value.toList 14 16 ≤ 59 ∧
      field timestamp.value.toList 17 19 ≤ 59 := by
  refine ⟨fun seconds inside => unixSecondsToRfc3339_valid inside, civilDateFromDays_spec, ?_,
    fun left right _ _ => Timestamp.before_iff, Timestamp.validate_ok_iff⟩
  intro seconds inside other otherInside
  obtain ⟨valid, denoted⟩ := unixSecondsToRfc3339_valid inside ""
  obtain ⟨otherValid, otherDenoted⟩ := unixSecondsToRfc3339_valid otherInside ""
  have before := Timestamp.before_iff valid otherValid
  rw [denoted, otherDenoted, Nat.add_lt_add_iff_right, Timestamp.before, decide_eq_true_eq]
    at before
  exact before.symm

/-- At the start of the leap day of 2000, and a second later. -/
theorem unixSecondsToRfc3339_calendar_leap :
    (∀ name, (Timestamp.mk (unixSecondsToRfc3339 951782400)).validate name = .ok ()) ∧
      unixSecondsToRfc3339 951782400 < unixSecondsToRfc3339 951782401 :=
  ⟨fun name => (unixSecondsToRfc3339_calendar.1 951782400 (by decide) name).1,
    (unixSecondsToRfc3339_calendar.2.2.1 951782400 (by decide) 951782401 (by decide)).mp
      (by decide)⟩

/-- January of year 0 has a first day, but no instant of that year is accepted. -/
theorem yearZero_refused :
    HasDay 0 1 1 ∧ hasInstantLayout "0000-01-01T00:00:00Z".toList = true ∧
      field "0000-01-01T00:00:00Z".toList 0 4 = 0 ∧ field "0000-01-01T00:00:00Z".toList 5 7 = 1 ∧
      field "0000-01-01T00:00:00Z".toList 8 10 = 1 ∧
      (Timestamp.mk "0000-01-01T00:00:00Z").validate "created_at" ≠ .ok () := by
  decide

end Kvist.Queue
