import Mathlib.Algebra.BigOperators.Group.List.Basic
import Mathlib.Algebra.Ring.Nat
import Timetable.Calendar.Date

/-!
# Dates and their day numbers

The dates that exist correspond one to one to the numbers below `dayCount`.
Years are laid end to end by `daysBeforeYear`, the months of a year by
`daysBeforeMonth`, and `Date.ofDayNumber` finds the year and then the month in
which a number lies.
-/

namespace Timetable.Calendar

/-! ## Years -/

/-- The number of days of a year. -/
def daysInYear (year : Nat) : Nat := if isLeapYear year then 366 else 365

theorem isLeapYear_iff (year : Nat) :
    isLeapYear year = true ↔ 4 ∣ year ∧ (¬ 100 ∣ year ∨ 400 ∣ year) := by
  simp [isLeapYear, Nat.dvd_iff_mod_eq_zero]

/-- A year begins where the year before it ends. -/
theorem daysBeforeYear_succ {year : Nat} (positive : 1 ≤ year) :
    daysBeforeYear (year + 1) =
      daysBeforeYear year + daysInYear year := by
  rcases Nat.exists_eq_add_of_le' positive with ⟨past, rfl⟩
  have centuryOfQuad : 400 ∣ past + 1 → 100 ∣ past + 1 :=
    Nat.dvd_trans (by decide)
  have fourthOfCentury : 100 ∣ past + 1 → 4 ∣ past + 1 :=
    Nat.dvd_trans (by decide)
  have fewer : past / 100 ≤ past / 4 :=
    Nat.div_le_div_left (by decide) (by decide)
  simp only [daysBeforeYear, daysInYear, isLeapYear_iff,
    Nat.add_sub_cancel, Nat.succ_div]
  generalize past / 4 = fourths at *
  generalize past / 100 = centuries at *
  by_cases quad : 400 ∣ past + 1
  · have century := centuryOfQuad quad
    have fourth := fourthOfCentury century
    simp only [quad, century, fourth, or_true, true_and, if_true]
    omega
  · by_cases century : 100 ∣ past + 1
    · have fourth := fourthOfCentury century
      simp only [quad, century, fourth, not_true, or_false, and_false,
        if_true, if_false]
      omega
    · by_cases fourth : 4 ∣ past + 1
      · simp only [quad, century, fourth, not_false_iff, true_or, true_and,
          if_true, if_false]
        omega
      · simp only [quad, century, fourth, false_and, if_false]
        omega

theorem daysBeforeYear_mono {earlier later : Nat}
    (positive : 1 ≤ earlier) (ordered : earlier ≤ later) :
    daysBeforeYear earlier ≤ daysBeforeYear later := by
  induction ordered with
  | refl => exact Nat.le_refl _
  | @step year reached induction =>
      rw [daysBeforeYear_succ (Nat.le_trans positive reached)]
      exact Nat.le_trans induction (Nat.le_add_right _ _)

/-- The days before a year whose number is split into cycles. -/
theorem daysBeforeYear_split (quads centuries cycles years : Nat)
    (fewCenturies : centuries ≤ 3) (fewCycles : cycles ≤ 24)
    (fewYears : years ≤ 3) :
    daysBeforeYear
        (400 * quads + 100 * centuries + 4 * cycles + years + 1) =
      146097 * quads + 36524 * centuries + 1461 * cycles +
        365 * years := by
  simp only [daysBeforeYear, Nat.add_sub_cancel]
  have fourths :
      (400 * quads + 100 * centuries + 4 * cycles + years) / 4 =
        100 * quads + 25 * centuries + cycles := by
    omega
  have hundredths :
      (400 * quads + 100 * centuries + 4 * cycles + years) / 100 =
        4 * quads + centuries := by
    omega
  have wholeQuads :
      (400 * quads + 100 * centuries + 4 * cycles + years) / 400 =
        quads := by
    omega
  rw [fourths, hundredths, wholeQuads]
  omega

/-- Leap are the last years of the cycles, but for three centuries of four. -/
theorem isLeapYear_split (quads centuries cycles years : Nat)
    (fewCenturies : centuries ≤ 3) (fewCycles : cycles ≤ 24)
    (fewYears : years ≤ 3) :
    isLeapYear
        (400 * quads + 100 * centuries + 4 * cycles + years + 1) = true ↔
      years = 3 ∧ (cycles < 24 ∨ centuries = 3) := by
  rw [isLeapYear_iff]
  omega

/-- A day number lies in its year, as many days after the beginning as said. -/
theorem yearOfDayNumber_spec (number : Nat) :
    1 ≤ (yearOfDayNumber number).1 ∧
      daysBeforeYear (yearOfDayNumber number).1 +
          (yearOfDayNumber number).2 = number ∧
        (yearOfDayNumber number).2 <
          daysInYear (yearOfDayNumber number).1 := by
  simp only [yearOfDayNumber]
  generalize quadsEq : number / 146097 = quads
  generalize inQuadEq : number % 146097 = inQuad
  generalize centuriesEq : min 3 (inQuad / 36524) = centuries
  generalize inCenturyEq : inQuad - 36524 * centuries = inCentury
  generalize cyclesEq : inCentury / 1461 = cycles
  generalize inCycleEq : inCentury % 1461 = inCycle
  generalize yearsEq : min 3 (inCycle / 365) = years
  have fewCenturies : centuries ≤ 3 := by omega
  have centuryBound :
      inCentury < 36524 ∨ (centuries = 3 ∧ inCentury = 36524) := by
    omega
  have fewCycles : cycles ≤ 24 := by omega
  have fewYears : years ≤ 3 := by omega
  refine ⟨by omega, ?_, ?_⟩
  · rw [daysBeforeYear_split quads centuries cycles years
      fewCenturies fewCycles fewYears]
    omega
  · simp only [daysInYear, isLeapYear_split quads centuries cycles years
      fewCenturies fewCycles fewYears]
    split <;> omega

/-- Only one year holds a day number. -/
theorem year_unique {year other rest otherRest : Nat}
    (positive : 1 ≤ year) (otherPositive : 1 ≤ other)
    (inside : rest < daysInYear year)
    (otherInside : otherRest < daysInYear other)
    (equal :
      daysBeforeYear year + rest = daysBeforeYear other + otherRest) :
    year = other ∧ rest = otherRest := by
  have notLess :
      ∀ {first second firstRest secondRest : Nat},
        1 ≤ first → firstRest < daysInYear first →
          daysBeforeYear first + firstRest =
            daysBeforeYear second + secondRest →
              second ≤ first := by
    intro first second firstRest secondRest firstPositive firstInside same
    by_contra less
    have later : first + 1 ≤ second := by omega
    have before := daysBeforeYear_mono (Nat.le_add_left 1 first) later
    rw [daysBeforeYear_succ firstPositive] at before
    omega
  have yearEqual : year = other :=
    Nat.le_antisymm (notLess otherPositive otherInside equal.symm)
      (notLess positive inside equal)
  subst yearEqual
  exact ⟨rfl, by omega⟩

/-! ## Months -/

theorem length_monthLengths (year : Nat) : (monthLengths year).length = 12 :=
  rfl

theorem sum_monthLengths (year : Nat) :
    (monthLengths year).sum = daysInYear year := by
  simp only [monthLengths, daysInYear]
  split <;> rfl

theorem daysBeforeMonth_eq (year month : Nat) :
    daysBeforeMonth year month =
      ((monthLengths year).take (month - 1)).sum :=
  List.sum_eq_foldl.symm

theorem daysInMonth_eq {year month length : Nat}
    (found : (monthLengths year)[month]? = some length) :
    daysInMonth year (month + 1) = length := by
  simp [daysInMonth, found]

/-- Walking along lengths stops inside one of them. -/
theorem walkMonths_spec (lengths : List Nat) (days : Nat)
    (inside : days < lengths.sum) :
    ∃ length,
      lengths[(walkMonths lengths days).1]? = some length ∧
        (walkMonths lengths days).2 < length ∧
          (lengths.take (walkMonths lengths days).1).sum +
            (walkMonths lengths days).2 = days := by
  induction lengths generalizing days with
  | nil => simp at inside
  | cons length rest induction =>
      by_cases within : days < length
      · exact ⟨length, by simp [walkMonths, within]⟩
      · have restInside : days - length < rest.sum := by
          rw [List.sum_cons] at inside
          omega
        rcases induction (days - length) restInside with
          ⟨found, member, bound, total⟩
        refine ⟨found, ?_, ?_, ?_⟩
        · simpa [walkMonths, within] using member
        · simpa [walkMonths, within] using bound
        · simp only [walkMonths, within, if_false, List.take_succ_cons,
            List.sum_cons]
          omega

/-- Walking along lengths finds the one in which a distance lies. -/
theorem walkMonths_of_inside (lengths : List Nat) {index length left : Nat}
    (found : lengths[index]? = some length) (inside : left < length) :
    walkMonths lengths ((lengths.take index).sum + left) =
      (index, left) := by
  induction lengths generalizing index with
  | nil => simp at found
  | cons first rest induction =>
      cases index with
      | zero =>
          simp only [List.getElem?_cons_zero, Option.some.injEq] at found
          subst found
          simp [walkMonths, inside]
      | succ index =>
          rw [List.getElem?_cons_succ] at found
          have past :
              ¬ first + (rest.take index).sum + left < first := by
            omega
          have remaining :
              first + (rest.take index).sum + left - first =
                (rest.take index).sum + left := by
            omega
          simp only [walkMonths, List.take_succ_cons, List.sum_cons, past,
            if_false, remaining, induction found]

/-! ## Dates -/

namespace Date

theorem ofDayNumber_eq (number : Nat) :
    ofDayNumber number =
      ⟨(yearOfDayNumber number).1,
        (walkMonths (monthLengths (yearOfDayNumber number).1)
          (yearOfDayNumber number).2).1 + 1,
        (walkMonths (monthLengths (yearOfDayNumber number).1)
          (yearOfDayNumber number).2).2 + 1⟩ := by
  simp only [ofDayNumber]

/-- The date of a day number is one of its year and has that number. -/
theorem ofDayNumber_spec (number : Nat) :
    1 ≤ (ofDayNumber number).year ∧
      1 ≤ (ofDayNumber number).month ∧ (ofDayNumber number).month ≤ 12 ∧
        1 ≤ (ofDayNumber number).day ∧
          (ofDayNumber number).day ≤
            daysInMonth (ofDayNumber number).year
              (ofDayNumber number).month ∧
          (ofDayNumber number).dayNumber = number := by
  rcases yearOfDayNumber_spec number with ⟨positive, total, inside⟩
  rw [← sum_monthLengths] at inside
  obtain ⟨length, found, bound, days⟩ :=
    walkMonths_spec (monthLengths (yearOfDayNumber number).1) _ inside
  have months :
      (walkMonths (monthLengths (yearOfDayNumber number).1)
        (yearOfDayNumber number).2).1 < 12 := by
    rw [← length_monthLengths (yearOfDayNumber number).1]
    exact (List.getElem?_eq_some_iff.mp found).1
  rw [ofDayNumber_eq]
  refine ⟨positive, Nat.le_add_left 1 _, months, Nat.le_add_left 1 _, ?_, ?_⟩
  · rw [daysInMonth_eq found]
    exact bound
  · simp only [dayNumber, daysBeforeMonth_eq, Nat.add_sub_cancel]
    omega

@[simp]
theorem dayNumber_ofDayNumber (number : Nat) :
    (ofDayNumber number).dayNumber = number :=
  (ofDayNumber_spec number).2.2.2.2.2

/-- The length of the month of a date that exists. -/
theorem Valid.monthLength {date : Date} (valid : date.Valid) :
    (monthLengths date.year)[date.month - 1]? =
      some (daysInMonth date.year date.month) := by
  have ⟨_, _, monthPositive, monthBound, _, _⟩ := valid
  rcases Nat.exists_eq_add_of_le' monthPositive with ⟨index, monthEq⟩
  have inside : index < (monthLengths date.year).length := by
    rw [length_monthLengths]
    omega
  rw [monthEq, Nat.add_sub_cancel, List.getElem?_eq_getElem inside,
    daysInMonth_eq (List.getElem?_eq_getElem inside)]

/-- The days of a date that exists, from the beginning of its year. -/
theorem Valid.daysInside {date : Date} (valid : date.Valid) :
    ((monthLengths date.year).take (date.month - 1)).sum + (date.day - 1) <
      daysInYear date.year := by
  have ⟨_, _, _, _, dayPositive, dayBound⟩ := valid
  rcases List.getElem?_eq_some_iff.mp valid.monthLength with
    ⟨inside, lengthEq⟩
  calc
    ((monthLengths date.year).take (date.month - 1)).sum + (date.day - 1) <
        ((monthLengths date.year).take (date.month - 1)).sum +
          daysInMonth date.year date.month := by omega
    _ = ((monthLengths date.year).take (date.month - 1 + 1)).sum := by
        rw [← lengthEq, List.sum_take_succ]
    _ ≤ (monthLengths date.year).sum := by
        rw [← List.sum_take_add_sum_drop (monthLengths date.year)
          (date.month - 1 + 1)]
        exact Nat.le_add_right _ _
    _ = daysInYear date.year := sum_monthLengths date.year

/-- A date that exists is found again from its day number. -/
theorem ofDayNumber_dayNumber {date : Date} (valid : date.Valid) :
    ofDayNumber date.dayNumber = date := by
  rcases yearOfDayNumber_spec date.dayNumber with ⟨positive, total, inside⟩
  have sameYear :
      (yearOfDayNumber date.dayNumber).1 = date.year ∧
        (yearOfDayNumber date.dayNumber).2 =
          ((monthLengths date.year).take (date.month - 1)).sum +
            (date.day - 1) := by
    apply year_unique positive valid.1 inside valid.daysInside
    rw [total, dayNumber, daysBeforeMonth_eq, Nat.add_assoc]
  have ⟨_, _, monthPositive, _, dayPositive, dayBound⟩ := valid
  have dayInside : date.day - 1 < daysInMonth date.year date.month := by
    omega
  rw [ofDayNumber_eq, sameYear.1, sameYear.2,
    walkMonths_of_inside (monthLengths date.year) valid.monthLength
      dayInside,
    Nat.sub_add_cancel monthPositive, Nat.sub_add_cancel dayPositive]

theorem daysBeforeYear_yearBound : daysBeforeYear yearBound = dayCount := by
  decide

/-- The calendar reaches every date that exists. -/
theorem Valid.dayNumber_lt {date : Date} (valid : date.Valid) :
    date.dayNumber < dayCount := by
  have inside := valid.daysInside
  have next : date.year + 1 ≤ yearBound := valid.2.1
  calc
    date.dayNumber < daysBeforeYear date.year + daysInYear date.year := by
        rw [dayNumber, daysBeforeMonth_eq]
        omega
    _ = daysBeforeYear (date.year + 1) :=
        (daysBeforeYear_succ valid.1).symm
    _ ≤ daysBeforeYear yearBound :=
        daysBeforeYear_mono (Nat.le_add_left 1 _) next
    _ = dayCount := daysBeforeYear_yearBound

theorem year_lt_of_dayNumber_lt {date : Date}
    (reached : date.dayNumber < dayCount) : date.year < yearBound := by
  by_contra tooLate
  have begun : daysBeforeYear yearBound ≤ daysBeforeYear date.year :=
    daysBeforeYear_mono (by decide) (Nat.le_of_not_lt tooLate)
  rw [daysBeforeYear_yearBound] at begun
  rw [dayNumber] at reached
  omega

/-- The day numbers that the calendar reaches are those of dates that exist. -/
theorem valid_ofDayNumber {number : Nat} (reached : number < dayCount) :
    (ofDayNumber number).Valid := by
  rcases ofDayNumber_spec number with
    ⟨year, monthPositive, monthBound, dayPositive, dayBound, equal⟩
  have inCalendar : (ofDayNumber number).dayNumber < dayCount := by
    rw [equal]
    exact reached
  exact ⟨year, year_lt_of_dayNumber_lt inCalendar, monthPositive, monthBound,
    dayPositive, dayBound⟩

end Date

end Timetable.Calendar
