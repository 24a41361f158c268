import Mathlib.Tactic.IntervalCases
import Timetable.Proofs.Calendar.Month

/-!
# Years and anniversaries

A year has 365 or 366 days, and of two consecutive years one has 365.  Every
date but 29 February stands in every year, and comes again after 366 days if a
29 February lies between, and after 365 days otherwise.  `exists_anniversary`
finds one in any stretch of 366 days.
-/

namespace Timetable.Calendar

/-! ## Dates in the order of their day numbers -/

theorem le_daysInYear (year : Nat) : 365 ≤ daysInYear year := by
  rw [daysInYear]
  split <;> omega

theorem daysInYear_le (year : Nat) : daysInYear year ≤ 366 := by
  rw [daysInYear]
  split <;> omega

theorem isLeapYear_of_lt {year : Nat} (long : 365 < daysInYear year) :
    isLeapYear year = true := by
  by_contra common
  rw [daysInYear, if_neg common] at long
  omega

/-- Two consecutive years are not both leap years. -/
theorem daysInYear_add_succ_le (year : Nat) :
    daysInYear year + daysInYear (year + 1) ≤ 731 := by
  simp only [daysInYear, isLeapYear_iff]
  split <;> split <;> omega

namespace Date

/-- A date lies in its year. -/
theorem Valid.inside_year {date : Date} (valid : date.Valid) :
    daysBeforeYear date.year ≤ date.dayNumber ∧
      date.dayNumber < daysBeforeYear date.year + daysInYear date.year := by
  have inside := valid.daysInside
  rw [dayNumber, daysBeforeMonth_eq]
  omega

theorem year_mono {earlier later : Date} (valid : earlier.Valid)
    (laterValid : later.Valid)
    (ordered : earlier.dayNumber ≤ later.dayNumber) :
    earlier.year ≤ later.year := by
  have months := monthNumber_mono valid laterValid ordered
  have ⟨_, _, _, bound, _, _⟩ := valid
  have ⟨_, _, _, laterBound, _, _⟩ := laterValid
  simp only [monthNumber] at months
  omega

end Date

/-! ## Leap days -/

/-- A date is a 29 February. -/
def Date.IsLeapDay (date : Date) : Prop :=
  date.month = 2 ∧ date.day = 29

instance (date : Date) : Decidable date.IsLeapDay :=
  inferInstanceAs (Decidable (_ ∧ _))

/-- No day from one number up to another is a 29 February. -/
def LeapFree (first last : Nat) : Prop :=
  ∀ number, first ≤ number → number < last →
    ¬ (Date.ofDayNumber number).IsLeapDay

theorem LeapFree.mono {first later last earlier : Nat}
    (free : LeapFree first last) (fromLater : first ≤ later)
    (toEarlier : earlier ≤ last) : LeapFree later earlier :=
  fun number begun ended =>
    free number (Nat.le_trans fromLater begun)
      (Nat.lt_of_lt_of_le ended toEarlier)

/-- Only February has not the same length in all years. -/
theorem daysInMonth_congr {month : Nat} (ordinary : month ≠ 2)
    (year other : Nat) : daysInMonth year month = daysInMonth other month := by
  match month with
  | 0 => rfl
  | 1 => rfl
  | 2 => exact absurd rfl ordinary
  | _ + 3 => rfl

theorem daysInMonth_february (year : Nat) :
    daysInMonth year 2 = if isLeapYear year then 29 else 28 :=
  rfl

/-- Every date but 29 February stands in every year. -/
theorem Date.Valid.inYear {date : Date} (valid : date.Valid)
    (ordinary : ¬ date.IsLeapDay) {year : Nat} (positive : 1 ≤ year)
    (bound : year < yearBound) :
    Date.Valid ⟨year, date.month, date.day⟩ := by
  have ⟨_, _, monthPositive, monthBound, dayPositive, dayBound⟩ := valid
  refine ⟨positive, bound, monthPositive, monthBound, dayPositive, ?_⟩
  by_cases february : date.month = 2
  · have notLast : date.day ≠ 29 := fun last => ordinary ⟨february, last⟩
    simp only [february, daysInMonth_february] at dayBound ⊢
    split at dayBound <;> split <;> omega
  · rw [daysInMonth_congr february year date.year]
    exact dayBound

theorem isLeapDay_of_isLeapYear {year : Nat} (leap : isLeapYear year = true)
    (positive : 1 ≤ year) (bound : year < yearBound) :
    (Date.ofDayNumber (daysBeforeYear year + 59)).IsLeapDay := by
  have valid : Date.Valid ⟨year, 2, 29⟩ := by
    simp [Date.Valid, positive, bound, daysInMonth_february, leap]
  have found := Date.ofDayNumber_dayNumber valid
  have number : Date.dayNumber ⟨year, 2, 29⟩ = daysBeforeYear year + 59 :=
    rfl
  rw [number] at found
  rw [found]
  exact ⟨rfl, rfl⟩

/-- A 29 February is the 60th day of a leap year. -/
theorem exists_leapYear_of_isLeapDay {number : Nat}
    (leapDay : (Date.ofDayNumber number).IsLeapDay) :
    ∃ year, 1 ≤ year ∧ isLeapYear year = true ∧
      number = daysBeforeYear year + 59 := by
  have ⟨positive, _, _, _, dayBound, numberEq⟩ :=
    Date.ofDayNumber_spec number
  generalize Date.ofDayNumber number = date at *
  rcases date with ⟨year, month, day⟩
  rcases leapDay with ⟨rfl, rfl⟩
  refine ⟨year, positive, ?_, numberEq.symm⟩
  by_contra common
  simp [daysInMonth_february, common] at dayBound

theorem daysBeforeYear_add_le {year : Nat} (positive : 1 ≤ year)
    (years : Nat) :
    daysBeforeYear year + 365 * years ≤ daysBeforeYear (year + years) := by
  induction years with
  | zero => exact Nat.le_refl _
  | succ years induction =>
      calc
        daysBeforeYear year + 365 * (years + 1) =
            daysBeforeYear year + 365 * years + 365 := by
          rw [Nat.mul_succ, Nat.add_assoc]
        _ ≤ daysBeforeYear (year + years) + daysInYear (year + years) :=
          Nat.add_le_add induction (le_daysInYear _)
        _ = daysBeforeYear (year + (years + 1)) :=
          (daysBeforeYear_succ (Nat.le_add_right_of_le positive)).symm

/-- After a 29 February there is no other for four years. -/
theorem leapFree_of_isLeapDay {number : Nat}
    (leapDay : (Date.ofDayNumber number).IsLeapDay) :
    LeapFree (number + 1) (number + 1461) := by
  intro other begun ended otherLeapDay
  rcases exists_leapYear_of_isLeapDay leapDay with
    ⟨year, positive, leap, here⟩
  rcases exists_leapYear_of_isLeapDay otherLeapDay with
    ⟨otherYear, otherPositive, otherLeap, there⟩
  have fourth := ((isLeapYear_iff year).mp leap).1
  have otherFourth := ((isLeapYear_iff otherYear).mp otherLeap).1
  have later : year < otherYear := by
    by_contra notLater
    have := daysBeforeYear_mono otherPositive (Nat.le_of_not_lt notLater)
    omega
  have four : year + 1 + 3 ≤ otherYear := by omega
  have apart : daysBeforeYear year + 1461 ≤ daysBeforeYear otherYear :=
    calc
      daysBeforeYear year + 1461 = daysBeforeYear (year + 1) + 365 * 3 := by
        rw [daysBeforeYear_succ positive, daysInYear, if_pos leap]
      _ ≤ daysBeforeYear (year + 1 + 3) :=
        daysBeforeYear_add_le (Nat.le_add_left 1 year) 3
      _ ≤ daysBeforeYear otherYear :=
        daysBeforeYear_mono (Nat.le_add_left 1 _) four
  omega

/-! ## Anniversaries -/

theorem daysBeforeMonth_of_early (year : Nat) {month : Nat}
    (early : month ≤ 2) :
    daysBeforeMonth year month = 31 * (month - 1) := by
  interval_cases month <;> rfl

theorem daysBeforeMonth_of_late (year : Nat) {month : Nat}
    (late : 3 ≤ month) (bound : month ≤ 12) :
    daysBeforeMonth year month + 365 =
      daysBeforeMonth 1 month + daysInYear year := by
  have leap : daysBeforeMonth year month =
      daysBeforeMonth 1 month + if isLeapYear year then 1 else 0 := by
    interval_cases month <;>
      simp only [daysBeforeMonth, monthLengths] <;> split <;> rfl
  rw [leap, daysInYear]
  split <;> omega

theorem le_daysBeforeMonth_of_late {month : Nat} (late : 3 ≤ month)
    (bound : month ≤ 12) : 59 ≤ daysBeforeMonth 1 month := by
  interval_cases month <;> decide

/-- January and February but for their leap day end before the 60th day. -/
theorem Date.Valid.days_of_early {date : Date} (valid : date.Valid)
    (ordinary : ¬ date.IsLeapDay) (early : date.month ≤ 2) :
    31 * (date.month - 1) + (date.day - 1) < 59 := by
  have short := valid.day_le
  rcases valid with ⟨-, -, positive, -, dayPositive, dayBound⟩
  by_cases february : date.month = 2
  · have notLast : date.day ≠ 29 := fun last => ordinary ⟨february, last⟩
    simp only [february, daysInMonth_february] at dayBound ⊢
    split at dayBound <;> omega
  · omega

/-- The next anniversary is as far away as the year is long, or the next one. -/
theorem Date.dayNumber_succ_year {date : Date} (valid : date.Valid) :
    Date.dayNumber ⟨date.year + 1, date.month, date.day⟩ =
      date.dayNumber +
        daysInYear (if date.month ≤ 2 then date.year else date.year + 1) := by
  have ⟨positive, _, _, monthBound, _, _⟩ := valid
  have grown := daysBeforeYear_succ positive
  simp only [dayNumber]
  split
  · next early =>
      rw [daysBeforeMonth_of_early _ early, daysBeforeMonth_of_early _ early]
      omega
  · next late =>
      have here := daysBeforeMonth_of_late date.year
        (Nat.lt_of_not_le late) monthBound
      have there := daysBeforeMonth_of_late (date.year + 1)
        (Nat.lt_of_not_le late) monthBound
      omega

/-- A leap day of that year lies on the way to the anniversary. -/
theorem Date.leapDay_between {date : Date} (valid : date.Valid)
    (ordinary : ¬ date.IsLeapDay) {year : Nat}
    (passed : year = if date.month ≤ 2 then date.year else date.year + 1)
    (leap : isLeapYear year = true) :
    date.dayNumber < daysBeforeYear year + 59 ∧
      daysBeforeYear year + 59 <
        Date.dayNumber ⟨date.year + 1, date.month, date.day⟩ := by
  have ⟨positive, _, _, monthBound, _, _⟩ := valid
  have length : daysInYear year = 366 := if_pos leap
  have grown := daysBeforeYear_succ positive
  rw [dayNumber_succ_year valid, ← passed, length]
  split at passed
  · next early =>
      have days := valid.days_of_early ordinary early
      rw [dayNumber, daysBeforeMonth_of_early _ early, passed]
      omega
  · next late =>
      have inside := valid.inside_year.2
      have days := daysBeforeMonth_of_late date.year
        (Nat.lt_of_not_le late) monthBound
      have further := le_daysBeforeMonth_of_late
        (Nat.lt_of_not_le late) monthBound
      rw [passed, grown]
      refine ⟨by omega, ?_⟩
      rw [dayNumber]
      omega

/-- A date is less than a year away from every day of its year. -/
theorem Date.Valid.near_of_begun {date : Date} (valid : date.Valid) {day : Nat}
    (begun : daysBeforeYear date.year ≤ day) :
    date.dayNumber < day + 366 ∧
      (LeapFree day (day + 365) → date.dayNumber < day + 365) := by
  have inside := valid.inside_year.2
  have length := daysInYear_le date.year
  refine ⟨by omega, fun free => ?_⟩
  -- Otherwise the days run from 1 January of a leap year to its end.
  by_contra far
  have leap := isLeapYear_of_lt (by omega : 365 < daysInYear date.year)
  exact free (daysBeforeYear date.year + 59) (by omega) (by omega)
    (isLeapDay_of_isLeapYear leap valid.1 valid.2.1)

/-- The anniversary of a date is less than a year away from the days after it. -/
theorem Date.Valid.near_of_past {date : Date} (valid : date.Valid)
    (ordinary : ¬ date.IsLeapDay) (next : date.year + 1 < yearBound)
    {day : Nat} (past : date.dayNumber < day) :
    Date.dayNumber ⟨date.year + 1, date.month, date.day⟩ < day + 366 ∧
      (LeapFree day (day + 365) →
        Date.dayNumber ⟨date.year + 1, date.month, date.day⟩ <
          day + 365) := by
  have further := dayNumber_succ_year valid
  generalize passed :
    (if date.month ≤ 2 then date.year else date.year + 1) = year at further
  have length := daysInYear_le year
  refine ⟨by omega, fun free => ?_⟩
  by_contra far
  have leap := isLeapYear_of_lt (by omega : 365 < daysInYear year)
  have between := leapDay_between valid ordinary passed.symm leap
  have yearPositive := valid.1
  have bounds : 1 ≤ year ∧ year < yearBound := by
    rw [← passed]
    split <;> omega
  exact free (daysBeforeYear year + 59) (by omega) (by omega)
    (isLeapDay_of_isLeapYear leap bounds.1 bounds.2)

/--
A date that is not 29 February stands in every stretch of 366 days, and of 365
days if there is no 29 February among them.
-/
theorem exists_anniversary {date : Date} (valid : date.Valid)
    (ordinary : ¬ date.IsLeapDay) {day : Nat}
    (room : day + 366 ≤ dayCount) :
    ∃ year, Date.Valid ⟨year, date.month, date.day⟩ ∧
      day ≤ Date.dayNumber ⟨year, date.month, date.day⟩ ∧
      Date.dayNumber ⟨year, date.month, date.day⟩ < day + 366 ∧
      (LeapFree day (day + 365) →
        Date.dayNumber ⟨year, date.month, date.day⟩ < day + 365) := by
  have inCalendar := Date.valid_ofDayNumber (by omega : day < dayCount)
  have ⟨positive, bound, _⟩ := inCalendar
  have begun := inCalendar.inside_year
  rw [Date.dayNumber_ofDayNumber] at begun
  generalize (Date.ofDayNumber day).year = year at positive bound begun
  have here := valid.inYear ordinary positive bound
  by_cases toCome : day ≤ Date.dayNumber ⟨year, date.month, date.day⟩
  · exact ⟨year, here, toCome, here.near_of_begun begun.1⟩
  · have begunHere := here.inside_year.1
    have length := daysInYear_le year
    have ended := daysBeforeYear_succ positive
    simp only at begunHere
    have next : year + 1 < yearBound := by
      by_contra last
      have lastYear : year + 1 = yearBound :=
        Nat.le_antisymm bound (Nat.le_of_not_lt last)
      rw [lastYear, Date.daysBeforeYear_yearBound] at ended
      omega
    have there := valid.inYear ordinary (Nat.le_add_left 1 year) next
    have begunThere := there.inside_year.1
    simp only at begunThere
    exact ⟨year + 1, there, by omega,
      here.near_of_past ordinary next (Nat.lt_of_not_le toCome)⟩

end Timetable.Calendar
