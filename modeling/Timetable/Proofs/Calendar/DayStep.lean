import Mathlib.Logic.Function.Iterate
import Timetable.Proofs.Calendar.Shift

/-!
# Days one after another

`Date.tomorrow` goes from a date to the next one as a wall calendar does: to the
next day of the month, to the first of the next month, or to 1 January of the
next year.  A date lies some days after another if it is reached by as many such
steps, and some days before it if the way leads back (`Date.LiesDaysAfter`).

The day numbers count these steps (`liesDaysAfter_iff`), and they order the
dates by year, month and day (`earlier_iff`).  `add_days_acts` says by means of
both what steps of days and of weeks do.
-/

namespace Timetable.Calendar

namespace Date

/-! ## The next day -/

/-- The date after a date. -/
def tomorrow (date : Date) : Date :=
  if date.day < daysInMonth date.year date.month then
    ⟨date.year, date.month, date.day + 1⟩
  else if date.month < 12 then ⟨date.year, date.month + 1, 1⟩
  else ⟨date.year + 1, 1, 1⟩

/-- A day of a month from January of year 1 on, in the calendar or behind it. -/
structure Regular (date : Date) : Prop where
  year : 1 ≤ date.year
  monthPositive : 1 ≤ date.month
  monthBound : date.month ≤ 12
  dayPositive : 1 ≤ date.day
  dayBound : date.day ≤ daysInMonth date.year date.month

theorem Valid.regular {date : Date} (valid : date.Valid) : date.Regular := by
  rcases valid with
    ⟨year, -, monthPositive, monthBound, dayPositive, dayBound⟩
  exact ⟨year, monthPositive, monthBound, dayPositive, dayBound⟩

theorem Regular.valid {date : Date} (regular : date.Regular)
    (reached : date.dayNumber < dayCount) : date.Valid :=
  ⟨regular.year, year_lt_of_dayNumber_lt reached, regular.monthPositive,
    regular.monthBound, regular.dayPositive, regular.dayBound⟩

/-- The first of a numbered month follows the last day of the month before. -/
theorem Regular.dayNumber_of_first {date : Date} (regular : date.Regular)
    (next : Date) (last : date.day = daysInMonth date.year date.month)
    (positive : 1 ≤ next.month) (bound : next.month ≤ 12)
    (month : next.monthNumber = date.monthNumber + 1)
    (first : next.day = 1) : next.dayNumber = date.dayNumber + 1 := by
  rcases regular with ⟨year, monthPositive, monthBound, dayPositive, -⟩
  have reached : 12 ≤ date.monthNumber := by
    rw [monthNumber]
    omega
  rw [dayNumber_eq positive bound, dayNumber_eq monthPositive monthBound,
    month, first, firstOfMonth_succ reached,
    monthLength_monthNumber monthPositive monthBound]
  omega

/-- Every month has a first day. -/
theorem one_le_daysInMonth (year : Nat) {month : Nat} (positive : 1 ≤ month)
    (bound : month ≤ 12) : 1 ≤ daysInMonth year month := by
  let first : Date := ⟨year, month, 1⟩
  have length : monthLength first.monthNumber = daysInMonth year month :=
    monthLength_monthNumber positive bound
  rw [← length]
  exact Nat.le_trans (by decide) (monthLength_bounds _).1

/-- The next day is a day of a month again, and the next one by its number. -/
theorem Regular.tomorrow {date : Date} (regular : date.Regular) :
    date.tomorrow.Regular ∧
      date.tomorrow.dayNumber = date.dayNumber + 1 := by
  have ⟨year, monthPositive, monthBound, dayPositive, dayBound⟩ := regular
  unfold Date.tomorrow
  split
  · next inMonth =>
      refine ⟨⟨year, monthPositive, monthBound, Nat.le_add_left 1 _,
        inMonth⟩, ?_⟩
      simp only [dayNumber]
      omega
  next ended =>
  have last : date.day = daysInMonth date.year date.month := by omega
  split
  · next inYear =>
      have second : 1 ≤ date.month + 1 := Nat.le_add_left 1 _
      refine ⟨⟨year, second, inYear, Nat.le_refl 1,
        one_le_daysInMonth _ second inYear⟩, ?_⟩
      refine regular.dayNumber_of_first ⟨date.year, date.month + 1, 1⟩ last
        second inYear ?_ rfl
      simp only [monthNumber]
      omega
  · next december =>
      have january : 1 ≤ 12 := by decide
      refine ⟨⟨Nat.le_add_left 1 _, Nat.le_refl 1, january, Nat.le_refl 1,
        one_le_daysInMonth _ (Nat.le_refl 1) january⟩, ?_⟩
      refine regular.dayNumber_of_first ⟨date.year + 1, 1, 1⟩ last
        (Nat.le_refl 1) january ?_ rfl
      simp only [monthNumber]
      omega

theorem Regular.iterate_tomorrow {date : Date} (regular : date.Regular)
    (days : Nat) :
    (Date.tomorrow^[days] date).Regular ∧
      (Date.tomorrow^[days] date).dayNumber = date.dayNumber + days := by
  induction days with
  | zero => exact ⟨regular, rfl⟩
  | succ days induction =>
      rw [Function.iterate_succ_apply']
      rcases induction with ⟨reached, number⟩
      have next := reached.tomorrow
      exact ⟨next.1, by omega⟩

theorem Valid.eq_of_dayNumber {left right : Date} (valid : left.Valid)
    (rightValid : right.Valid) (same : left.dayNumber = right.dayNumber) :
    left = right := by
  rw [← ofDayNumber_dayNumber valid, same, ofDayNumber_dayNumber rightValid]

theorem iterate_tomorrow_eq_iff {first second : Date} (valid : first.Valid)
    (secondValid : second.Valid) {days : Nat} :
    tomorrow^[days] first = second ↔
      second.dayNumber = first.dayNumber + days := by
  rcases valid.regular.iterate_tomorrow days with ⟨regular, number⟩
  constructor
  · rintro rfl
    exact number
  · intro onward
    have same : (tomorrow^[days] first).dayNumber = second.dayNumber :=
      number.trans onward.symm
    have inCalendar := secondValid.dayNumber_lt
    rw [← same] at inCalendar
    exact (regular.valid inCalendar).eq_of_dayNumber secondValid same

/--
One date lies some days after another: as many steps to the next day lead from
one to the other, or back if their number is negative.
-/
def LiesDaysAfter (first : Date) : Int → Date → Prop
  | .ofNat days, second => tomorrow^[days] first = second
  | .negSucc days, second => tomorrow^[days + 1] second = first

/-- Day numbers count the steps from one day to the next. -/
theorem liesDaysAfter_iff {first second : Date} (valid : first.Valid)
    (secondValid : second.Valid) {days : Int} :
    first.LiesDaysAfter days second ↔
      (second.dayNumber : Int) = first.dayNumber + days := by
  cases days with
  | ofNat days =>
      rw [LiesDaysAfter, iterate_tomorrow_eq_iff valid secondValid]
      simp only [Int.ofNat_eq_natCast]
      omega
  | negSucc days =>
      rw [LiesDaysAfter, iterate_tomorrow_eq_iff secondValid valid]
      omega

/-! ## The order of dates -/

/-- One date comes before another by its year, its month and its day. -/
def Earlier (left right : Date) : Prop :=
  left.year < right.year ∨ left.year = right.year ∧
    (left.month < right.month ∨ left.month = right.month ∧
      left.day < right.day)

theorem Earlier.dayNumber_lt {left right : Date} (earlier : left.Earlier right)
    (valid : left.Valid) (rightValid : right.Valid) :
    left.dayNumber < right.dayNumber := by
  have ⟨_, _, positive, bound, dayPositive, _⟩ := valid
  have ⟨_, _, rightPositive, rightBound, _⟩ := rightValid
  have begun := dayNumber_eq rightPositive rightBound
  by_cases sameMonth : left.monthNumber = right.monthNumber
  · rw [begun, dayNumber_eq positive bound, sameMonth]
    simp only [Earlier, monthNumber] at earlier sameMonth
    omega
  · have before : left.monthNumber < right.monthNumber := by
      simp only [Earlier, monthNumber] at earlier sameMonth ⊢
      omega
    have ended := valid.dayNumber_lt_firstOfMonth before
    omega

/-- Day numbers order the dates by year, month and day. -/
theorem earlier_iff {left right : Date} (valid : left.Valid)
    (rightValid : right.Valid) :
    left.Earlier right ↔ left.dayNumber < right.dayNumber := by
  constructor
  · exact fun earlier => earlier.dayNumber_lt valid rightValid
  · intro less
    have compared : left.Earlier right ∨ left = right ∨
        right.Earlier left := by
      rcases left with ⟨leftYear, leftMonth, leftDay⟩
      rcases right with ⟨rightYear, rightMonth, rightDay⟩
      simp only [Earlier, Date.mk.injEq]
      omega
    rcases compared with earlier | rfl | later
    · exact earlier
    · exact absurd less (Nat.lt_irrefl _)
    · have turned := later.dayNumber_lt rightValid valid
      omega

end Date

namespace Moment

/-! ## Steps of days -/

theorem liesDaysAfter_date_iff {moment other : Moment} {days : Int} :
    moment.date.LiesDaysAfter days other.date ↔
      (other.dayNumber : Int) = moment.dayNumber + days := by
  rw [Date.liesDaysAfter_iff moment.date_valid other.date_valid,
    dayNumber_date, dayNumber_date]

/-- The calendar has a date some days on if it has a day of that number. -/
theorem exists_liesDaysAfter_iff {moment : Moment} {days : Int} :
    (∃ date : Date, date.Valid ∧ moment.date.LiesDaysAfter days date) ↔
      0 ≤ moment.dayNumber + days ∧ moment.dayNumber + days < dayCount := by
  constructor
  · rintro ⟨date, valid, lies⟩
    rw [Date.liesDaysAfter_iff moment.date_valid valid, dayNumber_date]
      at lies
    have inside := valid.dayNumber_lt
    omega
  · rintro ⟨begun, inside⟩
    rcases Int.eq_ofNat_of_zero_le begun with ⟨number, numberEq⟩
    have valid : (Date.ofDayNumber number).Valid :=
      Date.valid_ofDayNumber (by omega)
    refine ⟨Date.ofDayNumber number, valid, ?_⟩
    rw [Date.liesDaysAfter_iff moment.date_valid valid,
      Date.dayNumber_ofDayNumber, dayNumber_date]
    exact numberEq.symm

/-- A step of days fails exactly where the calendar has no such date. -/
theorem addDays_eq_error_iff {moment : Moment} {amount : Int}
    {failure : RangeError} :
    moment.addDays amount = .error failure ↔
      failure = .pastEdge ∧
        ¬ ∃ date : Date, date.Valid ∧
          moment.date.LiesDaysAfter amount date := by
  rw [addDays, onDay_eq_error_iff, exists_liesDaysAfter_iff, and_comm]
  refine and_congr_right fun _ => ?_
  omega

/-- Two steps of days are one step, also where they leave the calendar. -/
theorem addDays_addDays {moment result : Moment} {amount : Int}
    (moved : moment.addDays amount = .ok result) (more : Int) :
    result.addDays more = moment.addDays (amount + more) := by
  rcases addDays_eq_ok_iff.mp moved with ⟨day, clock, offset⟩
  simp only [addDays, onDay, day, clock, offset, Int.add_assoc]

theorem addDays_neg {moment result : Moment} {amount : Int}
    (moved : moment.addDays amount = .ok result) :
    result.addDays (-amount) = .ok moment := by
  rw [addDays_addDays moved, Int.add_right_neg, addDays_zero]

theorem weekday_of_addDays {moment result : Moment} {amount : Int}
    (moved : moment.addDays amount = .ok result) :
    (result.weekday : Int) = (moment.weekday + amount) % 7 := by
  rcases addDays_eq_ok_iff.mp moved with ⟨day, -, -⟩
  simp only [weekday, weekdayOfDayNumber]
  omega

/--
Steps of days act on the moments as the integers do.  A step fails exactly if the
calendar has no date as many days on.  Otherwise it leads to that date and keeps
clock time and offset; the distance in days is the number of steps, the weekday
moves on with them, and the step back and any further step lead where they
should.

Weeks are seven days.  Distances in days add up, and they are positive exactly if
the dates are in order by year, month and day.
-/
theorem add_days_acts (moment : Moment) (amount : Int) :
    (∀ failure, moment.add amount .day = .error failure ↔
      failure = .pastEdge ∧
        ¬ ∃ date : Date, date.Valid ∧
          moment.date.LiesDaysAfter amount date) ∧
    (∀ result, moment.add amount .day = .ok result →
      moment.date.LiesDaysAfter amount result.date ∧
      result.clock = moment.clock ∧ result.offset = moment.offset ∧
      moment.daysBetween result = amount ∧
      (result.weekday : Int) = (moment.weekday + amount) % 7 ∧
      result.add (-amount) .day = .ok moment ∧
      ∀ more, result.add more .day = moment.add (amount + more) .day) ∧
    moment.add 0 .day = .ok moment ∧
    moment.add amount .week = moment.add (7 * amount) .day ∧
    ∀ second third : Moment,
      moment.daysBetween third =
        moment.daysBetween second + second.daysBetween third ∧
      (0 < moment.daysBetween second ↔ moment.date.Earlier second.date) := by
  refine ⟨fun failure => addDays_eq_error_iff, fun result moved => ?_,
    moment.addDays_zero, ?_, fun second third => ⟨?_, ?_⟩⟩
  · rcases addDays_eq_ok_iff.mp moved with ⟨day, clock, offset⟩
    have between : moment.daysBetween result = amount := by
      rw [daysBetween]
      omega
    exact ⟨liesDaysAfter_date_iff.mpr day, clock, offset, between,
      weekday_of_addDays moved, addDays_neg moved, addDays_addDays moved⟩
  · rw [add, add, addWeeks, Int.mul_comm]
  · simp only [daysBetween]
    omega
  · rw [Date.earlier_iff moment.date_valid second.date_valid,
      dayNumber_date, dayNumber_date, daysBetween]
    omega

end Moment

end Timetable.Calendar
