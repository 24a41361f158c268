import Timetable.Calendar.Moment

/-!
# Moving along the calendar

Moments move by microseconds, days, weeks, months and years on their wall
clock; the offset is carried along.  Day and week steps keep the clock time.

Month and year steps keep the day of the month as a distance from the first of
the target month, so a day that the target month does not have rolls over into
the month after it: one month after 31 January 2024 is 2 March 2024.

A step that leaves the years 1 to 9999 fails, and `RangeError` says in which of
three ways.
-/

namespace Timetable.Calendar

/-- The units in which calendar steps are counted. -/
inductive CalendarUnit where
  | day
  | week
  | month
  | year
deriving DecidableEq, Repr

/-- The ways to leave the calendar. -/
inductive RangeError where
  /-- The first or the last day of the calendar was passed. -/
  | pastEdge
  /-- The target year fits a signed word of 32 bits, but is not in 1 to 9999. -/
  | noSuchYear
  /-- The target year does not fit a signed word of 32 bits. -/
  | yearTooLarge
deriving DecidableEq, Repr

namespace Moment

/-- Moves the wall clock by a number of microseconds. -/
def addTicks (moment : Moment) (amount : Int) : Except RangeError Moment :=
  let target : Int := moment.ticks + amount
  if reached : 0 ≤ target ∧ target.toNat < calendarTicks then
    .ok
      { ticks := target.toNat
        offset := moment.offset
        reached := reached.2 }
  else .error .pastEdge

/-- The clock time and offset of a moment on the day with a given number. -/
def onDay (moment : Moment) (dayNumber : Int) : Except RangeError Moment :=
  -- Comparing integers here would let every unfolding count up to the bound.
  if reached : 0 ≤ dayNumber ∧ dayNumber.toNat < dayCount then
    .ok
      { ticks := dayNumber.toNat * dayTicks + moment.clock
        offset := moment.offset
        reached := by
          have clockReached : moment.clock < dayTicks :=
            Nat.mod_lt _ (by decide)
          simp only [calendarTicks, dayCount, dayTicks] at *
          omega }
  else .error .pastEdge

/-- Moves the date by a number of days. -/
def addDays (moment : Moment) (amount : Int) : Except RangeError Moment :=
  moment.onDay (moment.dayNumber + amount)

/-- Moves the date by a number of weeks. -/
def addWeeks (moment : Moment) (amount : Int) : Except RangeError Moment :=
  moment.addDays (amount * 7)

/-- Refuses a year outside 1 to 9999. -/
def checkYear (year : Int) : Except RangeError Nat :=
  if 1 ≤ year ∧ year < yearBound then .ok year.toNat
  else if -2147483648 ≤ year ∧ year < 2147483648 then .error .noSuchYear
  else .error .yearTooLarge

/--
Moves the month by a number of months.  The days after the first of the month
are added to the first of the target month.
-/
def addMonths (moment : Moment) (amount : Int) : Except RangeError Moment :=
  let date := moment.date
  let target : Int := date.monthNumber + amount
  match checkYear (target.fdiv 12) with
  | .error failure => .error failure
  | .ok year =>
      let first : Date := ⟨year, (target.fmod 12).toNat + 1, 1⟩
      moment.onDay (first.dayNumber + (date.day - 1) : Nat)

/-- Moves a moment by a number of calendar units. -/
def add (moment : Moment) (amount : Int) :
    CalendarUnit → Except RangeError Moment
  | .day => moment.addDays amount
  | .week => moment.addWeeks amount
  | .month => moment.addMonths amount
  | .year => moment.addMonths (amount * 12)

end Moment

end Timetable.Calendar
