import Timetable.Calendar.Date

/-!
# Moments

A moment is a wall-clock reading to the microsecond, with or without an offset
from universal time.  It is held as one natural, the microseconds from
0001-01-01T00:00:00 on the wall clock, together with the proof that the
calendar reaches it; date, clock time and weekday are views of that number.

Moments with an offset are ordered by the instant that they denote, moments
without one by their wall clock.  The two kinds are not ordered against each
other: `Moment.precedes?` has no answer there.
-/

namespace Timetable.Calendar

/-- The microseconds of a minute. -/
def minuteTicks : Nat := 60000000

/-- The microseconds of a day. -/
def dayTicks : Nat := 86400000000

/-- The microseconds of a week. -/
def weekTicks : Nat := 604800000000

/-- The microseconds from 0001-01-01T00:00:00 to the end of year 9999. -/
def calendarTicks : Nat := dayCount * dayTicks

/-- The minutes from 0001-01-01T00:00 to the end of year 9999. -/
def minuteCount : Nat := dayCount * 1440

/-- A minute of the calendar, counted from 0001-01-01T00:00. -/
abbrev Minute := Fin minuteCount

namespace Minute

/-- The minute of the hour. -/
def ofHour (minute : Minute) : Nat := minute.val % 60

/-- The hour of the day. -/
def hour (minute : Minute) : Nat := minute.val / 60 % 24

/-- The number of the day that holds the minute. -/
def dayNumber (minute : Minute) : Nat := minute.val / 1440

/-- The minute that follows, unless this is the last one of the calendar. -/
def next? (minute : Minute) : Option Minute :=
  if reached : minute.val + 1 < minuteCount then
    some ⟨minute.val + 1, reached⟩
  else none

/-- The minute before, unless this is the first one of the calendar. -/
def previous? (minute : Minute) : Option Minute :=
  if minute.val = 0 then none
  else some ⟨minute.val - 1, by omega⟩

end Minute

/--
A wall-clock reading: the microseconds since 0001-01-01T00:00:00, and the
offset from universal time if one is known.  Offsets are whole minutes; those
with seconds are left out.
-/
structure Moment where
  ticks : Nat
  offset : Option Int
  reached : ticks < calendarTicks := by decide
deriving DecidableEq, Repr

namespace Moment

/-- The number of the wall-clock day. -/
def dayNumber (moment : Moment) : Nat := moment.ticks / dayTicks

/-- The microseconds since midnight on the wall clock. -/
def clock (moment : Moment) : Nat := moment.ticks % dayTicks

/-- The wall-clock date. -/
def date (moment : Moment) : Date := .ofDayNumber moment.dayNumber

/-- The weekday of the wall-clock date, with Sunday as 0. -/
def weekday (moment : Moment) : Nat :=
  weekdayOfDayNumber moment.dayNumber

/-- The minute that holds the moment on its wall clock. -/
def minute (moment : Moment) : Minute :=
  ⟨moment.ticks / minuteTicks,
    Nat.div_lt_of_lt_mul (Nat.lt_of_lt_of_eq moment.reached (by decide))⟩

/-- The beginning of a minute, at a given offset. -/
def ofMinute (minute : Minute) (offset : Option Int) : Moment where
  ticks := minute.val * minuteTicks
  offset := offset
  reached :=
    Nat.lt_of_lt_of_eq
      (Nat.mul_lt_mul_of_pos_right minute.isLt (by decide)) (by decide)

/-- The moment with its seconds and microseconds cleared. -/
def truncateToMinute (moment : Moment) : Moment :=
  .ofMinute moment.minute moment.offset

/-- The moment at a clock time of a day, if the day and the time exist. -/
def ofDayAndClock? (dayNumber clock : Nat) (offset : Option Int) :
    Option Moment :=
  if exist : dayNumber < dayCount ∧ clock < dayTicks then
    some
      { ticks := dayNumber * dayTicks + clock
        offset := offset
        reached := by
          simp only [calendarTicks, dayCount, dayTicks] at *
          omega }
  else none

/-- The date and offset of `day` at the clock time of `clock`. -/
def atTimeOf (day clock : Moment) : Moment where
  ticks := day.dayNumber * dayTicks + clock.clock
  offset := day.offset
  reached := by
    have dayReached := day.reached
    have clockReached : clock.clock < dayTicks :=
      Nat.mod_lt _ (by decide)
    simp only [dayNumber, calendarTicks, dayCount, dayTicks] at *
    omega

/-! ## Order -/

/-- Whether the moment has an offset from universal time. -/
def isAware (moment : Moment) : Bool := moment.offset.isSome

/-- Whether two moments both have an offset, or both have none. -/
def comparable (left right : Moment) : Bool :=
  left.isAware == right.isAware

/--
The microseconds from 0001-01-01T00:00:00 to the moment, in universal time if
the moment has an offset and on its wall clock otherwise.
-/
def instant (moment : Moment) : Int :=
  moment.ticks - moment.offset.getD 0 * minuteTicks

/-- Whether `left` is earlier than `right`; no answer if they do not compare. -/
def precedes? (left right : Moment) : Option Bool :=
  if left.comparable right then some (decide (left.instant < right.instant))
  else none

/-! ## Distances on the wall clock -/

/-- The days from the date of `first` to the date of `second`. -/
def daysBetween (first second : Moment) : Int :=
  (second.dayNumber : Int) - first.dayNumber

/-- The months from the month of `first` to the month of `second`. -/
def monthsBetween (first second : Moment) : Int :=
  (second.date.monthNumber : Int) - first.date.monthNumber

/-- The years from the year of `first` to the year of `second`. -/
def yearsBetween (first second : Moment) : Int :=
  (second.date.year : Int) - first.date.year

end Moment

end Timetable.Calendar
