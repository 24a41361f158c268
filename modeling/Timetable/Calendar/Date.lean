/-!
# Dates of the proleptic Gregorian calendar

A date is a year, a month and a day.  Its *day number* counts the days since
1 January of year 1, which has number 0, so that differences between dates are
differences between naturals.

`Date.dayNumber` and `Date.ofDayNumber` are the two directions of this view.
The way back first splits off whole cycles of 400, 100, 4 and 1 years and then
walks along the month lengths of the year that is left.
-/

namespace Timetable.Calendar

/-- The number of the first year that the calendar does not reach. -/
def yearBound : Nat := 10000

/-- Every fourth year is a leap year, except the centuries not divisible by 400. -/
def isLeapYear (year : Nat) : Bool :=
  year % 4 == 0 && (year % 100 != 0 || year % 400 == 0)

/-- The lengths of the twelve months of a year, January first. -/
def monthLengths (year : Nat) : List Nat :=
  [31, if isLeapYear year then 29 else 28, 31, 30, 31, 30,
    31, 31, 30, 31, 30, 31]

/-- The length of a month; a month outside 1 to 12 has no days. -/
def daysInMonth (year month : Nat) : Nat :=
  match month with
  | 0 => 0
  | index + 1 => (monthLengths year).getD index 0

/-- The number of days before 1 January of a year. -/
def daysBeforeYear (year : Nat) : Nat :=
  let past := year - 1
  365 * past + past / 4 - past / 100 + past / 400

/-- The number of days of a year before the first of a month. -/
def daysBeforeMonth (year month : Nat) : Nat :=
  ((monthLengths year).take (month - 1)).foldl (· + ·) 0

/-- The number of days from 0001-01-01 to 9999-12-31, both included. -/
def dayCount : Nat := 3652059

/-- A year, a month counted from 1 and a day counted from 1. -/
structure Date where
  year : Nat
  month : Nat
  day : Nat
deriving DecidableEq, Repr

/-- The dates that exist: years 1 to 9999 and the days of their months. -/
def Date.Valid (date : Date) : Prop :=
  1 ≤ date.year ∧ date.year < yearBound ∧
    1 ≤ date.month ∧ date.month ≤ 12 ∧
      1 ≤ date.day ∧ date.day ≤ daysInMonth date.year date.month

instance (date : Date) : Decidable date.Valid :=
  inferInstanceAs (Decidable (_ ∧ _))

/-- The number of days from 0001-01-01 to a date. -/
def Date.dayNumber (date : Date) : Nat :=
  daysBeforeYear date.year + daysBeforeMonth date.year date.month +
    (date.day - 1)

/--
Walks along month lengths: the number of whole months that fit into `days`,
and the days that are left after them.
-/
def walkMonths : List Nat → Nat → Nat × Nat
  | [], days => (0, days)
  | length :: rest, days =>
      if days < length then (0, days)
      else
        let (months, left) := walkMonths rest (days - length)
        (months + 1, left)

/--
The year that holds a day number, and the days of that year before it.  The
last year of a cycle of four and the last century of a cycle of four hundred
years are one day longer than the others, hence the two caps at 3.
-/
def yearOfDayNumber (number : Nat) : Nat × Nat :=
  let quads := number / 146097
  let inQuad := number % 146097
  let centuries := min 3 (inQuad / 36524)
  let inCentury := inQuad - 36524 * centuries
  let cycles := inCentury / 1461
  let inCycle := inCentury % 1461
  let years := min 3 (inCycle / 365)
  (400 * quads + 100 * centuries + 4 * cycles + years + 1,
    inCycle - 365 * years)

/-- The date with a given day number. -/
def Date.ofDayNumber (number : Nat) : Date :=
  let (year, daysBefore) := yearOfDayNumber number
  let (months, left) := walkMonths (monthLengths year) daysBefore
  ⟨year, months + 1, left + 1⟩

/-- The weekday of a day number: Sunday is 0, Saturday is 6. -/
def weekdayOfDayNumber (number : Nat) : Nat :=
  (number + 1) % 7

/-- The months since January of year 0, which count without gaps over years. -/
def Date.monthNumber (date : Date) : Nat :=
  date.year * 12 + (date.month - 1)

end Timetable.Calendar
