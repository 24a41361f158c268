import Timetable.Calendar.Moment
import Timetable.Text.Numeral

/-!
# Written dates and moments

A date is written as year, month and day, and a moment as its date and clock
time with a mark between them, then the microseconds if there are any, then
the offset if there is one: `2024-01-02T03:04:05.000006+07:00`.

`Moment.ofText?` reads exactly this form, with the mark `T`, and refuses dates
and clock times that do not exist.
-/

namespace Timetable.Calendar

open Timetable.Text

/-- A date as `YYYY-MM-DD`. -/
def Date.text (date : Date) : String :=
  padded 4 date.year ++ "-" ++ padded 2 date.month ++ "-" ++
    padded 2 date.day

namespace Moment

/-- The hour on the wall clock. -/
def hourOfDay (moment : Moment) : Nat := moment.clock / 3600000000

/-- The minute of the hour on the wall clock. -/
def minuteOfHour (moment : Moment) : Nat :=
  moment.clock / minuteTicks % 60

/-- The second of the minute on the wall clock. -/
def secondOfMinute (moment : Moment) : Nat :=
  moment.clock / 1000000 % 60

/-- The microseconds of the second on the wall clock. -/
def microsecond (moment : Moment) : Nat := moment.clock % 1000000

/-- An offset as `+HH:MM` or `-HH:MM`. -/
def offsetText (offset : Int) : String :=
  (if offset < 0 then "-" else "+") ++ padded 2 (offset.natAbs / 60) ++
    ":" ++ padded 2 (offset.natAbs % 60)

/-- A moment with the given mark between its date and its clock time. -/
def textWith (mark : String) (moment : Moment) : String :=
  moment.date.text ++ mark ++
    padded 2 moment.hourOfDay ++ ":" ++ padded 2 moment.minuteOfHour ++
      ":" ++ padded 2 moment.secondOfMinute ++
        (if moment.microsecond = 0 then ""
          else "." ++ padded 6 moment.microsecond) ++
          moment.offset.elim "" offsetText

/-- A moment with `T` between its date and its clock time. -/
def text (moment : Moment) : String := moment.textWith "T"

/-! ## Reading -/

/-- Takes a number of exactly `width` digits off the front of a text. -/
def takeNumber? (width : Nat) (chars : List Char) :
    Option (Nat × List Char) :=
  let digits := chars.take width
  if digits.length = width ∧ digits.all Char.isDigit then
    some (valueOfDigits digits, chars.drop width)
  else none

/-- Takes a mark and then a number of `width` digits off the front of a text. -/
def takeMarked? (mark : Char) (width : Nat) :
    List Char → Option (Nat × List Char)
  | char :: rest => if char = mark then takeNumber? width rest else none
  | [] => none

/-- The optional microseconds of a written moment. -/
def takeMicrosecond? (chars : List Char) : Option (Nat × List Char) :=
  match chars with
  | '.' :: _ => takeMarked? '.' 6 chars
  | _ => some (0, chars)

/-- The optional offset that ends a written moment. -/
def readOffset? (chars : List Char) : Option (Option Int) :=
  match chars with
  | [] => some none
  | sign :: rest =>
      if sign ≠ '+' ∧ sign ≠ '-' then none
      else do
        let (hours, rest) ← takeNumber? 2 rest
        let (minutes, rest) ← takeMarked? ':' 2 rest
        if rest.isEmpty ∧ hours < 24 ∧ minutes < 60 then
          let size : Int := (60 * hours + minutes : Nat)
          some (some (if sign = '-' then -size else size))
        else none

/-- Reads a moment written with `T` between its date and its clock time. -/
def ofChars? (chars : List Char) : Option Moment := do
  let (year, rest) ← takeNumber? 4 chars
  let (month, rest) ← takeMarked? '-' 2 rest
  let (day, rest) ← takeMarked? '-' 2 rest
  let (hour, rest) ← takeMarked? 'T' 2 rest
  let (minute, rest) ← takeMarked? ':' 2 rest
  let (second, rest) ← takeMarked? ':' 2 rest
  let (microsecond, rest) ← takeMicrosecond? rest
  let offset ← readOffset? rest
  let date : Date := ⟨year, month, day⟩
  if date.Valid ∧ hour < 24 ∧ minute < 60 ∧ second < 60 then
    ofDayAndClock? date.dayNumber
      (((60 * hour + minute) * 60 + second) * 1000000 + microsecond) offset
  else none

/-- Reads a moment written with `T` between its date and its clock time. -/
def ofText? (written : String) : Option Moment := ofChars? written.toList

end Moment

end Timetable.Calendar
