import Timetable.Calendar.Names
import Timetable.Cron.Pattern

/-!
# Expressions in words

Five expressions have a description of their own.  Every other expression of
five words is described by fragments for the time, the day of the month, the
month and the day of the week, and by itself if all fragments are missing.

A description looks at the words alone and never compiles them, so it exists
for words that mean nothing as fields too.  It faults only on a month or
weekday that begins with a number of too many digits.
-/

namespace Timetable.Cron

open Timetable.Calendar Timetable.Text

/-- The expressions with a description of their own. -/
def namedExpressions : List (String × String) :=
  [("* * * * *", "Every minute"),
    ("0 * * * *", "Every hour"),
    ("0 0 * * *", "Every day at midnight"),
    ("0 0 * * 0", "Every Sunday at midnight"),
    ("0 0 1 * *", "First day of every month at midnight")]

/-- The word between the first slash of a field and the next one. -/
def steppedBy (field : String) : String :=
  String.ofList ((pieces '/' field.toList).getD 1 [])

/-- Whether a field holds a mark. -/
def hasMark (mark : Char) (field : String) : Bool :=
  field.toList.contains mark

/-- Splits an optional sign off: whether it is a minus, and what follows. -/
def splitSign : List Char → Bool × List Char
  | '-' :: rest => (true, rest)
  | '+' :: rest => (false, rest)
  | rest => (false, rest)

/-- The integer that a field begins with, if it begins with one. -/
def leadingInteger (field : String) : Except Fault (Option Int) :=
  let (negative, rest) := splitSign field.toList
  let digits := rest.takeWhile Char.isDigit
  if digits.isEmpty then .ok none
  else
    match convertDigits digits with
    | .error _ => .error .numeralTooLong
    | .ok size => .ok (some (if negative then -(size : Int) else size))

/-- The fragment for the minute and the hour. -/
def timeFragment (minute hour : String) : Option String :=
  if minute = "0" ∧ hour ≠ "*" then
    if hasMark '/' hour then some ("Every " ++ steppedBy hour ++ " hours")
    else if hasMark '-' hour then
      some ("Every hour from " ++ hour ++ " at minute 0")
    else some ("At " ++ hour ++ ":00")
  else if minute ≠ "*" ∧ hour = "*" then
    some ("At minute " ++ minute ++ " of every hour")
  else if hasMark '/' minute then
    some ("Every " ++ steppedBy minute ++ " minutes")
  else none

/-- The fragment for the day of the month. -/
def dayOfMonthFragment (field : String) : Option String :=
  if field = "*" then none else some ("on day " ++ field ++ " of the month")

/-- The name for the integer that a field begins with, in a list of names. -/
def leadingName (names : List String) (first : Int) (field : String) :
    Except Fault (Option String) :=
  match leadingInteger field with
  | .error fault => .error fault
  | .ok none => .ok none
  | .ok (some number) =>
      if number < first then .ok none
      else .ok (names[(number - first).toNat]?.map shortName)

/-- The fragment for the month. -/
def monthFragment (field : String) : Except Fault (Option String) :=
  if field = "*" then .ok none
  else
    match leadingName monthNames 1 field with
    | .error fault => .error fault
    | .ok (some name) => .ok (some ("in " ++ name))
    | .ok none => .ok (some ("in month " ++ field))

/-- The fragment for the day of the week. -/
def dayOfWeekFragment (field : String) : Except Fault (Option String) :=
  if field = "*" then .ok none
  else
    match leadingName weekdayNames 0 field with
    | .error fault => .error fault
    | .ok (some name) => .ok (some ("on " ++ name))
    | .ok none => .ok (some ("on day of week " ++ field))

/-- The fragments of five words that are there, in order. -/
def Parts.fragments (parts : Parts) : Except Fault (List String) := do
  let month ← monthFragment parts.month
  let dayOfWeek ← dayOfWeekFragment parts.dayOfWeek
  .ok
    ([timeFragment parts.minute parts.hour,
      dayOfMonthFragment parts.dayOfMonth, month, dayOfWeek].filterMap id)

/-- An expression in words, if it has five words. -/
def describe (expression : String) : Except Fault (Option String) :=
  match Parts.split? expression with
  | none => .ok none
  | some parts =>
      match namedExpressions.lookup expression with
      | some description => .ok (some description)
      | none =>
          match parts.fragments with
          | .error fault => .error fault
          | .ok [] => .ok (some expression)
          | .ok fragments => .ok (some (" ".intercalate fragments))

end Timetable.Cron
