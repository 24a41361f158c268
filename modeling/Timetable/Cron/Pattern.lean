import Timetable.Cron.FieldSet
import Timetable.Text.Words

/-!
# Patterns: compiled expressions

An expression consists of five words, one for each field.  Compiling it reads
the fields from left to right and stops at the first that is wrong.  The
pattern keeps the words, whose text with single spaces between them is the
normalized expression, and the set of every field.

A pattern admits a minute if all five sets admit their number of it.  The day
of the month and the day of the week are both required.
-/

namespace Timetable.Cron

open Timetable.Calendar Timetable.Text

/-- The five words of an expression. -/
abbrev Parts := Fields String

/-- The five words with single spaces between them. -/
def Parts.text (parts : Parts) : String :=
  String.ofList (unwords (parts.map String.toList).toList)

/-- The words of an expression. -/
def expressionWords (expression : String) : List String :=
  (words expression.toList).map String.ofList

/-- The five words of an expression, if there are five. -/
def Parts.split? (expression : String) : Option Parts :=
  Fields.ofList? (expressionWords expression)

/-- The words of an expression and the sets of its fields. -/
structure Pattern where
  parts : Parts
  sets : Fields FieldSet
deriving DecidableEq, Repr

/-- What can be wrong with an expression. -/
inductive ExpressionError where
  /-- There are not five words. -/
  | fieldCount (expression : String)
  /-- A field is wrong. -/
  | field (bounds : Bounds) (error : FieldError)
deriving DecidableEq, Repr

/-- The failure that an error of an expression amounts to. -/
def ExpressionError.failure : ExpressionError → Failure
  | .fieldCount expression =>
      .problem
        { subject := .cron
          message :=
            "expected 5 cron fields, got " ++
              toString (expressionWords expression).length
          value := .text expression }
  | .field bounds error => error.failure bounds

/-- Reads one field of an expression. -/
def parseField (bounds : Bounds) (token : String) :
    Except ExpressionError FieldSet :=
  (FieldSet.parse bounds token).mapError (.field bounds)

/-- Reads the five fields from left to right. -/
def parseFields (parts : Parts) : Except ExpressionError (Fields FieldSet) := do
  let minute ← parseField fieldBounds.minute parts.minute
  let hour ← parseField fieldBounds.hour parts.hour
  let dayOfMonth ← parseField fieldBounds.dayOfMonth parts.dayOfMonth
  let month ← parseField fieldBounds.month parts.month
  let dayOfWeek ← parseField fieldBounds.dayOfWeek parts.dayOfWeek
  .ok ⟨minute, hour, dayOfMonth, month, dayOfWeek⟩

namespace Pattern

/-- The normalized expression of a pattern. -/
def expression (pattern : Pattern) : String := pattern.parts.text

/-- Compiles an expression. -/
def compile (expression : String) : Except ExpressionError Pattern :=
  match Parts.split? expression with
  | none => .error (.fieldCount expression)
  | some parts => do
      let sets ← parseFields parts
      .ok ⟨parts, sets⟩

/-- Compiles an expression and answers nothing if there is a problem. -/
def parse? (expression : String) : Except Fault (Option Pattern) :=
  lenient ((compile expression).mapError ExpressionError.failure)

/-- Whether an expression compiles. -/
def isValid (expression : String) : Except Fault Bool :=
  (parse? expression).map Option.isSome

/-! ## Matching -/

/-- Whether the pattern admits the day with a given number. -/
def admitsDay (pattern : Pattern) (dayNumber : Nat) : Bool :=
  let date := Date.ofDayNumber dayNumber
  pattern.sets.dayOfMonth.contains date.day &&
    pattern.sets.month.contains date.month &&
      pattern.sets.dayOfWeek.contains (weekdayOfDayNumber dayNumber)

/-- Whether the pattern admits a minute. -/
def admits (pattern : Pattern) (minute : Minute) : Bool :=
  pattern.sets.minute.contains minute.ofHour &&
    pattern.sets.hour.contains minute.hour &&
      pattern.admitsDay minute.dayNumber

/-- Whether the pattern admits the minute of a moment. -/
def isMatch (pattern : Pattern) (moment : Moment) : Bool :=
  pattern.admits moment.minute

end Pattern

end Timetable.Cron
