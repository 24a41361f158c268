import Timetable.Calendar.Notation
import Timetable.Text.Quoted
import Timetable.Value.Binary64

/-!
# Written values

The parts of a rule arrive as written values, which may be of a wrong kind:
`Value` is what can be written, with the entries of a record in their written
order.  A message shows a value in one of two ways.  Its *literal* quotes every
text; its *text* is the same, but leaves a text at the top as it is.
-/

namespace Timetable

open Timetable.Calendar Timetable.Text

/-- A written value. -/
inductive Value where
  | null
  | truth (holds : Bool)
  | whole (number : Int)
  | fractional (number : Binary64)
  | text (content : String)
  | list (items : List Value)
  | record (entries : List (String × Value))
  | moment (reading : Moment)
deriving Repr

/-- The text of a difference of minutes as days and non-negative seconds. -/
def offsetLiteral (offset : Int) : String :=
  if offset = 0 then "datetime.timezone.utc"
  else if 0 < offset then
    "datetime.timezone(datetime.timedelta(seconds=" ++
      integerText (offset * 60) ++ "))"
  else
    "datetime.timezone(datetime.timedelta(days=-1, seconds=" ++
      integerText (offset * 60 + 86400) ++ "))"

/-- The parts of a moment down to its last one that is not zero. -/
def momentParts (moment : Moment) : List Nat :=
  let date := moment.date
  let minutes :=
    [date.year, date.month, date.day, moment.hourOfDay,
      moment.minuteOfHour]
  if moment.microsecond ≠ 0 then
    minutes ++ [moment.secondOfMinute, moment.microsecond]
  else if moment.secondOfMinute ≠ 0 then
    minutes ++ [moment.secondOfMinute]
  else minutes

/-- A moment as a call that lists its parts. -/
def momentLiteral (moment : Moment) : String :=
  "datetime.datetime(" ++
    ", ".intercalate ((momentParts moment).map toString) ++
      moment.offset.elim "" (fun offset =>
        ", tzinfo=" ++ offsetLiteral offset) ++ ")"

namespace Value

mutual

/-- A value with every text in quotation marks. -/
def literal : Value → String
  | null => "None"
  | truth true => "True"
  | truth false => "False"
  | whole number => integerText number
  | fractional number => number.text
  | text content => quoted content
  | list items => "[" ++ ", ".intercalate (literals items) ++ "]"
  | record entries =>
      "\x7b" ++ ", ".intercalate (entryLiterals entries) ++ "\x7d"
  | moment reading => momentLiteral reading

/-- The literals of a list of values. -/
def literals : List Value → List String
  | [] => []
  | item :: rest => item.literal :: literals rest

/-- The entries of a record with their names in quotation marks. -/
def entryLiterals : List (String × Value) → List String
  | [] => []
  | (name, value) :: rest =>
      (quoted name ++ ": " ++ value.literal) :: entryLiterals rest

end

/-- A value as it stands in running text. -/
def display : Value → String
  | text content => content
  | moment reading => reading.textWith " "
  | value => value.literal

mutual

/-- Whether a number in a value has too many digits to be written. -/
def isOverlong : Value → Bool
  | whole number => overlong number
  | list items => anyOverlong items
  | record entries => anyEntryOverlong entries
  | _ => false

/-- Whether a number in a list of values has too many digits. -/
def anyOverlong : List Value → Bool
  | [] => false
  | item :: rest => item.isOverlong || anyOverlong rest

/-- Whether a number in the entries of a record has too many digits. -/
def anyEntryOverlong : List (String × Value) → Bool
  | [] => false
  | (_, value) :: rest => value.isOverlong || anyEntryOverlong rest

end

/-- Whether a value counts as present: not null, false, zero or empty. -/
def isPresent : Value → Bool
  | null => false
  | truth holds => holds
  | whole number => number ≠ 0
  | fractional number => !number.isZero
  | text content => !content.isEmpty
  | list items => !items.isEmpty
  | record entries => !entries.isEmpty
  | moment _ => true

/--
The integer that a value is equal to, if there is one.  A truth value is equal
to 1 or 0, and a number with a decimal point may be integral.
-/
def toInt? : Value → Option Int
  | whole number => some number
  | truth holds => some (if holds then 1 else 0)
  | fractional number => number.toInt?
  | _ => none

end Value

end Timetable
