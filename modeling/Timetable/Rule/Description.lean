import Timetable.Calendar.Names
import Timetable.Rule.Draft

/-!
# Rules in words

A rule is described by its interval, then its selections as far as its
frequency has them, and then its count or else its deadline.  A draft is
described as it is written, valid or not; its start is not looked at.

Names are looked up by their place, from the back if it is negative, and a
place without a name is a fault.  So is a number that has too many digits to be
written.
-/

namespace Timetable

open Timetable.Calendar Timetable.Text

/-- A value in running text, unless a number in it is too long. -/
def writeOut (written : Value) : Except Fault String :=
  if written.isOverlong then .error .numeralTooLong
  else .ok written.display

/-- The name of a selected number, counted from `first`. -/
def selectedName (names : List String) (first : Int) (written : Value) :
    Except Fault String :=
  match written with
  | .fractional _ => .error .wrongType
  | _ =>
      match written.toInt? with
      | none => .error .wrongType
      | some number =>
          match nameAt? names (number - first) with
          | some name => .ok name
          | none => .error .noSuchName

/-- The items of a selection; what is present must be a list. -/
def selectionItems : Value → Except Fault (List Value)
  | .list items => .ok items
  | _ => .error .wrongType

/-- The fragment that names what is selected, if anything is. -/
def namesFragment (lead : String) (names : List String) (first : Int)
    (written : Value) : Except Fault String :=
  if written.isPresent then do
    let items ← selectionItems written
    let names ← items.mapM (selectedName names first)
    .ok (lead ++ ", ".intercalate names)
  else .ok ""

/-- The items of a value that can be listed in running text. -/
def listedItems : Value → Except Fault (List String)
  | .list items => items.mapM writeOut
  | .text content =>
      .ok (content.toList.map fun char => String.ofList [char])
  | .record entries => .ok (entries.map Prod.fst)
  | _ => .error .wrongType

/-- The fragment that lists the selected days of the month, if any are. -/
def monthDaysFragment (written : Value) : Except Fault String :=
  if written.isPresent then do
    let items ← listedItems written
    .ok (" on day " ++ ", ".intercalate items)
  else .ok ""

namespace Draft

/-- The fragment for the interval. -/
def intervalFragment (draft : Draft) (frequency : Frequency) :
    Except Fault String :=
  let (one, several) := frequency.unitNames
  if draft.interval.toInt? = some 1 then .ok ("Every " ++ one)
  else
    (writeOut draft.interval).map fun interval =>
      "Every " ++ interval ++ " " ++ several

/-- The fragment for the selections that the frequency has. -/
def selectionFragment (draft : Draft) : Frequency → Except Fault String
  | .daily => .ok ""
  | .weekly => namesFragment " on " weekdayNames 0 draft.byWeekday
  | .monthly => monthDaysFragment draft.byMonthDay
  | .yearly => do
      let months ← namesFragment " in " monthNames 1 draft.byMonth
      let days ← monthDaysFragment draft.byMonthDay
      .ok (months ++ days)

/-- The fragment for the count, or else for the deadline. -/
def endFragment (draft : Draft) : Except Fault String :=
  if draft.count.isPresent then
    (writeOut draft.count).map fun count => " (" ++ count ++ " times)"
  else
    match draft.deadline with
    | .null => .ok ""
    | .moment deadline => .ok (" until " ++ deadline.date.text)
    | _ => .error .notAMoment

/-- A draft in words. -/
def describe (draft : Draft) : Except Fault String := do
  let frequency ←
    Frequency.require (Frequency.resolve draft.frequency)
  let opening ← draft.intervalFragment frequency
  let selections ← draft.selectionFragment frequency
  let ending ← draft.endFragment
  .ok (opening ++ selections ++ ending)

/-- A draft in words, marked as a rule. -/
def display (draft : Draft) : Except Fault String :=
  draft.describe.map fun description =>
    "Recurrence(" ++ quoted description ++ ")"

end Draft

end Timetable
