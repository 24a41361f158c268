import Timetable.Report
import Timetable.Value.Held

/-!
# Frequencies

A rule repeats daily, weekly, monthly or yearly.  A field for a frequency may
hold the frequency itself or its name.
-/

namespace Timetable

open Timetable.Calendar

/-- How often a rule repeats. -/
inductive Frequency where
  | daily
  | weekly
  | monthly
  | yearly
deriving DecidableEq, Repr

namespace Frequency

/-- The name of a frequency. -/
def name : Frequency → String
  | daily => "daily"
  | weekly => "weekly"
  | monthly => "monthly"
  | yearly => "yearly"

/-- The four frequencies. -/
def all : List Frequency := [daily, weekly, monthly, yearly]

/-- The frequency with a name. -/
def ofName? (name : String) : Option Frequency :=
  all.find? fun frequency => frequency.name == name

/-- The calendar unit between two periods of a frequency. -/
def unit : Frequency → CalendarUnit
  | daily => .day
  | weekly => .week
  | monthly => .month
  | yearly => .year

/-- The words for one unit and for several. -/
def unitNames : Frequency → String × String
  | daily => ("day", "days")
  | weekly => ("week", "weeks")
  | monthly => ("month", "months")
  | yearly => ("year", "years")

/-- The frequency that a value names. -/
def ofValue? : Value → Option Frequency
  | .text name => ofName? name
  | _ => none

/-- What a field holds after a name in it was replaced by its frequency. -/
def resolve : Held Frequency → Held Frequency
  | .proper frequency => .proper frequency
  | .odd written => .ofValue ofValue? written

/-- What a field holds, as it stands in running text. -/
def displayHeld : Held Frequency → String
  | .proper frequency => frequency.name
  | .odd written => written.display

/-- The frequency that a field holds; a fault if it holds none. -/
def require : Held Frequency → Except Fault Frequency
  | .proper frequency => .ok frequency
  | .odd _ => .error .unknownFrequency

end Frequency

end Timetable
