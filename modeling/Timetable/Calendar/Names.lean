/-!
# Names of weekdays and months

The names start with Sunday and with January.  A name is looked up by its
place from the front, or, for a negative place, from the back.
-/

namespace Timetable.Calendar

/-- The names of the weekdays, Sunday first. -/
def weekdayNames : List String :=
  ["Sunday", "Monday", "Tuesday", "Wednesday", "Thursday", "Friday",
    "Saturday"]

/-- The names of the months, January first. -/
def monthNames : List String :=
  ["January", "February", "March", "April", "May", "June", "July",
    "August", "September", "October", "November", "December"]

/-- The name at a place; place -1 is the last one. -/
def nameAt? (names : List String) (place : Int) : Option String :=
  if 0 ≤ place then names[place.toNat]?
  else if place.natAbs ≤ names.length then
    names[names.length - place.natAbs]?
  else none

/-- The first three letters of a name. -/
def shortName (name : String) : String :=
  String.ofList (name.toList.take 3)

end Timetable.Calendar
