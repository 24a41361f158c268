import Timetable.Text.Numeral

/-!
# Bounded fields

A numeric field has a name and admits the integers between two bounds.
-/

namespace Timetable

open Timetable.Text

/-- The name of a field and the least and greatest number that it admits. -/
structure Bounds where
  name : String
  low : Int
  high : Int
deriving DecidableEq, Repr

/-- Whether a number lies within bounds. -/
def Bounds.Contains (bounds : Bounds) (value : Int) : Prop :=
  bounds.low ≤ value ∧ value ≤ bounds.high

instance (bounds : Bounds) (value : Int) :
    Decidable (bounds.Contains value) :=
  inferInstanceAs (Decidable (_ ∧ _))

/-- Whether one of the bounds has too many digits to be written. -/
def Bounds.isOverlong (bounds : Bounds) : Bool :=
  overlong bounds.low || overlong bounds.high

end Timetable
