import Timetable.Value.Basic

/-!
# The order of written values

Values of the same sort are ordered: numbers by size, whatever their form,
texts by their characters, moments by their instants if they compare, and
lists by the first items that differ, or else by length.  Truth values count
as the numbers 1 and 0.  All other pairs have no order.
-/

namespace Timetable.Value

/-- The quotient that a value is equal to, if it is a number or a truth value. -/
def ratio? : Value → Option (Int × Nat)
  | whole number => some (number, 1)
  | truth holds => some (if holds then 1 else 0, 1)
  | fractional number => some number.ratio
  | _ => none

/-- The order of two quotients. -/
def compareRatios (left right : Int × Nat) : Ordering :=
  compare (left.1 * right.2) (right.1 * left.2)

/-- The order of two numbers, if both values are numbers. -/
def compareNumbers? (left right : Value) : Option Ordering :=
  match left.ratio?, right.ratio? with
  | some left, some right => some (compareRatios left right)
  | _, _ => none

mutual

/-- Whether two values are equal; the order of the entries does not count. -/
def isSame : Value → Value → Bool
  | null, null => true
  | text left, text right => left == right
  | moment left, moment right =>
      left.comparable right && left.instant == right.instant
  | list left, list right => areSame left right
  | record left, record right =>
      left.length == right.length && areEntriesOf left right
  | left, right => left.compareNumbers? right == some .eq

/-- Whether two lists have equal items. -/
def areSame : List Value → List Value → Bool
  | [], [] => true
  | left :: lefts, right :: rights => left.isSame right && areSame lefts rights
  | _, _ => false

/-- Whether some entries have equal ones in a record. -/
def areEntriesOf : List (String × Value) → List (String × Value) → Bool
  | [], _ => true
  | (name, left) :: lefts, rights =>
      (match rights.lookup name with
        | some right => left.isSame right
        | none => false) && areEntriesOf lefts rights

end

mutual

/-- The order of two values, if they have one. -/
def compare? : Value → Value → Option Ordering
  | text left, text right => some (compareOfLessAndEq left right)
  | moment left, moment right =>
      if left.comparable right then some (compare left.instant right.instant)
      else none
  | list left, list right => compareItems? left right
  | left, right => left.compareNumbers? right

/-- The order of two lists, if the first items that differ have one. -/
def compareItems? : List Value → List Value → Option Ordering
  | [], [] => some .eq
  | [], _ :: _ => some .lt
  | _ :: _, [] => some .gt
  | left :: lefts, right :: rights =>
      if left.isSame right then compareItems? lefts rights
      else left.compare? right

end

end Timetable.Value
