import Timetable.Rule.Frequency

/-!
# Recurrence rules

A rule repeats from a start at every `interval`-th day, week, month or year.
It may select weekdays, days of the month and months; a selection that is not
set selects everything.  A deadline, itself included, or a number of
occurrences may end it, whichever comes first.

Rules of this type need not make sense.  The interval may be zero or negative,
and any field may hold a value of an odd kind.  An operation faults when it
comes to look at such a field, and not before.
-/

namespace Timetable

open Timetable.Calendar

/-- Numbers that a field selects. -/
abbrev Selection := Held (List Int)

namespace Selection

/-- Whether anything is selected; an empty list or an absent value is nothing. -/
def isSet : Selection → Bool
  | .proper numbers => !numbers.isEmpty
  | .odd written => written.isPresent

/--
Whether a number is among those selected.  The names of a record are no
numbers; what is neither list nor record has no members to look among.
-/
def holds (selection : Selection) (number : Nat) : Except Fault Bool :=
  match selection with
  | .proper numbers => .ok (numbers.contains (number : Int))
  | .odd (.list items) =>
      .ok (items.any fun item => item.toInt? == some (number : Int))
  | .odd (.record _) => .ok false
  | .odd _ => .error .wrongType

/-- Whether a selection admits a number; one that is not set admits all. -/
def admits (selection : Selection) (number : Nat) : Except Fault Bool :=
  if selection.isSet then selection.holds number else .ok true

end Selection

/-- A repeating pattern of days, anchored at its start. -/
structure Rule where
  frequency : Held Frequency
  start : Held Moment
  interval : Held Int := .proper 1
  deadline : Option (Held Moment) := none
  count : Option (Held Int) := none
  byWeekday : Selection := .proper []
  byMonthDay : Selection := .proper []
  byMonth : Selection := .proper []
deriving Repr

namespace Rule

/-- The start, whose date or clock time is asked for. -/
def anchor (rule : Rule) : Except Fault Moment :=
  match rule.start with
  | .proper start => .ok start
  | .odd _ => .error .notAMoment

/-- Whether a moment is earlier than the start. -/
def precedesStart (rule : Rule) (moment : Moment) : Except Fault Bool :=
  match rule.start with
  | .proper start => precedes moment start
  | .odd _ => .error .wrongType

/-- Whether a moment is later than the deadline. -/
def exceedsDeadline (rule : Rule) (moment : Moment) : Except Fault Bool :=
  match rule.deadline with
  | none => .ok false
  | some (.proper deadline) => precedes deadline moment
  | some (.odd _) => .error .wrongType

/-- Whether a moment is not earlier than the deadline. -/
def reachesDeadline (rule : Rule) (moment : Moment) : Except Fault Bool :=
  match rule.deadline with
  | none => .ok false
  | some (.proper deadline) => (precedes moment deadline).map (!·)
  | some (.odd _) => .error .wrongType

/-- Whether the rule has no more than a given number of occurrences. -/
def isExhausted (rule : Rule) (given : Nat) : Except Fault Bool :=
  match rule.count with
  | none => .ok false
  | some (.proper count) => .ok (decide (count ≤ given))
  | some (.odd (.fractional count)) =>
      .ok (decide (count.ratio.1 ≤ given * count.ratio.2))
  | some (.odd _) => .error .wrongType

end Rule

end Timetable
