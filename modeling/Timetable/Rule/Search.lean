import Timetable.Chain
import Timetable.Rule.Match
import Timetable.Rule.Step
import Timetable.Value.Order

/-!
# Occurrences of a rule

The next occurrence after a moment is the start itself, if the moment is
earlier and the start matches.  Otherwise the search begins on the day after
the moment, at the clock time of the start, and goes from candidate to
candidate until one matches, the deadline is passed, or as many candidates as
allowed were tested.

All occurrences are a chain of such searches: each of them starts one
millisecond after the occurrence before, which a range error can prevent.
-/

namespace Timetable

open Timetable.Calendar

namespace Rule

/-- The number of candidates that a search tests if nothing else is said. -/
def defaultCap : Int := 1000

/-- The number of occurrences listed if nothing else is said. -/
def defaultLimit : Int := 100

/-- Ends at the deadline and accepts the days that match. -/
def judge (rule : Rule) (candidate : Moment) : Except Fault Verdict :=
  match rule.exceedsDeadline candidate with
  | .error fault => .error fault
  | .ok true => .ok .stop
  | .ok false =>
      (rule.isMatch candidate).map fun isMatch =>
        if isMatch then .accept else .pass

/-- Whether the answer to a search after a moment is the start itself. -/
def startsAfter (rule : Rule) (after : Moment) : Except Fault Bool :=
  match rule.precedesStart after with
  | .error fault => .error fault
  | .ok true => rule.anchor.bind rule.isMatch
  | .ok false => .ok false

/-- The first candidate after a moment. -/
def firstCandidate (rule : Rule) (after : Moment) : Except Fault Moment :=
  match stepped (after.addDays 1) with
  | .error fault => .error fault
  | .ok day => rule.anchor.map day.atTimeOf

/-- Searches from the day after a moment. -/
def searchFrom (rule : Rule) (after : Moment) (cap : Int) :
    Except Fault (Finding Moment) :=
  match rule.reachesDeadline after with
  | .error fault => .error fault
  | .ok true => .ok .ended
  | .ok false =>
      match rule.firstCandidate after with
      | .error fault => .error fault
      | .ok candidate =>
          seek rule.judge rule.nextCandidate cap.toNat candidate

/-- The next occurrence after a moment. -/
def next (rule : Rule) (after : Moment) (cap : Int := defaultCap) :
    Except Fault (Finding Moment) :=
  match rule.startsAfter after with
  | .error fault => .error fault
  | .ok true => rule.anchor.map .found
  | .ok false => rule.searchFrom after cap

/-- The notice of a search after a moment that gave up. -/
def searchNotice (rule : Rule) (after : Moment) (cap : Int) : Notice :=
  .occurrenceSearch (Frequency.displayHeld rule.frequency) after cap

/-- The reply to a request for the next occurrence. -/
def nextReply (rule : Rule) (after : Moment) (cap : Int := defaultCap) :
    Reply (Option Moment) :=
  match rule.next after cap with
  | .error fault => .ofFaulting (.error fault)
  | .ok finding =>
      { outcome := .ok finding.toOption
        notices :=
          if finding.hasGivenUp then [rule.searchNotice after cap] else [] }

/-! ## The chain of occurrences -/

/-- The last occurrence that was given, if any, and how many were. -/
structure Progress where
  last : Option Moment := none
  given : Nat := 0
deriving Repr

/-- The microseconds between an occurrence and the search for the next. -/
def resumeTicks : Nat := 1000

/-- Where the next search begins: at the start, or after the last occurrence. -/
def cursor (rule : Rule) (progress : Progress) : Except Fault (Held Moment) :=
  match progress.last with
  | none => .ok rule.start
  | some last => (stepped (last.addTicks resumeTicks)).map .proper

/--
What a chain comes to that has no moment to begin at.  It ends if its start is
not before its deadline in the order of values, and cannot be searched
otherwise.
-/
def advanceAstray {α : Type} (rule : Rule) (start : Value) :
    Except Fault (Finding α) :=
  match rule.deadline with
  | some (.odd deadline) =>
      match start.compare? deadline with
      | some .eq => .ok .ended
      | some .gt => .ok .ended
      | _ => .error .wrongType
  | _ => .error .wrongType

/-- The next occurrence in the chain after a moment. -/
def advanceFrom (rule : Rule) (given : Nat) (after : Moment) :
    Except Fault (Finding (Moment × Progress)) :=
  match rule.exceedsDeadline after with
  | .error fault => .error fault
  | .ok true => .ok .ended
  | .ok false =>
      (rule.next after).map fun finding =>
        finding.map fun occurrence =>
          (occurrence, ⟨some occurrence, given + 1⟩)

/-- The next occurrence in the chain. -/
def advance (rule : Rule) : Advance Fault Progress Moment := fun progress =>
  match rule.cursor progress with
  | .error fault => .error fault
  | .ok cursor =>
      match rule.isExhausted progress.given with
      | .error fault => .error fault
      | .ok true => .ok .ended
      | .ok false =>
          match cursor with
          | .proper after => rule.advanceFrom progress.given after
          | .odd start => rule.advanceAstray start

/-- The notices of a chain whose search at some progress gave up. -/
def chainNotices (rule : Rule) : Option Progress → List Notice
  | none => []
  | some progress =>
      match rule.cursor progress with
      | .ok (.proper after) => [rule.searchNotice after defaultCap]
      | _ => []

/-- The first occurrences after the start, at most `limit` of them. -/
def allOccurrences (rule : Rule) (limit : Int := defaultLimit) :
    Reply (List Moment) :=
  if greatestLimit < limit then .ofFaulting (.error .limitTooLarge)
  else
    match collect rule.advance limit.toNat {} with
    | .error fault => .ofFaulting (.error fault)
    | .ok drawn =>
        { outcome := .ok drawn.values
          notices := rule.chainNotices drawn.stuckAt }

end Rule

end Timetable
