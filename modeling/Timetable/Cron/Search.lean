import Timetable.Chain
import Timetable.Cron.Pattern

/-!
# The minutes that a pattern admits

The next minute of a pattern is the first one after the minute of a moment
that the pattern admits, the previous one the last before it.  The searches go
minute by minute along the calendar and test at most as many minutes as they
are allowed; the number allowed may be zero or negative.  They fault where a
step would leave the calendar.

Chained searches enumerate the minutes after a moment.
-/

namespace Timetable.Cron

open Timetable.Calendar

/-- The number of minutes that a search tests if nothing else is said: a year. -/
def defaultCap : Int := 525600

/-- The two directions along the calendar. -/
inductive Direction where
  | forward
  | backward
deriving DecidableEq, Repr

/-- The neighbour of a minute in a direction. -/
def Direction.step (direction : Direction) (minute : Minute) :
    Except Fault Minute :=
  let neighbour :=
    match direction with
    | .forward => minute.next?
    | .backward => minute.previous?
  match neighbour with
  | some neighbour => .ok neighbour
  | none => .error (.range .pastEdge)

namespace Pattern

/-- Accepts the minutes that the pattern admits. -/
def judge (pattern : Pattern) (minute : Minute) : Except Fault Verdict :=
  .ok (if pattern.admits minute then .accept else .pass)

/-- Searches in a direction, from the neighbour of the minute of a moment. -/
def nearest (direction : Direction) (pattern : Pattern) (origin : Moment)
    (cap : Int) : Except Fault (Finding Moment) :=
  match direction.step origin.minute with
  | .error fault => .error fault
  | .ok start =>
      match seek pattern.judge direction.step cap.toNat start with
      | .error fault => .error fault
      | .ok finding =>
          .ok (finding.map fun minute => .ofMinute minute origin.offset)

/-- The first admitted minute after the minute of a moment. -/
def next (pattern : Pattern) (after : Moment) (cap : Int := defaultCap) :
    Except Fault (Finding Moment) :=
  pattern.nearest .forward after cap

/-- The last admitted minute before the minute of a moment. -/
def previous (pattern : Pattern) (before : Moment)
    (cap : Int := defaultCap) : Except Fault (Finding Moment) :=
  pattern.nearest .backward before cap

/-- The notice of a search that gave up. -/
def notices (pattern : Pattern) (cap : Int) (gaveUp : Bool) : List Notice :=
  if gaveUp then [.patternSearch pattern.expression cap] else []

/-- The reply to a search. -/
def searchReply (pattern : Pattern) (cap : Int)
    (result : Except Fault (Finding Moment)) : Reply (Option Moment) :=
  match result with
  | .error fault => .ofFaulting (.error fault)
  | .ok finding =>
      { outcome := .ok finding.toOption
        notices := pattern.notices cap finding.hasGivenUp }

/-! ## Enumeration -/

/-- One link of the chain of admitted minutes: the state is the last one. -/
def advance (pattern : Pattern) : Advance Fault Moment Moment := fun after =>
  match pattern.next after with
  | .error fault => .error fault
  | .ok finding => .ok (finding.map fun minute => (minute, minute))

/-- Up to `count` admitted minutes after the minute of a moment. -/
def nextMany (pattern : Pattern) (count : Int) (after : Moment) :
    Reply (List Moment) :=
  if greatestLimit < count then .ofFaulting (.error .limitTooLarge)
  else
    match collect pattern.advance count.toNat after with
    | .error fault => .ofFaulting (.error fault)
    | .ok drawn =>
        { outcome := .ok drawn.values
          notices := pattern.notices defaultCap drawn.stuckAt.isSome }

end Pattern

/-! ## Written or compiled patterns -/

/-- An expression that is yet to be compiled, or a pattern. -/
inductive Source where
  | written (expression : String)
  | compiled (pattern : Pattern)
deriving Repr

namespace Source

/-- The pattern of a source; an expression that is wrong has none. -/
def resolve : Source → Except Fault (Option Pattern)
  | written expression => Pattern.parse? expression
  | compiled pattern => .ok (some pattern)

/-- Answers by the pattern of a source, or by `missing` without a pattern. -/
def answer {α : Type} (source : Source) (missing : α)
    (ask : Pattern → Reply α) : Reply α :=
  match source.resolve with
  | .error fault => .ofFaulting (.error fault)
  | .ok none => .ok missing
  | .ok (some pattern) => ask pattern

/-- Whether a moment matches; nothing matches an expression that is wrong. -/
def isMatch (source : Source) (moment : Moment) : Except Fault Bool :=
  source.resolve.map fun pattern => pattern.any (·.isMatch moment)

/-- The first admitted minute after the minute of a moment. -/
def next (source : Source) (after : Moment) (cap : Int) :
    Reply (Option Moment) :=
  source.answer none fun pattern =>
    pattern.searchReply cap (pattern.next after cap)

/-- The last admitted minute before the minute of a moment. -/
def previous (source : Source) (before : Moment) (cap : Int) :
    Reply (Option Moment) :=
  source.answer none fun pattern =>
    pattern.searchReply cap (pattern.previous before cap)

/--
Up to `count` admitted minutes after the minute of a moment.  A source is not
looked at if no minute is asked for.
-/
def nextMany (source : Source) (count : Int) (after : Moment) :
    Reply (List Moment) :=
  if greatestLimit < count then .ofFaulting (.error .limitTooLarge)
  else if count ≤ 0 then .ok []
  else source.answer [] fun pattern => pattern.nextMany count after

end Source

end Timetable.Cron
