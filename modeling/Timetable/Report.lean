import Timetable.Calendar.Shift
import Timetable.Value.Basic

/-!
# What a call reports

A call answers a value or fails, and may leave notices beside its answer.

There are two kinds of failure.  A `Problem` says what is wrong with an
expression or a rule, in words for the person who wrote it, and names the
offending field and value.  A `Fault` is everything else: the calendar was
left, two moments do not compare, or a rule that was never validated has a
field that cannot be used.

A `Notice` says that a search gave up.  Giving up is no failure; the search
answers as if there were nothing to find.
-/

namespace Timetable

open Timetable.Calendar Timetable.Text

/-! ## Problems -/

/-- What a problem is about. -/
inductive Subject where
  | cron
  | rule
deriving DecidableEq, Repr

/-- The name of a subject. -/
def Subject.name : Subject → String
  | .cron => "cron"
  | .rule => "rule"

/-- Something wrong with an expression or a rule. -/
structure Problem where
  subject : Subject
  message : String
  field : Option String := none
  value : Value := .null
deriving Repr

/-- The problem on one line, with its field and value if it has a field. -/
def Problem.summary (problem : Problem) : String :=
  match problem.field with
  | some field =>
      "error: " ++ problem.message ++ " (" ++ field ++ "=" ++
        problem.value.literal ++ ")"
  | none => "error: " ++ problem.message

/-! ## Faults -/

/-- A failure that is not a problem of what was written. -/
inductive Fault where
  /-- A step left the calendar. -/
  | range (error : RangeError)
  /-- A distance was to be divided by an interval of zero. -/
  | zeroInterval
  /-- A moment with an offset was compared with one without. -/
  | mixedOffsets
  /-- A weekday or month has no name. -/
  | noSuchName
  /-- A frequency is none of the four. -/
  | unknownFrequency
  /-- A numeral has too many digits. -/
  | numeralTooLong
  /-- A number of results does not fit a signed word of 64 bits. -/
  | limitTooLarge
  /-- A set has more numbers than a signed word of 64 bits can count. -/
  | tooManyNumbers
  /-- A clock was read once too often. -/
  | clockExhausted
  /-- No sequence was opened under a name. -/
  | unknownSequence
  /-- A field holds a value of a kind that cannot be used there. -/
  | wrongType
  /-- A date was asked of something that is no moment. -/
  | notAMoment
deriving DecidableEq, Repr

/-- A problem or a fault. -/
inductive Failure where
  | problem (problem : Problem)
  | fault (fault : Fault)
deriving Repr

/-- Takes a problem for no answer.  A fault is still a fault. -/
def lenient {α : Type} : Except Failure α → Except Fault (Option α)
  | .ok answer => .ok (some answer)
  | .error (.problem _) => .ok none
  | .error (.fault fault) => .error fault

/-- The order of two moments; a fault if they do not compare. -/
def precedes (left right : Moment) : Except Fault Bool :=
  match left.precedes? right with
  | some earlier => .ok earlier
  | none => .error .mixedOffsets

/-- A calendar step whose failure is a fault. -/
def stepped (result : Except RangeError Moment) : Except Fault Moment :=
  result.mapError .range

/-! ## Notices -/

/-- A search that gave up, with the number of candidates it was allowed. -/
inductive Notice where
  /-- A search for a minute that matches an expression. -/
  | patternSearch (expression : String) (cap : Int)
  /-- A search for the next occurrence of a rule. -/
  | occurrenceSearch (frequency : String) (after : Moment) (cap : Int)
  /-- A search for the occurrences of a rule in a range. -/
  | rangeSearch (cap : Int) (found : Nat)
deriving DecidableEq, Repr

/-- The wording of a notice. -/
def Notice.message : Notice → String
  | .patternSearch expression cap =>
      "cron search for " ++ quoted expression ++ " gave up after " ++
        integerText cap ++ " candidates"
  | .occurrenceSearch frequency after cap =>
      "no " ++ frequency ++ " occurrence after " ++ after.textWith " " ++
        " within " ++ integerText cap ++ " candidates"
  | .rangeSearch cap found =>
      "occurrence range search stopped after " ++ integerText cap ++
        " candidates with " ++ toString found ++ " results"

/-- The answer or the failure of a call, and the notices that it left. -/
structure Reply (α : Type) where
  outcome : Except Failure α
  notices : List Notice := []

namespace Reply

variable {α β : Type}

/-- The reply of a call that may fault and leaves no notice. -/
def ofFaulting (outcome : Except Fault α) : Reply α where
  outcome := outcome.mapError .fault

/-- The reply of a call that failed on what was written. -/
def ofProblem (problem : Problem) : Reply α where
  outcome := .error (.problem problem)

/-- The reply of a call that cannot fail. -/
def ok (answer : α) : Reply α where
  outcome := .ok answer

/-- Changes the answer of a reply. -/
def map (change : α → β) (reply : Reply α) : Reply β where
  outcome := reply.outcome.map change
  notices := reply.notices

end Reply

end Timetable
