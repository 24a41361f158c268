import Timetable.Bounds
import Timetable.Rule.Basic

/-!
# Drafts: rules as written

A draft has the fields of a rule, but what stands in them may be anything.

`Draft.read` takes a draft at its word.  It never fails: a field that holds a
value of an odd kind still does so in the rule.

`Draft.validate` accepts the drafts that make sense, as plans, and reports the
first problem of any other, in the order frequency, start, interval, count,
deadline, weekdays, days of the month, months.  A plan has contents of the right
kind in every field.

`Draft.check` also writes the message of that problem, which is a fault if the
message would show a number with too many digits to be written.
-/

namespace Timetable

open Timetable.Calendar Timetable.Text

/-- A rule as written. -/
structure Draft where
  frequency : Held Frequency
  start : Value
  interval : Value := .whole 1
  deadline : Value := .null
  count : Value := .null
  byWeekday : Value := .list []
  byMonthDay : Value := .list []
  byMonth : Value := .list []
deriving Repr

/-! ## Reading -/

/-- The moment that a value is. -/
def Value.moment? : Value → Option Moment
  | .moment reading => some reading
  | _ => none

/-- The integer that a value is; a truth value passes for 1 or 0. -/
def Value.integer? : Value → Option Int
  | .whole number => some number
  | .truth holds => some (if holds then 1 else 0)
  | _ => none

/-- The integers that a list is equal to. -/
def Value.integers? : Value → Option (List Int)
  | .list items => items.mapM Value.toInt?
  | _ => none

/-- The rule that a draft describes if it is taken at its word. -/
def Draft.read (draft : Draft) : Rule where
  frequency := Frequency.resolve draft.frequency
  start := .ofValue Value.moment? draft.start
  interval := .ofValue Value.integer? draft.interval
  deadline := Held.ofValue? Value.moment? draft.deadline
  count := Held.ofValue? Value.integer? draft.count
  byWeekday := .ofValue Value.integers? draft.byWeekday
  byMonthDay := .ofValue Value.integers? draft.byMonthDay
  byMonth := .ofValue Value.integers? draft.byMonth

/-! ## Plans -/

/-- A rule with contents of the right kind in every field. -/
structure Plan where
  frequency : Frequency
  start : Moment
  interval : Int := 1
  deadline : Option Moment := none
  count : Option Int := none
  byWeekday : List Int := []
  byMonthDay : List Int := []
  byMonth : List Int := []
deriving DecidableEq, Repr

/-- The rule of a plan. -/
def Plan.rule (plan : Plan) : Rule where
  frequency := .proper plan.frequency
  start := .proper plan.start
  interval := .proper plan.interval
  deadline := plan.deadline.map .proper
  count := plan.count.map .proper
  byWeekday := .proper plan.byWeekday
  byMonthDay := .proper plan.byMonthDay
  byMonth := .proper plan.byMonth

/-! ## Problems of a draft -/

/-- The weekdays that can be selected. -/
def weekdayBounds : Bounds := ⟨"by_weekday", 0, 6⟩

/-- The days of the month that can be selected. -/
def monthDayBounds : Bounds := ⟨"by_month_day", 1, 31⟩

/-- The months that can be selected. -/
def monthBounds : Bounds := ⟨"by_month", 1, 12⟩

/-- What can be wrong with a draft. -/
inductive RuleError where
  /-- The frequency is none of the four. -/
  | frequency (written : Value)
  /-- The start is no moment. -/
  | start (written : Value)
  /-- The interval is no integer from 1 on. -/
  | interval (written : Value)
  /-- The count is given and is no integer from 1 on. -/
  | count (written : Value)
  /-- The deadline is given and is no moment. -/
  | deadlineKind (written : Value)
  /-- One of deadline and start has an offset and the other has none. -/
  | deadlineOffset (deadline : Moment)
  /-- The deadline is not later than the start. -/
  | deadlineOrder (deadline : Moment)
  /-- A selection is no list. -/
  | selection (bounds : Bounds) (written : Value)
  /-- A member of a selection is no integer within the bounds. -/
  | selected (bounds : Bounds) (written : Value)
deriving Repr

/-- The problem that an error of a draft amounts to. -/
def RuleError.problem : RuleError → Problem
  | frequency written =>
      { subject := .rule
        message := "unknown frequency: " ++ written.literal
        field := some "frequency"
        value := written }
  | start written =>
      { subject := .rule
        message := "start_date must be a datetime"
        field := some "start_date"
        value := written }
  | interval written =>
      { subject := .rule
        message := "interval must be >= 1, got " ++ written.display
        field := some "interval"
        value := written }
  | count written =>
      { subject := .rule
        message := "count must be >= 1, got " ++ written.display
        field := some "count"
        value := written }
  | deadlineKind written =>
      { subject := .rule
        message := "until must be a datetime"
        field := some "until"
        value := written }
  | deadlineOffset deadline =>
      { subject := .rule
        message :=
          "until and start_date must both be naive or both be aware"
        field := some "until"
        value := .moment deadline }
  | deadlineOrder deadline =>
      { subject := .rule
        message := "until must be after start_date"
        field := some "until"
        value := .moment deadline }
  | selection bounds written =>
      { subject := .rule
        message := bounds.name ++ " must be a tuple of ints"
        field := some bounds.name
        value := written }
  | selected bounds written =>
      { subject := .rule
        message :=
          bounds.name ++ " must be " ++ integerText bounds.low ++ "-" ++
            integerText bounds.high ++ ", got " ++ written.display
        field := some bounds.name
        value := written }

/-- Whether the message of an error would show a number too long for that. -/
def RuleError.isUnwritable : RuleError → Bool
  | frequency written | interval written | count written
  | selected _ written => written.isOverlong
  | start _ | deadlineKind _ | deadlineOffset _ | deadlineOrder _
  | selection _ _ => false

/-- What an error of a draft leads to: its problem, if that can be written. -/
def RuleError.failure (error : RuleError) : Failure :=
  if error.isUnwritable then .fault .numeralTooLong
  else .problem error.problem

/-! ## Validation -/

/-- The integer of a value that is one and is at least 1. -/
def Value.positive? : Value → Option Int
  | .whole number => if 1 ≤ number then some number else none
  | _ => none

/-- The frequency must be one of the four. -/
def validateFrequency (entry : Held Frequency) :
    Except RuleError Frequency :=
  match Frequency.resolve entry with
  | .proper frequency => .ok frequency
  | .odd written => .error (.frequency written)

/-- The start must be a moment. -/
def validateStart (written : Value) : Except RuleError Moment :=
  match written.moment? with
  | some start => .ok start
  | none => .error (.start written)

/-- The interval must be an integer from 1 on. -/
def validateInterval (written : Value) : Except RuleError Int :=
  match written.positive? with
  | some interval => .ok interval
  | none => .error (.interval written)

/-- A count that is given must be an integer from 1 on. -/
def validateCount (written : Value) : Except RuleError (Option Int) :=
  match written with
  | .null => .ok none
  | _ =>
      match written.positive? with
      | some count => .ok (some count)
      | none => .error (.count written)

/-- A deadline that is given must compare with the start and be later. -/
def validateDeadline (start : Moment) (written : Value) :
    Except RuleError (Option Moment) :=
  match written with
  | .null => .ok none
  | .moment deadline =>
      match start.precedes? deadline with
      | none => .error (.deadlineOffset deadline)
      | some true => .ok (some deadline)
      | some false => .error (.deadlineOrder deadline)
  | _ => .error (.deadlineKind written)

/-- The members of a selection must be integers within its bounds. -/
def validateSelected (bounds : Bounds) : List Value → Except RuleError (List Int)
  | [] => .ok []
  | .whole number :: rest =>
      if bounds.Contains number then
        (validateSelected bounds rest).map (number :: ·)
      else .error (.selected bounds (.whole number))
  | written :: _ => .error (.selected bounds written)

/-- A selection must be a list. -/
def validateSelection (bounds : Bounds) (written : Value) :
    Except RuleError (List Int) :=
  match written with
  | .list items => validateSelected bounds items
  | _ => .error (.selection bounds written)

namespace Draft

/-- The plan that a draft describes, or the first thing wrong with it. -/
def validate (draft : Draft) : Except RuleError Plan := do
  let frequency ← validateFrequency draft.frequency
  let start ← validateStart draft.start
  let interval ← validateInterval draft.interval
  let count ← validateCount draft.count
  let deadline ← validateDeadline start draft.deadline
  let byWeekday ← validateSelection weekdayBounds draft.byWeekday
  let byMonthDay ← validateSelection monthDayBounds draft.byMonthDay
  let byMonth ← validateSelection monthBounds draft.byMonth
  .ok
    { frequency := frequency
      start := start
      interval := interval
      deadline := deadline
      count := count
      byWeekday := byWeekday
      byMonthDay := byMonthDay
      byMonth := byMonth }

/-- The plan that a draft describes, or what the first error of it leads to. -/
def check (draft : Draft) : Except Failure Plan :=
  draft.validate.mapError RuleError.failure

/-- Whether a draft passes its check; it does not if that ends in a problem. -/
def passes (draft : Draft) : Except Fault Bool :=
  (lenient draft.check).map Option.isSome

end Draft

end Timetable
