import Timetable.Rule.Basic

/-!
# Candidates

A search for occurrences goes from candidate to candidate.  Where the
selections of a rule can pick several days out of one period, the candidates
are all days; otherwise they are one period apart.
-/

namespace Timetable

open Timetable.Calendar

/-- How a search goes from one candidate to the next. -/
inductive StepStrategy where
  /-- One day on. -/
  | dayScan
  /-- The interval of the rule on. -/
  | jump
deriving DecidableEq, Repr

/-- The name of a strategy. -/
def StepStrategy.name : StepStrategy → String
  | .dayScan => "day_scan"
  | .jump => "jump"

namespace Rule

/-- Whether the selections pick days out of a period of the frequency. -/
def picksDays (rule : Rule) : Frequency → Bool
  | .daily => true
  | .weekly => rule.byWeekday.isSet
  | .monthly => rule.byMonthDay.isSet
  | .yearly => rule.byMonth.isSet || rule.byMonthDay.isSet

/-- How a search for occurrences of the rule moves. -/
def strategy (rule : Rule) : Except Fault StepStrategy :=
  (Frequency.require rule.frequency).map fun frequency =>
    if rule.picksDays frequency then .dayScan else .jump

/--
The moment one interval on.  An interval with a part after the point makes
sense for weeks only, which have a fixed length.
-/
def jump (rule : Rule) (frequency : Frequency) (candidate : Moment) :
    Except Fault Moment :=
  match rule.interval, frequency with
  | .proper interval, _ => stepped (candidate.add interval frequency.unit)
  | .odd (.fractional interval), .weekly =>
      stepped (candidate.addTicks (interval.times weekTicks))
  | .odd _, _ => .error .wrongType

/-- The candidate after a candidate. -/
def nextCandidate (rule : Rule) (candidate : Moment) : Except Fault Moment :=
  match Frequency.require rule.frequency with
  | .error fault => .error fault
  | .ok frequency =>
      if rule.picksDays frequency then stepped (candidate.addDays 1)
      else rule.jump frequency candidate

/-- A number of candidates after a candidate. -/
def candidatesAfter (rule : Rule) :
    (candidate : Moment) → (count : Nat) → Except Fault (List Moment)
  | _, 0 => .ok []
  | candidate, count + 1 => do
      let next ← rule.nextCandidate candidate
      let rest ← rule.candidatesAfter next count
      .ok (next :: rest)

end Rule

end Timetable
