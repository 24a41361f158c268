import Timetable.Rule.Basic

/-!
# The days of a rule

A rule matches whole days: the clock time of a moment does not count.

* A daily rule matches the days at a multiple of the interval from the start.
* A weekly rule matches the selected weekdays, or the weekday of the start, in
  every `interval`-th week; weeks are counted in sevens of days from the start.
* A monthly rule matches the selected days of every `interval`-th month.
* A yearly rule matches the selected days of the selected months in every
  `interval`-th year.

A distance is a multiple of a negative interval if it is one of its opposite,
and zero is a fault where it is reached.  An occurrence is a moment from the
start to the deadline on a day that matches.
-/

namespace Timetable

open Timetable.Calendar

namespace Rule

/-- Whether a distance is a multiple of the interval. -/
def onInterval (rule : Rule) (distance : Int) : Except Fault Bool :=
  match rule.interval with
  | .proper interval =>
      if interval = 0 then .error .zeroInterval
      else .ok (distance.fmod interval == 0)
  | .odd (.fractional interval) =>
      if interval.isZero then .error .zeroInterval
      else .ok (interval.divides distance)
  | .odd _ => .error .wrongType

/-- Whether a distance is a multiple of the interval and not negative. -/
def onIntervalFromStart (rule : Rule) (distance : Int) : Except Fault Bool :=
  if distance < 0 then .ok false else rule.onInterval distance

/-- Whether a weekly rule admits the weekday of a moment. -/
def selectsWeekday (rule : Rule) (moment : Moment) : Except Fault Bool :=
  if rule.byWeekday.isSet then rule.byWeekday.holds moment.weekday
  else rule.anchor.map fun start => moment.weekday == start.weekday

/-- Whether the day of a moment matches at a given frequency. -/
def isMatchAt (rule : Rule) (moment : Moment) :
    Frequency → Except Fault Bool
  | .daily => do
      let start ← rule.anchor
      rule.onIntervalFromStart (start.daysBetween moment)
  | .weekly => do
      let onWeekday ← rule.selectsWeekday moment
      if onWeekday then
        let start ← rule.anchor
        rule.onInterval ((start.daysBetween moment).fdiv 7)
      else .ok false
  | .monthly => do
      let start ← rule.anchor
      let inPeriod ← rule.onIntervalFromStart (start.monthsBetween moment)
      if inPeriod then rule.byMonthDay.admits moment.date.day
      else .ok false
  | .yearly => do
      let start ← rule.anchor
      let inPeriod ← rule.onIntervalFromStart (start.yearsBetween moment)
      if inPeriod then
        let inMonth ← rule.byMonth.admits moment.date.month
        if inMonth then rule.byMonthDay.admits moment.date.day
        else .ok false
      else .ok false

/-- Whether the day of a moment matches. -/
def isMatch (rule : Rule) (moment : Moment) : Except Fault Bool :=
  match Frequency.require rule.frequency with
  | .error fault => .error fault
  | .ok frequency => rule.isMatchAt moment frequency

/-- Whether a moment is an occurrence. -/
def isOccurrence (rule : Rule) (moment : Moment) : Except Fault Bool :=
  match rule.precedesStart moment with
  | .error fault => .error fault
  | .ok true => .ok false
  | .ok false =>
      match rule.exceedsDeadline moment with
      | .error fault => .error fault
      | .ok true => .ok false
      | .ok false => rule.isMatch moment

end Rule

end Timetable
