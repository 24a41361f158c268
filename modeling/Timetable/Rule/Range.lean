import Timetable.Rule.Search

/-!
# Occurrences in a range

The occurrences between two moments, both included, are gathered along the
candidates from the later one of the start of the rule and the start of the
range.  Gathering ends after the range, after the deadline, or with as many
occurrences as asked for; it tests at most ten candidates for each of those.
-/

namespace Timetable

open Timetable.Calendar

namespace Rule

/-- The number of occurrences gathered if nothing else is said. -/
def defaultRangeLimit : Int := 1000

/-- The number of candidates tested for every occurrence asked for. -/
def candidatesPerOccurrence : Int := 10

/-- The later one of the start and a moment; the start if they are the same. -/
def laterOfStart (rule : Rule) (moment : Moment) : Except Fault Moment :=
  match rule.start with
  | .proper start =>
      (precedes start moment).map fun earlier =>
        if earlier then moment else start
  | .odd _ => .error .wrongType

/-- Whether the candidate `cursor` is to be gathered, from `first` on. -/
def isGathered (rule : Rule) (first cursor : Moment) : Except Fault Bool :=
  match precedes cursor first with
  | .error fault => .error fault
  | .ok true => .ok false
  | .ok false => rule.isMatch cursor

/-- What becomes of one candidate, with room for some more occurrences. -/
def rangeVerdict (rule : Rule) (first last : Moment) (room : Nat)
    (cursor : Moment) : Except Fault Verdict :=
  match precedes last cursor with
  | .error fault => .error fault
  | .ok past =>
      if past || room == 0 then .ok .stop
      else
        match rule.exceedsDeadline cursor with
        | .error fault => .error fault
        | .ok true => .ok .stop
        | .ok false =>
            (rule.isGathered first cursor).map fun isGathered =>
              if isGathered then .accept else .pass

/-- The occurrences gathered, and whether all candidates were used up. -/
structure Gathering where
  occurrences : List Moment
  usedUp : Bool
deriving Repr

/-- Gathers onto the occurrences gathered before, in reverse order. -/
def gatherOnto (rule : Rule) (first last : Moment) :
    (budget room : Nat) → (cursor : Moment) → (before : List Moment) →
      Except Fault Gathering
  | 0, _, _, before => .ok ⟨before.reverse, true⟩
  | budget + 1, room, cursor, before =>
      match rule.rangeVerdict first last room cursor with
      | .error fault => .error fault
      | .ok .stop => .ok ⟨before.reverse, false⟩
      | .ok .accept =>
          match rule.nextCandidate cursor with
          | .error fault => .error fault
          | .ok next =>
              rule.gatherOnto first last budget (room - 1) next
                (cursor :: before)
      | .ok .pass =>
          match rule.nextCandidate cursor with
          | .error fault => .error fault
          | .ok next => rule.gatherOnto first last budget room next before

/-- The occurrences between two moments, at most `limit` of them. -/
def gather (rule : Rule) (first last : Moment) (limit : Int) :
    Except Fault Gathering :=
  match rule.laterOfStart first with
  | .error fault => .error fault
  | .ok cursor =>
      rule.gatherOnto first last (limit * candidatesPerOccurrence).toNat
        limit.toNat cursor []

/-- The notice of a range whose candidates were used up. -/
def rangeNotices (limit : Int) (gathering : Gathering) : List Notice :=
  if gathering.usedUp ∧ 0 < limit then
    [.rangeSearch (limit * candidatesPerOccurrence)
      gathering.occurrences.length]
  else []

/-- The reply to a request for the occurrences between two moments. -/
def occurrencesBetween (rule : Rule) (first last : Moment)
    (limit : Int := defaultRangeLimit) : Reply (List Moment) :=
  match rule.gather first last limit with
  | .error fault => .ofFaulting (.error fault)
  | .ok gathering =>
      { outcome := .ok gathering.occurrences
        notices := rangeNotices limit gathering }

end Rule

end Timetable
