/-!
# Bounded search along a path

A search tests one candidate after the other.  A candidate is accepted, passed
over, or ends the search; after a candidate that was passed over the search
takes one step, which may fail.  A budget bounds the number of candidates that
are tested: when it is used up the search gives up, and this outcome is kept
apart from a search that ended.

`seek` takes the step after the last candidate of its budget too, so a step
that fails there is still seen.
-/

namespace Timetable

/-- How a search can end without failing. -/
inductive Finding (α : Type) where
  /-- This was found. -/
  | found (result : α)
  /-- There is nothing to find. -/
  | ended
  /-- Nothing was found within the budget. -/
  | gaveUp
deriving DecidableEq, Repr

namespace Finding

variable {α β : Type}

/-- Changes what was found. -/
def map (change : α → β) : Finding α → Finding β
  | found result => .found (change result)
  | ended => .ended
  | gaveUp => .gaveUp

/-- What was found, if anything was. -/
def toOption : Finding α → Option α
  | found result => some result
  | ended => none
  | gaveUp => none

/-- Whether the search gave up. -/
def hasGivenUp : Finding α → Bool
  | gaveUp => true
  | _ => false

end Finding

/-- What a search makes of one candidate. -/
inductive Verdict where
  | accept
  | pass
  | stop
deriving DecidableEq, Repr

variable {α ε : Type}

/-- Tests at most `budget` candidates, the first of them `candidate`. -/
@[specialize]
def seek (judge : α → Except ε Verdict) (step : α → Except ε α) :
    (budget : Nat) → (candidate : α) → Except ε (Finding α)
  | 0, _ => .ok .gaveUp
  | budget + 1, candidate =>
      match judge candidate with
      | .error fault => .error fault
      | .ok .accept => .ok (.found candidate)
      | .ok .stop => .ok .ended
      | .ok .pass =>
          match step candidate with
          | .error fault => .error fault
          | .ok next => seek judge step budget next

end Timetable
