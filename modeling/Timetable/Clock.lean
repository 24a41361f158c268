import Timetable.Report

/-!
# Clocks and open sequences

A session reads the time from a clock when a call does not say from where to
search.  The clock of a session is a finite list of readings that are used up
in order; reading past the last one is a fault, which counts as a reading too.

A session also holds the sequences that were opened in it, each under a name.
Opening a name again replaces its sequence.
-/

namespace Timetable

open Timetable.Calendar

/-- The readings of a clock and how often it was read. -/
structure Clock where
  readings : List Moment
  used : Nat := 0
deriving Repr

namespace Clock

/-- Reads the clock. -/
def read (clock : Clock) : Except Fault Moment × Clock :=
  let reading :=
    match clock.readings[clock.used]? with
    | some moment => .ok moment
    | none => .error .clockExhausted
  (reading, { clock with used := clock.used + 1 })

/-- Takes the given moment, or reads the clock if none is given. -/
def readUnless (clock : Clock) : Option Moment → Except Fault Moment × Clock
  | some moment => (.ok moment, clock)
  | none => clock.read

end Clock

/-- The sequences that were opened, by their names. -/
abbrev OpenSequences (α : Type) := List (String × α)

namespace OpenSequences

variable {α : Type}

/-- The sequence under a name. -/
def get? (sequences : OpenSequences α) (name : String) : Option α :=
  sequences.lookup name

/-- Puts a sequence under a name. -/
def put (name : String) (opened : α) :
    OpenSequences α → OpenSequences α
  | [] => [(name, opened)]
  | (other, sequence) :: rest =>
      if other = name then (name, opened) :: rest
      else (other, sequence) :: put name opened rest

end OpenSequences

end Timetable
