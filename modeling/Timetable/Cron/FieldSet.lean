import Timetable.Cron.FieldTerm

/-!
# The numbers that a field stands for

A term and the bounds of its field determine a finite set of integers, held in
ascending order without repetition, together with the kind of the term.
`FieldSet.parse` goes from the token of a field to its set;
`FieldSet.parse?` is the same, but tells nothing of what was wrong.

The numbers of a set are listed.  No list has more than `sizeLimit` members, so
a star, a range or a step is refused if it stands for more numbers than that.
Whether there is memory for a shorter list is left out.
-/

namespace Timetable.Cron

open Timetable.Text

/-- The kinds of fields. -/
inductive FieldKind where
  | all
  | specific
  | range
  | step
  | list
deriving DecidableEq, Repr

/-- The name of a kind. -/
def FieldKind.name : FieldKind → String
  | .all => "all"
  | .specific => "specific"
  | .range => "range"
  | .step => "step"
  | .list => "list"

/-- The greatest number of members that a list can have. -/
def sizeLimit : Nat := 9223372036854775807

/-- How many numbers `first`, `first + step`, … do not exceed `last`. -/
def progressionSize (first last : Int) (step : Nat) : Nat :=
  if last < first then 0 else (last - first).toNat / step + 1

/-- The numbers `first`, `first + step`, … that do not exceed `last`. -/
def progression (first last : Int) (step : Nat) : List Int :=
  (List.range (progressionSize first last step)).map fun (index : Nat) =>
    first + index * step

/-- Puts a number into an ascending list, unless it is already there. -/
def insertOnce (value : Int) : List Int → List Int
  | [] => [value]
  | head :: rest =>
      if value < head then value :: head :: rest
      else if value = head then head :: rest
      else head :: insertOnce value rest

/-- The numbers of a list in ascending order, each of them once. -/
def ascending (values : List Int) : List Int :=
  values.foldr insertOnce []

/-- The kind of a term. -/
def FieldTerm.kind : FieldTerm → FieldKind
  | .any => .all
  | .single _ => .specific
  | .range _ _ => .range
  | .members _ => .list
  | .anyStep _ => .step
  | .fromStep _ _ => .step
  | .rangeStep _ _ _ => .step

/-- The numbers that a term stands for in a field with the given bounds. -/
def FieldTerm.values (bounds : Bounds) : FieldTerm → List Int
  | .any => progression bounds.low bounds.high 1
  | .single value => [(value : Int)]
  | .range first last => progression first last 1
  | .members values => ascending (values.map Int.ofNat)
  | .anyStep step => progression bounds.low bounds.high step
  | .fromStep first step => progression first bounds.high step
  | .rangeStep first last step => progression first last step

/--
How many numbers a term counts up.  It counts up none if it is a number or a
list of numbers.
-/
def FieldTerm.rangeSize (bounds : Bounds) : FieldTerm → Nat
  | .any => progressionSize bounds.low bounds.high 1
  | .single _ => 0
  | .range first last => progressionSize first last 1
  | .members _ => 0
  | .anyStep step => progressionSize bounds.low bounds.high step
  | .fromStep first step => progressionSize first bounds.high step
  | .rangeStep first last step => progressionSize first last step

/-- The kind of a field and its numbers in ascending order. -/
structure FieldSet where
  kind : FieldKind
  values : List Int
deriving DecidableEq, Repr

namespace FieldSet

/-- Whether a number belongs to the set. -/
def contains (set : FieldSet) (value : Int) : Bool :=
  set.values.contains value

/-- The number of members. -/
def size (set : FieldSet) : Nat := set.values.length

/-- The set of a term. -/
def ofTerm (bounds : Bounds) (term : FieldTerm) : FieldSet :=
  ⟨term.kind, term.values bounds⟩

/-- Reads the token of a field. -/
def parse (bounds : Bounds) (token : String) :
    Except FieldError FieldSet := do
  let term ← FieldTerm.parse token.toList
  term.check bounds
  if sizeLimit < term.rangeSize bounds then .error .tooMany
  else .ok (.ofTerm bounds term)

/-- Reads the token of a field and answers nothing if there is a problem. -/
def parse? (bounds : Bounds) (token : String) :
    Except Fault (Option FieldSet) :=
  lenient ((parse bounds token).mapError (FieldError.failure bounds))

end FieldSet

end Timetable.Cron
