import Timetable.Cron.Field
import Timetable.Text.Numeral
import Timetable.Text.Pieces
import Timetable.Report

/-!
# Terms: what is written in a field

The token of a field is a star, a number, a range, a list of numbers, or a star,
number or range with a step.  `FieldTerm.parse` reads a token as a term and
`FieldTerm.check` compares the numbers of a term with the bounds of its field.

The marks of a token are looked for in a fixed order: first the slash of a
step, then the dash of a range, then the commas of a list.  The step is read
before what it steps over.  The members of a list are not compared with the
bounds.
-/

namespace Timetable.Cron

open Timetable.Text

/-- What a field says. -/
inductive FieldTerm where
  /-- Every number within the bounds: `*`. -/
  | any
  /-- One number: `A`. -/
  | single (value : Nat)
  /-- The numbers of a range: `A-B`. -/
  | range (first last : Nat)
  /-- The numbers of a list: `A,B,…`. -/
  | members (values : List Nat)
  /-- Every `step`-th number from the lower bound: `*/N`. -/
  | anyStep (step : Nat)
  /-- Every `step`-th number from `first` to the upper bound: `A/N`. -/
  | fromStep (first step : Nat)
  /-- Every `step`-th number of a range: `A-B/N`. -/
  | rangeStep (first last step : Nat)
deriving DecidableEq, Repr

/-- What can be wrong with a field. -/
inductive FieldError where
  /-- Something that ought to be a number is none. -/
  | malformed (written : String)
  /-- A number has too many digits to be converted. -/
  | tooLong
  /-- A step is zero. -/
  | zeroStep (token : String)
  /-- A range ends before it begins. -/
  | reversed (first last : Nat) (written : String)
  /-- A number lies outside the bounds. -/
  | outOfBounds (value : Nat)
  /-- There are too many numbers for a set. -/
  | tooMany
deriving DecidableEq, Repr

/--
The problem that an error of a field amounts to.  A number with too many digits
is no problem but a fault, and so is a set that would be too large.  A problem
that names the bounds is a fault if they are too long to be written; the numbers
of the field itself were read, and can be written.
-/
def FieldError.failure (bounds : Bounds) : FieldError → Failure
  | .malformed written =>
      .problem
        { subject := .cron
          message :=
            "invalid " ++ bounds.name ++ " value: " ++ quoted written
          field := some bounds.name
          value := .text written }
  | .tooLong => .fault .numeralTooLong
  | .zeroStep token =>
      .problem
        { subject := .cron
          message := bounds.name ++ " step cannot be 0"
          field := some bounds.name
          value := .text token }
  | .reversed first last written =>
      .problem
        { subject := .cron
          message :=
            bounds.name ++ " range start must be <= end: " ++
              toString first ++ "-" ++ toString last
          field := some bounds.name
          value := .text written }
  | .outOfBounds value =>
      if bounds.isOverlong then .fault .numeralTooLong
      else
        .problem
          { subject := .cron
            message :=
              bounds.name ++ " must be " ++ integerText bounds.low ++ "-" ++
                integerText bounds.high ++ ", got " ++ toString value
            field := some bounds.name
            value := .whole value }
  | .tooMany => .fault .tooManyNumbers

/-- Reads a number of a field. -/
def fieldNumber (written : List Char) : Except FieldError Nat :=
  match readNumeral written with
  | .ok value => .ok value
  | .error .malformed => .error (.malformed (String.ofList written))
  | .error .tooLong => .error .tooLong

/-- Reads the two ends of a range and refuses a range that is reversed. -/
def fieldRange (written first last : List Char) :
    Except FieldError (Nat × Nat) := do
  let first ← fieldNumber first
  let last ← fieldNumber last
  if last < first then
    .error (.reversed first last (String.ofList written))
  else .ok (first, last)

namespace FieldTerm

/-- Reads a token with a step over `base`. -/
def parseStepped (token base stepText : List Char) :
    Except FieldError FieldTerm := do
  let step ← fieldNumber stepText
  if step = 0 then .error (.zeroStep (String.ofList token))
  else if base = ['*'] then .ok (.anyStep step)
  else
    match cut '-' base with
    | some (first, last) =>
        let (first, last) ← fieldRange base first last
        .ok (.rangeStep first last step)
    | none =>
        let first ← fieldNumber base
        .ok (.fromStep first step)

/-- Reads a token without a step. -/
def parsePlain (token : List Char) : Except FieldError FieldTerm :=
  match cut '-' token with
  | some (first, last) => do
      let (first, last) ← fieldRange token first last
      .ok (.range first last)
  | none =>
      if token.contains ',' then do
        let values ← (pieces ',' token).mapM fieldNumber
        .ok (.members values)
      else do
        let value ← fieldNumber token
        .ok (.single value)

/-- Reads the token of a field. -/
def parse (token : List Char) : Except FieldError FieldTerm :=
  if token = ['*'] then .ok .any
  else
    match cut '/' token with
    | some (base, stepText) => parseStepped token base stepText
    | none => parsePlain token

/-- Refuses a number outside the bounds. -/
def checkNumber (bounds : Bounds) (value : Nat) : Except FieldError Unit :=
  if bounds.Contains value then .ok () else .error (.outOfBounds value)

/-- Compares the numbers of a term with the bounds; list members are free. -/
def check (bounds : Bounds) : FieldTerm → Except FieldError Unit
  | any => .ok ()
  | single value => checkNumber bounds value
  | range first last => do
      checkNumber bounds first
      checkNumber bounds last
  | members _ => .ok ()
  | anyStep _ => .ok ()
  | fromStep first _ => checkNumber bounds first
  | rangeStep first last _ => do
      checkNumber bounds first
      checkNumber bounds last

end FieldTerm

end Timetable.Cron
