/-!
# Decimal numerals

A numeral is a non-empty string of the ten ASCII digits.  Reading one gives a
natural, unless the numeral is longer than `numeralLimit` digits, leading zeros
included: then it is well formed, but not converted.

Numbers are written without leading zeros, or padded with zeros to a width.  A
number whose numeral could not be converted back is `overlong`; it depends on
the place whether such a number is written at all.
-/

namespace Timetable.Text

/-- The greatest number of digits that a numeral may have to be converted. -/
def numeralLimit : Nat := 4300

/-- The value of an ASCII digit. -/
def digitValue (digit : Char) : Nat := digit.toNat - 48

/-- The number that a string of digits denotes. -/
def valueOfDigits (digits : List Char) : Nat :=
  digits.foldl (fun value digit => 10 * value + digitValue digit) 0

/-- Whether a text is a numeral. -/
def isNumeral (text : List Char) : Bool :=
  !text.isEmpty && text.all Char.isDigit

/-- The ways in which a text fails to denote a number. -/
inductive NumeralError where
  | malformed
  | tooLong
deriving DecidableEq, Repr

/-- Converts a string of digits of any length up to the limit. -/
def convertDigits (digits : List Char) : Except NumeralError Nat :=
  if numeralLimit < digits.length then .error .tooLong
  else .ok (valueOfDigits digits)

/-- Reads a numeral. -/
def readNumeral (text : List Char) : Except NumeralError Nat :=
  if isNumeral text then convertDigits text else .error .malformed

/-- A number with its sign in front of the digits. -/
def integerText (number : Int) : String :=
  if number < 0 then "-" ++ toString number.natAbs
  else toString number.natAbs

/-- Whether the numeral of a number is longer than the limit. -/
def overlong (number : Int) : Bool :=
  decide (Nat.pow 10 numeralLimit ≤ number.natAbs)

/-- A natural padded with zeros on the left up to a width. -/
def padded (width number : Nat) : String :=
  let digits := (toString number).toList
  String.ofList (List.replicate (width - digits.length) '0' ++ digits)

end Timetable.Text
