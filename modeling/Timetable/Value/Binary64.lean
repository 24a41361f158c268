/-!
# Numbers with a decimal point

A number written with a decimal point is kept to the precision of a binary64
word: a significand of at most 53 bits times a power of two, which is rounded
to nearest with ties to the even significand.  `roundBinary` is this rounding;
everything else here is exact.

Such a number is written with the fewest decimal digits that round back to it.
`Binary64.fewest` tries one digit, two digits and so on, at each number of
digits the two neighbours of the exact value, the nearer one first.  The digits
are written positionally from 10⁻⁴ up to, but without, 10¹⁶, with at least one
digit on either side of the point, and otherwise with one digit before the point
and a signed exponent of two or more digits.
-/

namespace Timetable

/-- The number `significand · 2 ^ power`, negated if `negative` holds. -/
structure Binary64 where
  negative : Bool
  significand : Nat
  power : Int
deriving DecidableEq, Repr

/-- A power of two. -/
def twoTo (exponent : Nat) : Nat := Nat.pow 2 exponent

/-- A power of ten. -/
def tenTo (exponent : Nat) : Nat := Nat.pow 10 exponent

/-- The natural nearest to a quotient; of two that are, the even one. -/
def roundHalfEven (numerator denominator : Nat) : Nat :=
  let below := numerator / denominator
  let twice := 2 * (numerator % denominator)
  if denominator < twice ∨ (twice = denominator ∧ below % 2 = 1) then below + 1
  else below

/-- The floor of the binary logarithm of a positive quotient. -/
def quotientLog (numerator denominator : Nat) : Int :=
  let estimate : Int := (numerator.log2 : Int) - denominator.log2
  let isBelow :=
    if 0 ≤ estimate then
      decide (numerator < denominator * twoTo estimate.toNat)
    else decide (numerator * twoTo estimate.natAbs < denominator)
  if isBelow then estimate - 1 else estimate

/--
The significand and the power of two nearest to a quotient.  A significand that
is rounded up to 54 bits is halved; below the least normal number the power
stays at the least one.
-/
def roundBinary (numerator denominator : Nat) : Nat × Int :=
  if numerator = 0 then (0, 0)
  else
    let power := max (quotientLog numerator denominator - 52) (-1074)
    let numerator :=
      if power < 0 then numerator * twoTo power.natAbs else numerator
    let denominator :=
      if 0 < power then denominator * twoTo power.toNat else denominator
    let significand := roundHalfEven numerator denominator
    if significand = twoTo 53 then (twoTo 52, power + 1)
    else (significand, power)

namespace Binary64

/-- The significand and power nearest to `digits · 10 ^ exponent`. -/
def roundDecimal (digits : Nat) (exponent : Int) : Nat × Int :=
  if 0 ≤ exponent then roundBinary (digits * tenTo exponent.toNat) 1
  else roundBinary digits (tenTo exponent.natAbs)

/-- The number nearest to `digits · 10 ^ exponent`. -/
def ofDecimal (negative : Bool) (digits : Nat) (exponent : Int) : Binary64 :=
  let (significand, power) := roundDecimal digits exponent
  ⟨negative, significand, power⟩

/-- Whether the number is zero, of either sign. -/
def isZero (number : Binary64) : Bool := number.significand == 0

/-- Whether the number is too large for a binary64 word. -/
def isInfinite (number : Binary64) : Bool := decide (971 < number.power)

/-- The size of the number as a quotient. -/
def size (number : Binary64) : Nat × Nat :=
  if 0 ≤ number.power then
    (number.significand * twoTo number.power.toNat, 1)
  else (number.significand, twoTo number.power.natAbs)

/-- A sign put before a natural. -/
def signed (number : Binary64) (size : Nat) : Int :=
  if number.negative then -(size : Int) else size

/-- The number as a quotient of an integer and a natural. -/
def ratio (number : Binary64) : Int × Nat :=
  let (numerator, denominator) := number.size
  (number.signed numerator, denominator)

/-- The integer that the number is, if it is one. -/
def toInt? (number : Binary64) : Option Int :=
  let (numerator, denominator) := number.size
  if numerator % denominator = 0 then
    some (number.signed (numerator / denominator))
  else none

/-- Whether an integer is a multiple of the number, which is not zero. -/
def divides (number : Binary64) (multiple : Int) : Bool :=
  let (numerator, denominator) := number.size
  multiple.natAbs * denominator % numerator == 0

/--
The product with a natural as an integer.  The whole part of the number is
multiplied exactly, and the product with the part after the point is rounded as
a number of this type; the sum goes to the nearest integer, ties to even.
-/
def times (number : Binary64) (factor : Nat) : Int :=
  let (numerator, denominator) := number.size
  let whole := numerator / denominator * factor
  let (significand, power) :=
    roundBinary (numerator % denominator * factor) denominator
  let product :=
    if 0 ≤ power then whole + significand * twoTo power.toNat
    else
      roundHalfEven (whole * twoTo power.natAbs + significand)
        (twoTo power.natAbs)
  number.signed product

/-! ## The fewest digits -/

/-- The number of decimal digits of a natural. -/
def digitCount (number : Nat) : Nat := (toString number).length

/-- Moves trailing zeros of the digits into the exponent. -/
def stripZeros : Nat → Nat → Int → Nat × Int
  | 0, digits, exponent => (digits, exponent)
  | steps + 1, digits, exponent =>
      if digits % 10 = 0 then stripZeros steps (digits / 10) (exponent + 1)
      else (digits, exponent)

/--
The exact decimal expansion: a negative power of two is a power of five over
one of ten.
-/
def expand (number : Binary64) : Nat × Int :=
  if 0 ≤ number.power then
    (number.significand * twoTo number.power.toNat, 0)
  else (number.significand * Nat.pow 5 number.power.natAbs, number.power)

/-- The neighbour of the expansion on a grid that rounds back to the number. -/
def neighbour? (number : Binary64) (digits : Nat) (exponent : Int)
    (dropped : Nat) : Option (Nat × Int) :=
  let grid := tenTo dropped
  let below := digits / grid
  let above := below + 1
  let (first, second) :=
    if roundHalfEven digits grid = above then (above, below)
    else (below, above)
  let scale := exponent + dropped
  let target := (number.significand, number.power)
  if roundDecimal first scale = target then some (first, scale)
  else if roundDecimal second scale = target then some (second, scale)
  else none

/-- The fewest digits that identify the number, and their exponent. -/
def fewest (number : Binary64) : Nat × Int :=
  let (digits, exponent) := number.expand
  let count := digitCount digits
  let (digits, exponent) :=
    ((List.range (min count 17)).findSome? fun kept =>
      number.neighbour? digits exponent (count - (kept + 1))).getD
        (digits, exponent)
  stripZeros (digitCount digits) digits exponent

/-! ## Writing -/

/-- The digits with a point after the first `whole` of them. -/
def positional (digits : List Char) (whole : Int) : List Char :=
  if whole ≤ 0 then
    '0' :: '.' :: (List.replicate whole.natAbs '0' ++ digits)
  else
    let whole := whole.toNat
    let front := digits.take whole
    let back := digits.drop whole
    front ++ List.replicate (whole - front.length) '0' ++
      '.' :: (if back.isEmpty then ['0'] else back)

/-- The digits with a point after the first of them and an exponent. -/
def scientific (digits : List Char) (exponent : Int) : List Char :=
  let power := (toString exponent.natAbs).toList
  let sign := if exponent < 0 then '-' else '+'
  let back := digits.drop 1
  digits.take 1 ++ (if back.isEmpty then [] else '.' :: back) ++
    'e' :: sign :: (List.replicate (2 - power.length) '0' ++ power)

/-- The size of a finite number that is not zero. -/
def sizeChars (number : Binary64) : List Char :=
  let (digits, exponent) := number.fewest
  let leading := exponent + digitCount digits - 1
  let digits := (toString digits).toList
  if -4 ≤ leading ∧ leading < 16 then positional digits (leading + 1)
  else scientific digits leading

/-- The number as it is written. -/
def text (number : Binary64) : String :=
  let size :=
    if number.isZero then ['0', '.', '0']
    else if number.isInfinite then ['i', 'n', 'f']
    else number.sizeChars
  String.ofList (if number.negative then '-' :: size else size)

end Binary64

end Timetable
