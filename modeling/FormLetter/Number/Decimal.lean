import FormLetter.Number.Magnitude

/-!
# Decimal numerals

A decimal numeral without a sign is a whole number of digits and a power of ten. It is written
positionally, never with an exponent, and it is read by rounding its exact value to the nearest
binary64 magnitude.

* `Decimal.text` has as many digits after the point as the numeral needs, and no point if it
  needs none.
* `Decimal.nearest?` is exact: the value is rounded once. Numerals far out of range are answered
  from their number of digits, so that no large power of ten is computed for them.
-/

namespace FormLetter

/-- The value of a decimal digit. -/
def digitValue (c : Char) : Nat := c.toNat - '0'.toNat

/-- The value of a run of decimal digits, after digits of value `start`. -/
def digitsValue (start : Nat) (digits : List Char) : Nat :=
  digits.foldl (fun value c => 10 * value + digitValue c) start

theorem digitsValue_append (start : Nat) (ds es : List Char) :
    digitsValue start (ds ++ es) = digitsValue (digitsValue start ds) es := by
  simp [digitsValue]

/-- The decimal digits of a natural number, without leading zeros. -/
def digitsOf (n : Nat) : List Char := Nat.toDigits 10 n

/-- The non-negative number `coefficient` times `10 ^ scale`. -/
structure Decimal where
  coefficient : Nat
  scale : Int
  deriving DecidableEq

namespace Decimal

/-- The numerator of the numeral's value. -/
def numerator (d : Decimal) : Nat := d.coefficient * power 10 d.scale.toNat

/-- The denominator of the numeral's value, a power of ten. -/
def denominator (d : Decimal) : Nat := power 10 (-d.scale).toNat

/-- How many digits stand before the point, or minus the number of zeros that stand between the
point and the first other digit. -/
def leadingPlace (d : Decimal) : Int := (digitsOf d.coefficient).length + d.scale

/-- The nearest magnitude to a numeral, a tie to the even one, if that is in the format's range.
No magnitude reaches 310 digits before the point, and 330 zeros after it round to zero. -/
def nearest? (d : Decimal) : Option Magnitude :=
  if d.coefficient = 0 ∨ d.leadingPlace < -330 then some .zero
  else if 310 < d.leadingPlace then none
  else Magnitude.nearest? (d.numerator * Magnitude.unitsPerOne) d.denominator

/-- The digits after the point: `places` many, but without zeros at the end. -/
def fractionDigits (places n : Nat) : List Char :=
  let digits := digitsOf n
  let padded := List.replicate (places - digits.length) '0' ++ digits
  if n = 0 then [] else (padded.reverse.dropWhile (· == '0')).reverse

/-- The numeral in positional notation: the digits of its whole part, and a point and the digits
of its fraction if that is not zero. -/
def text (d : Decimal) : List Char :=
  let whole := digitsOf (d.numerator / d.denominator)
  let fraction := fractionDigits (-d.scale).toNat (d.numerator % d.denominator)
  if fraction.isEmpty then whole else whole ++ '.' :: fraction

end Decimal

end FormLetter
