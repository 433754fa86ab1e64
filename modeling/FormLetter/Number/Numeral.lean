import FormLetter.Number.Decimal
import FormLetter.Number.Basic

/-!
# Numerals

The texts that spell a number: an optional sign, then digits with at most one point among or
around them and an optional exponent of ten, or one of the words `inf`, `infinity` and `nan` in
any letter case. Nothing else may stand in the text, blanks included.

* `Number.ofText?` reads them; a value out of range reads as an infinity.
-/

namespace FormLetter

/-- Whether `c` is one of the ten ASCII digits. -/
def isDigit (c : Char) : Bool := '0' ≤ c && c ≤ '9'

/-- The text in lower case, where ASCII letters alone have two cases. -/
def lowered (cs : List Char) : List Char := cs.map Char.toLower

/-- Splits an optional sign off a text: whether it is a minus, and what follows. -/
def readSign : List Char → Bool × List Char
  | '-' :: cs => (true, cs)
  | '+' :: cs => (false, cs)
  | cs => (false, cs)

/-- Reads a text of one digit or more, and nothing else. -/
def readDigits? (cs : List Char) : Option Nat :=
  if !cs.isEmpty && cs.all isDigit then some (digitsValue 0 cs) else none

/-- Reads what follows the digits of a numeral: nothing, or `e` and a whole number. -/
def readExponent? : List Char → Option Int
  | [] => some 0
  | c :: cs =>
    if c.toLower = 'e' then
      let (negative, digits) := readSign cs
      (readDigits? digits).map (Number.signed negative)
    else none

namespace Decimal

/-- Reads a numeral without a sign. -/
def ofText? (cs : List Char) : Option Decimal :=
  let whole := cs.takeWhile isDigit
  let afterWhole := cs.dropWhile isDigit
  let (fraction, rest) :=
    match afterWhole with
    | '.' :: more => (more.takeWhile isDigit, more.dropWhile isDigit)
    | _ => ([], afterWhole)
  if whole.isEmpty && fraction.isEmpty then none
  else (readExponent? rest).map fun exponent =>
    ⟨digitsValue (digitsValue 0 whole) fraction, exponent - fraction.length⟩

end Decimal

namespace Number

/-- The number with the given sign that is nearest to a numeral. -/
def ofDecimal (negative : Bool) (d : Decimal) : Number :=
  match d.nearest? with
  | some magnitude => .finite negative magnitude
  | none => .infinite negative

/-- Reads a numeral. -/
def ofText? (cs : List Char) : Option Number :=
  let (negative, unsigned) := readSign cs
  let word := lowered unsigned
  if word = "inf".toList || word = "infinity".toList then some (.infinite negative)
  else if word = "nan".toList then some .nan
  else (Decimal.ofText? unsigned).map (ofDecimal negative)

end Number

end FormLetter
