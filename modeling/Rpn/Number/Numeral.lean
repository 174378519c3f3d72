import Rpn.Number.Binary64
import Rpn.Number.Decimal

/-!
# Numerals

A **numeral** is an optional sign, digits with at most one point among or
around them – at least one digit in all – and an optional exponent, which
is a letter `e` of either case, an optional sign and at least one digit.
Nothing else is a numeral: no spaces, no separators between digits, and no
words for the values that are not finite.

`Numeral.read?` reads a text as a sign and a decimal, and
`Numeral.toFloat?` as a double. A numeral too large for a finite double
denotes no number, so that what is read can always be calculated with.
-/

namespace Rpn

/-- **What a numeral denotes**: a sign and a decimal. The sign is kept
apart since a zero has one. -/
structure Numeral where
  /-- Whether the numeral starts with a minus sign. -/
  negative : Bool
  /-- What follows the sign. -/
  magnitude : Decimal
deriving DecidableEq, Repr

namespace Numeral

/-- Whether a text starts with a minus sign, and what follows its sign if
it has one. -/
def splitSign : List Char → Bool × List Char
  | '-' :: rest => (true, rest)
  | '+' :: rest => (false, rest)
  | text => (false, text)

/-- The natural number a run of digits denotes. -/
def ofDigits (digits : List Char) : Nat := Nat.ofDigitChars 10 digits 0

/-- **Reads an exponent**, which may be absent and is then zero. -/
def exponent? : List Char → Option Int
  | [] => some 0
  | mark :: rest =>
    let (negative, digits) := splitSign rest
    if (mark = 'e' ∨ mark = 'E') ∧ digits ≠ [] ∧ digits.all Char.isDigit then
      some (if negative then -(ofDigits digits : Int) else ofDigits digits)
    else none

/-- The digits after a point, if the text starts with one, and what follows
them. -/
def splitFraction : List Char → List Char × List Char
  | '.' :: rest => (rest.takeWhile Char.isDigit, rest.dropWhile Char.isDigit)
  | text => ([], text)

/-- **Reads a numeral without its sign.** The digits on both sides of the
point are read as one number, which the exponent then scales down by one
place for each of those after the point. -/
def magnitude? (text : List Char) : Option Decimal :=
  let whole := text.takeWhile Char.isDigit
  let (fraction, rest) := splitFraction (text.dropWhile Char.isDigit)
  let digits := whole ++ fraction
  if digits = [] then none
  else (exponent? rest).map fun exponent => ⟨ofDigits digits, exponent - fraction.length⟩

/-- **Reads a numeral.** -/
def read? (text : String) : Option Numeral :=
  let (negative, unsigned) := splitSign text.toList
  (magnitude? unsigned).map fun magnitude => ⟨negative, magnitude⟩

/-- **The double a numeral denotes**, or `none` if it is too large for a
finite one. -/
def toFloat? (n : Numeral) : Option Float :=
  if h : n.magnitude.nearestRank < Grid.infinityRank then
    some (Binary64.toFloat n.negative n.magnitude.nearestRank h)
  else none

/-- **The double a text denotes**, if it is a numeral that denotes one. -/
def floatOf? (text : String) : Option Float := (read? text).bind toFloat?

/-- The point may stand at either end, and the exponent counts from where
the point is. -/
example : read? "-12.50e-3" = some ⟨true, ⟨1250, -5⟩⟩ := by decide +kernel

/-- A point needs a digit on one of its sides. -/
example : read? "." = none := by decide +kernel

end Numeral

end Rpn
