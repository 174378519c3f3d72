import Rpn.Number.Binary64
import Rpn.Number.Shortest

/-!
# How numbers are written

A number is written the way it was most likely typed. A whole number has no
fractional part and shows every one of its digits, and any other number
shows the shortest decimal that is read as it; neither has an exponent,
however long that makes the text.

Whole numbers are written exactly up to a limit a little below `2⁶³`, and
as the shortest decimal from there on. The two differ only past `2⁵³`,
where neighbouring doubles are more than one apart: below the limit such a
number keeps its true last digits, above it they are zeros.
-/

namespace Rpn

-- Powers of naturals are those of the core library, whatever else is imported.
attribute [local instance (high)] instPowNat

/-! ## Decimals without an exponent -/

/-- **The digits of a decimal in positional form.** A positive exponent
becomes zeros at the end; with a negative one a point goes in front of that
many digits, at least one zero standing before it. -/
def Decimal.positional (d : Decimal) : List Char :=
  let shown := Nat.toDigits 10 d.digits
  match d.exponent with
  | .ofNat zeros => shown ++ List.replicate zeros '0'
  | .negSucc n =>
    let places := n + 1
    let padded := shown.leftpad (places + 1) '0'
    let whole := padded.length - places
    padded.take whole ++ '.' :: padded.drop whole

/-- Zeros are put in front so that a digit precedes the point. -/
example : Decimal.positional ⟨25, -4⟩ = "0.0025".toList := by decide

/-- A positive exponent is written out. -/
example : Decimal.positional ⟨25, 3⟩ = "25000".toList := by decide

namespace Binary64

/-! ## Doubles -/

/-- **The value of a double that is a whole number.** -/
def whole? (rank : Nat) : Option Nat :=
  if Grid.units rank % 2 ^ (1074 : Nat) = 0 then some (Grid.units rank / 2 ^ (1074 : Nat)) else none

/-- **The limit below which whole numbers are written exactly.** -/
def exactLimit : Nat := 9200000000000000000

/-- **A double without its sign, in digits.** -/
def magnitudeText (rank : Nat) : List Char :=
  match whole? rank with
  | some value =>
    if value < exactLimit then Nat.toDigits 10 value
    else (Decimal.shortest rank).positional
  | none => (Decimal.shortest rank).positional

/-- **What a double is written as.** A zero has no sign. -/
def text : Binary64 → String
  | .finite negative rank _ =>
    String.ofList <|
      if negative ∧ rank ≠ 0 then '-' :: magnitudeText rank else magnitudeText rank
  | .infinite negative => if negative then "-inf" else "inf"
  | .nan => "NaN"

end Binary64

/-- **The text of a number.** -/
def numberText (x : Float) : String := (Binary64.ofFloat x).text

/-- A fraction keeps the digits that tell it from its neighbours. -/
example : numberText (0.1 + 0.2) = "0.30000000000000004" := by decide +kernel

/-- Two to the power of 60 is written with its true last digits. -/
example : numberText 1152921504606846976 = "1152921504606846976" := by decide +kernel

/-- Two to the power of 64 is past the limit. -/
example : numberText 18446744073709551616 = "18446744073709552000" := by decide +kernel

end Rpn
