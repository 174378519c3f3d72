import Rpn.Number.Grid

/-!
# Decimals, and the doubles nearest to them

A numeral denotes a **decimal**, a natural number of digits scaled by a
power of ten. `Decimal.nearestRank` says which double it is read as: the
nearest one, by exact arithmetic, whatever the number of its digits.

Only the power of ten can be out of proportion to the text it was written
in – six characters suffice for `1e9999` – so it is looked at before it is
computed. A decimal that is certain to lie past the last finite double, or
certain to round to zero, is recognised by its exponent alone, and the
powers that are formed in the remaining cases are bounded by the number of
digits.
-/

namespace Rpn

-- Powers of naturals are those of the core library, whatever else is imported.
attribute [local instance (high)] instPowNat

/-- **A decimal**: `digits · 10 ^ exponent`. -/
structure Decimal where
  /-- The digits, read as a natural number. -/
  digits : Nat
  /-- The power of ten they are scaled by. -/
  exponent : Int
deriving DecidableEq, Repr

namespace Decimal

/-- **The exponent from which on every decimal overflows**: ten to this
power is past the last finite double. -/
def overflowExponent : Int := 309

/-- **Whether a decimal is certain to round to zero**: with `d` digits in
base two and exponent `-k` it lies below `2 ^ (d - 3 · k)`, as ten is more
than two cubed, and below half of `2⁻¹⁰⁷⁴` everything rounds to zero. -/
def vanishes (d : Decimal) : Bool :=
  decide ((d.digits.log2 : Int) + 1 + 1075 ≤ 3 * -d.exponent)

/-- **The double a decimal is read as**, as a rank: the nearest one, a tie
going to the even rank, and the rank of infinity past the last finite
double. -/
def nearestRank (d : Decimal) : Nat :=
  if d.digits = 0 then 0
  else if overflowExponent ≤ d.exponent then Grid.infinityRank
  else if d.vanishes then 0
  else
    Grid.nearest (d.digits * 10 ^ d.exponent.toNat * 2 ^ (1074 : Nat))
      (10 ^ (-d.exponent).toNat)

/-- A tenth is no double. The nearest one is the upper of its neighbours,
whose last hexadecimal digit rounds a run of nines up. -/
example : nearestRank ⟨1, -1⟩ = 0x3FB999999999999A := by decide +kernel

/-- Halfway between two doubles the even one is read. -/
example : nearestRank ⟨9007199254740993, 0⟩ = nearestRank ⟨9007199254740992, 0⟩ := by
  decide +kernel

end Decimal

end Rpn
