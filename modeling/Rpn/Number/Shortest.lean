import Rpn.Number.Decimal

/-!
# The shortest decimal that reads back

Many decimals are read as the same double. The one a double is written
with is the **shortest** of them: it lies on the coarsest grid of powers of
ten that has such a decimal at all, and it is the one nearest to the double
among those on that grid. Where two are equally near the upper is taken.

Every finite double is a whole multiple of `2⁻¹⁰⁷⁴`, hence of `10⁻¹⁰⁷⁴`, so
one of the grids holds the double itself. The search starts at a grid so
coarse that the double lies between its first two points, and refines ten
times at each step; it looks at the two points on either side of the
double, reads them, and stops at the first grid where one of them reads
back. If none does before, the grid of `10⁻¹⁰⁷⁴` ends it with the exact
value. So the search is a recursion on the grid, it never fails, and what
it returns reads back – at every grid but the last because that is what was
asked, and at the last because the value is exact.
-/

namespace Rpn.Shortest

-- Powers of naturals are those of the core library, whatever else is imported.
attribute [local instance (high)] instPowNat

/-- **The exact value of a double**, counted in units of `10⁻¹⁰⁷⁴`. -/
def exact (rank : Nat) : Nat := Grid.units rank * 5 ^ (1074 : Nat)

/-- The point `q` of the grid of spacing `10 ^ (level - 1074)`. -/
def gridPoint (q level : Nat) : Decimal := ⟨q, (level : Int) - 1074⟩

/-- **The candidate of one grid**: the nearer of the two grid points around
the double that reads back as it, the upper one on a tie, or `none` if
neither does. -/
def candidate? (rank level : Nat) : Option Decimal :=
  let spacing := 10 ^ level
  let q := exact rank / spacing
  let lower := gridPoint q level
  let upper := gridPoint (q + 1) level
  if lower.nearestRank = rank then
    if upper.nearestRank = rank ∧ (2 * q + 1) * spacing ≤ 2 * exact rank then some upper
    else some lower
  else if upper.nearestRank = rank then some upper
  else none

/-- **The first candidate from `level` downwards**, the exact value at
level zero. -/
def search (rank : Nat) : (level : Nat) → Decimal
  | 0 => gridPoint (exact rank) 0
  | level + 1 => (candidate? rank (level + 1)).getD (search rank level)

/-- **A level whose spacing is above the double**: `28 / 93` is a little
more than the logarithm of two to base ten. -/
def topLevel (rank : Nat) : Nat := ((exact rank).log2 + 1) * 28 / 93 + 1

end Rpn.Shortest

namespace Rpn

/-- **The shortest decimal that is read as the double of a rank.** -/
def Decimal.shortest (rank : Nat) : Decimal := Shortest.search rank (Shortest.topLevel rank)

/-- A tenth is written with one digit. -/
example : Decimal.shortest 0x3FB999999999999A = ⟨1, -1⟩ := by decide +kernel

/-- The least positive double is written with one digit. -/
example : Decimal.shortest 1 = ⟨5, -324⟩ := by decide +kernel

/-- Two to the power of minus 25 lies halfway between two decimals of
seventeen digits, and is written as the upper one. -/
example : Decimal.shortest 0x3E60000000000000 = ⟨29802322387695313, -24⟩ := by decide +kernel

end Rpn
