/-!
# The grid of finite doubles

The non-negative finite doubles are finitely many, so they can be
numbered: zero is number 0, the least positive double number 1, and so on
upwards. That number is the **rank** of a double, and it is nothing but
the bit pattern read as a natural number – sign bit aside, a larger double
has a larger pattern, and the patterns leave no gap. Infinity, as a bit
pattern, is the first rank past the last finite double.

Every finite double is a whole multiple of `2⁻¹⁰⁷⁴`, the least positive
one. Counted in that unit the whole grid lives in `Nat`, and so does the
arithmetic of rounding onto it: `units` says where the double of a given
rank lies, and `nearest` finds the rank of the double closest to a
quotient of naturals. No floating-point operation takes part, so what is
read from a numeral is decided by exact comparisons alone.
-/

namespace Rpn.Grid

-- Powers of naturals are those of the core library, whatever else is imported.
attribute [local instance (high)] instPowNat

/-- **The rank of infinity**, which is one more than that of the largest
finite double. -/
def infinityRank : Nat := 0x7FF * 2 ^ (52 : Nat)

/-- **Where the double of rank `n` lies**, counted in units of `2⁻¹⁰⁷⁴`.

The first `2⁵²` doubles are one unit apart. After them the doubles come in
runs of `2⁵²`, and from one run to the next the spacing doubles. -/
def units (n : Nat) : Nat :=
  if n < 2 ^ (52 : Nat) then n
  else (n % 2 ^ (52 : Nat) + 2 ^ (52 : Nat)) * 2 ^ (n / 2 ^ (52 : Nat) - 1)

/-- **The last double at or below `k` units.** Past the first run, the run
that `k` falls into is read off its binary length. -/
def floorRank (k : Nat) : Nat :=
  if k < 2 ^ (52 : Nat) then k
  else
    let run := k.log2 - 52
    run * 2 ^ (52 : Nat) + k / 2 ^ run

/-- **The double nearest to `num / den` units**, as a rank, for `den` not
zero. Halfway between two neighbours the even rank is taken, and whatever
would round past the last finite double has the rank of infinity. -/
def nearest (num den : Nat) : Nat :=
  let below := floorRank (num / den)
  -- Twice the quotient, against the sum of the two neighbours.
  let twice := 2 * num
  let midpoint := (units below + units (below + 1)) * den
  let chosen :=
    if twice < midpoint then below
    else if midpoint < twice then below + 1
    else below + below % 2
  min chosen infinityRank

/-- The rank of one whole is the pattern of `1.0`. -/
example : floorRank (2 ^ (1074 : Nat)) = 0x3FF0000000000000 := by decide +kernel

/-- A third lies between two doubles, and is nearer to the one below. -/
example : nearest (2 ^ (1074 : Nat)) 3 = 0x3FD5555555555555 := by decide +kernel

end Rpn.Grid
