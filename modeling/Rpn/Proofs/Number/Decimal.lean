import Rpn.Number.Shortest
import Rpn.Proofs.Number.Nearest

/-!
# Reading decimals

`Decimal.nearestRank` looks at the power of ten before it forms it. That
makes no difference to what is read: `nearestRank_eq_nearest` says that it
is rounding onto the grid, without exceptions. So a decimal is read by its
value (`nearestRank_congr`), in whichever way digits and exponent share it.

The shortest decimal of a double is found by trying, and is read as the
double for that reason alone. What needs a proof is that the search does not
come to its end empty-handed: on the finest grid of all the decimal is the
double itself.
-/

namespace Rpn

-- Powers of naturals are those of the definitions.
attribute [local instance (high)] instPowNat

namespace Decimal

/-- The powers of ten that overflow are past the grid. -/
theorem units_infinityRank_le {exponent : Nat} (h : 309 ≤ exponent) :
    Grid.units Grid.infinityRank ≤ 10 ^ exponent * 2 ^ (1074 : Nat) := by
  have hbound (least : Nat) (hleast : least = 309) :
      Grid.units Grid.infinityRank ≤ 10 ^ least * 2 ^ (1074 : Nat) := by
    subst hleast
    decide +kernel
  -- the least of these powers is not to be evaluated by unification
  obtain ⟨least, hleast⟩ : ∃ least, least = 309 := ⟨309, rfl⟩
  have hpow : 10 ^ least ≤ 10 ^ exponent := Nat.pow_le_pow_right (Nat.succ_pos 9) (hleast ▸ h)
  exact Nat.le_trans (hbound least hleast) (Nat.mul_le_mul_right _ hpow)

/-- Ten is more than two cubed, so a power of ten exceeds a number with
fewer than three bits for each place, scaled by the unit of the grid. -/
theorem two_mul_digits_le {digits bits places : Nat}
    (h : digits.log2 + 1 + (bits + 1) ≤ 3 * places) :
    2 * (digits * 2 ^ bits) ≤ 10 ^ places := by
  calc 2 * (digits * 2 ^ bits)
      = digits * 2 ^ (bits + 1) := by rw [Nat.mul_left_comm, ← Nat.pow_succ']
    _ ≤ 2 ^ (digits.log2 + 1) * 2 ^ (bits + 1) :=
        Nat.mul_le_mul_right _ (Nat.le_of_lt Nat.lt_log2_self)
    _ = 2 ^ (digits.log2 + 1 + (bits + 1)) := (Nat.pow_add 2 _ _).symm
    _ ≤ 2 ^ (3 * places) := Nat.pow_le_pow_right Nat.two_pos h
    _ = (2 ^ 3) ^ places := Nat.pow_mul 2 3 places
    _ ≤ 10 ^ places := Nat.pow_le_pow_left (by decide) places

/-- **A decimal is read as the double nearest to it**: the exponents that
are recognised beforehand are those of decimals past either end of the
grid. -/
theorem nearestRank_eq_nearest (d : Decimal) :
    d.nearestRank = Grid.nearest (d.digits * 10 ^ d.exponent.toNat * 2 ^ (1074 : Nat))
      (10 ^ (-d.exponent).toNat) := by
  have hden : 0 < 10 ^ (-d.exponent).toNat := Nat.pow_pos (by decide)
  unfold nearestRank
  by_cases hzero : d.digits = 0
  · rw [if_pos hzero]
    have hnum (unit : Nat) : 2 * (d.digits * 10 ^ d.exponent.toNat * unit) = 0 := by
      rw [hzero, Nat.zero_mul, Nat.zero_mul]
    refine (Grid.nearest_eq_zero hden ?_).symm
    rw [hnum]
    exact Nat.zero_le _
  rw [if_neg hzero]
  by_cases hover : overflowExponent ≤ d.exponent
  · rw [if_pos hover]
    have hexp : 309 ≤ d.exponent.toNat := by
      unfold overflowExponent at hover
      omega
    refine (Grid.nearest_eq_infinityRank hden ?_).symm
    rw [show (-d.exponent).toNat = 0 by omega, Nat.pow_zero, Nat.mul_one]
    calc Grid.units Grid.infinityRank
        ≤ 10 ^ d.exponent.toNat * 2 ^ (1074 : Nat) := units_infinityRank_le hexp
      _ ≤ d.digits * 10 ^ d.exponent.toNat * 2 ^ (1074 : Nat) :=
          Nat.mul_le_mul_right _ (Nat.le_mul_of_pos_left _ (Nat.pos_of_ne_zero hzero))
  rw [if_neg hover]
  by_cases hvanishes : d.vanishes = true
  · rw [if_pos hvanishes]
    refine (Grid.nearest_eq_zero hden ?_).symm
    have hexp : d.digits.log2 + 1 + (1074 + 1) ≤ 3 * (-d.exponent).toNat := by
      have := of_decide_eq_true hvanishes
      omega
    rw [show d.exponent.toNat = 0 by omega, Nat.pow_zero, Nat.mul_one d.digits]
    exact @two_mul_digits_le d.digits 1074 _ hexp
  · rw [if_neg hvanishes]

/-- **A decimal is read by its value.** -/
theorem nearestRank_congr {d d' : Decimal}
    (h : d.digits * 10 ^ d.exponent.toNat * 10 ^ (-d'.exponent).toNat
      = d'.digits * 10 ^ d'.exponent.toNat * 10 ^ (-d.exponent).toNat) :
    d.nearestRank = d'.nearestRank := by
  rw [nearestRank_eq_nearest, nearestRank_eq_nearest]
  refine Grid.nearest_congr (Nat.pow_pos (by decide)) (Nat.pow_pos (by decide)) ?_
  rw [Nat.mul_right_comm, h, Nat.mul_right_comm]

/-- **A whole number that is a double is read as it.** -/
theorem nearestRank_whole {value rank : Nat} (h : rank ≤ Grid.infinityRank)
    (hunits : Grid.units rank = value * 2 ^ (1074 : Nat)) : nearestRank ⟨value, 0⟩ = rank := by
  have hpos : (0 : Int).toNat = 0 := rfl
  have hneg : (-(0 : Int)).toNat = 0 := rfl
  have hnum (n : Nat) : n * 10 ^ 0 = n := by rw [Nat.pow_zero, Nat.mul_one]
  rw [nearestRank_eq_nearest, hpos, hneg, hnum value, ← hunits, ← hnum (Grid.units rank)]
  exact Grid.nearest_units Nat.one_pos h

end Decimal

namespace Shortest

open Decimal

/-- What a grid proposes is read as the double. -/
theorem nearestRank_of_candidate? {rank level : Nat} {d : Decimal}
    (h : candidate? rank level = some d) : d.nearestRank = rank := by
  unfold candidate? at h
  simp only at h
  split at h
  · split at h
    · obtain rfl := Option.some.inj h
      exact (‹_ ∧ _›).1
    · obtain rfl := Option.some.inj h
      assumption
  · split at h
    · obtain rfl := Option.some.inj h
      assumption
    · cases h

/-- **On the finest grid lies the double itself.** -/
theorem nearestRank_exact {rank : Nat} (h : rank ≤ Grid.infinityRank) :
    (gridPoint (exact rank) 0).nearestRank = rank := by
  have hpos : (((0 : Nat) : Int) - 1074).toNat = 0 := rfl
  have hneg : (-(((0 : Nat) : Int) - 1074)).toNat = 1074 := rfl
  have hnum (n : Nat) :
      Grid.units rank * 5 ^ n * 10 ^ 0 * 2 ^ n = Grid.units rank * 10 ^ n := by
    rw [Nat.pow_zero, Nat.mul_one, Nat.mul_assoc, ← Nat.mul_pow]
  have hden (n : Nat) : 0 < 10 ^ n := Nat.pow_pos (Nat.succ_pos 9)
  rw [nearestRank_eq_nearest, gridPoint, exact, hpos, hneg, hnum 1074]
  exact Grid.nearest_units (hden 1074) h

/-- **The search ends at a decimal that is read as the double.** -/
theorem nearestRank_search {rank : Nat} (h : rank ≤ Grid.infinityRank) (level : Nat) :
    (search rank level).nearestRank = rank := by
  induction level with
  | zero => exact nearestRank_exact h
  | succ level ih =>
    rw [search]
    cases hc : candidate? rank (level + 1) with
    | none => exact ih
    | some d => exact nearestRank_of_candidate? hc

end Shortest

/-- **The shortest decimal of a double is read as it.** -/
theorem Decimal.nearestRank_shortest {rank : Nat} (h : rank ≤ Grid.infinityRank) :
    (Decimal.shortest rank).nearestRank = rank :=
  Shortest.nearestRank_search h _

end Rpn
