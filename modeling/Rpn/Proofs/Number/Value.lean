import Mathlib
import Rpn.Proofs.Number.Nearest
import Rpn.Proofs.Number.Status

/-!
# The number that a double stands for

A rank says where a double lies among the others, and `Grid.units` how far
from zero that is. What a double *is* was fixed long before: a sign, a
mantissa and a power of two, as the core library unpacks them from the bits.
`Binary64.value` is that number, a rational one, and this module ties the two
descriptions together. A finite double lies as many units of `2⁻¹⁰⁷⁴` from
zero as its rank says, on the side of its sign (`unpacks`, `value_eq`).

What the core library does with doubles is then known by their values.
Finite doubles are equal if their values are, and are ordered as these are
(`beq_iff_value_eq`, `lt_iff_value_lt`). A double that is converted to an
integer of 64 bits is truncated, which leaves a whole number alone, and
clamped, which leaves alone what is below `2⁶³` (`toInt_toInt64`).
-/

namespace Rpn

-- Powers of naturals are those of the definitions.
attribute [local instance (high)] instPowNat

namespace Grid

/-! ## Significand and scale of a rank -/

/-- **The significand of a rank**, with its leading bit. -/
def significand (n : Nat) : Nat := if n < 2 ^ 52 then n else n % 2 ^ 52 + 2 ^ 52

/-- **The power of two that a significand is scaled by**, in units. -/
def scale (n : Nat) : Nat := n / 2 ^ 52 - 1

theorem units_eq_significand_mul (n : Nat) : units n = significand n * 2 ^ scale n := by
  unfold units significand scale
  split
  · rw [show n / 2 ^ 52 - 1 = 0 by omega, Nat.pow_zero, Nat.mul_one]
  · rfl

/-- **Ranks are ordered by their scales**, and then by their significands. -/
theorem lt_iff_scale_lt (m n : Nat) :
    m < n ↔ scale m < scale n ∨ scale m = scale n ∧ significand m < significand n := by
  unfold scale significand
  split <;> split <;> omega

theorem units_pos_iff {n : Nat} : 0 < units n ↔ n ≠ 0 :=
  ⟨fun pos => Nat.ne_of_gt (lt_of_units_lt_units pos),
    fun hne => units_lt_units (Nat.pos_of_ne_zero hne)⟩

end Grid

namespace Binary64

open Float.Model (Format UnpackedFloat)
open Float.Model.UnpackedFloat (Sign ExtendedMantissa unpackSign)

/-! ## Signs of integers -/

theorem apply_mul (sign : Sign) (m n : Int) : sign.apply (m * n) = sign.apply m * n := by
  cases sign with
  | negative => exact (Int.neg_mul m n).symm
  | positive => rfl

theorem natAbs_apply (sign : Sign) (m : Int) : (sign.apply m).natAbs = m.natAbs := by
  cases sign with
  | negative => exact Int.natAbs_neg m
  | positive => rfl

theorem apply_div (sign : Sign) (m k : Nat) :
    sign.apply (m / 2 ^ k : Nat) = (sign.apply m).tdiv (2 ^ k) := by
  have hdiv : ((m / 2 ^ k : Nat) : Int) = (m : Int).tdiv (2 ^ k) := by
    rw [Int.natCast_ediv, Nat.cast_pow, Nat.cast_ofNat,
      Int.tdiv_eq_ediv_of_nonneg (Int.natCast_nonneg m)]
  cases sign with
  | negative => exact (congrArg Neg.neg hdiv).trans (Int.neg_tdiv ..).symm
  | positive => exact hdiv

/-! ## Unpacking a double -/

/-- The sign of a double. -/
def sign (x : Float) : Sign := .ofBitVec (@unpackSign Format.binary64 x.toBits.toBitVec)

/-- The sign is that of the highest bit. -/
theorem sign_eq (x : Float) : sign x = if signBit x then .negative else .positive := by
  have size : x.toBits.toNat < 2 ^ 64 := x.toBits.toNat_lt
  have field : (@unpackSign Format.binary64 x.toBits.toBitVec).toNat
      = x.toBits.toNat / 2 ^ 63 := by
    show (x.toBits.toNat >>> 63) % 2 ^ 1 = _
    rw [Nat.shiftRight_eq_div_pow]
    omega
  show (if @unpackSign Format.binary64 x.toBits.toBitVec = 0#1 then Sign.positive
    else .negative) = _
  unfold signBit
  by_cases h : 2 ^ 63 ≤ x.toBits.toNat
  · rw [if_pos (decide_eq_true h), if_neg]
    intro hzero
    rw [hzero, show (0#1).toNat = 0 from rfl] at field
    omega
  · rw [decide_eq_false h, if_neg Bool.false_ne_true, if_pos]
    rw [← BitVec.toNat_inj, field]
    exact Nat.div_eq_of_lt (Nat.lt_of_not_le h)

/-- **The number that a double stands for**, in units of `2⁻¹⁰⁷⁴`. -/
def signedUnits (x : Float) : Int := (sign x).apply (Grid.units (unsignedBits x))

/-- **What a finite double unpacks to**, and the units it stands for. A zero
has a sign and no mantissa. The mantissa of any other double is the
significand of a rank, and its exponent the scale, in units of `2⁻¹⁰⁷⁴`. -/
inductive Unpacks : UnpackedFloat → Int → Prop where
  | zero (sign : Sign) : Unpacks (.zero sign) 0
  | finite (sign : Sign) {rank : Nat} (pos : 0 < Grid.significand rank) :
      Unpacks (.finite sign (Grid.significand rank) ((Grid.scale rank : Int) - 1074) pos)
        (sign.apply (Grid.units rank))

section

variable {x : Float}

theorem unpack_of_unsignedBits_eq_zero (h : unsignedBits x = 0) :
    x.toModel.unpack = .zero (sign x) := by
  have hones : exponentField x ≠ -1#11 := by
    rw [ne_eq, exponentField_eq_ones_iff, h]
    decide
  have hexponent : exponentField x = 0#11 := by
    rw [← BitVec.toNat_inj, toNat_exponentField, h]
    rfl
  have hmantissa : mantissaField x = 0#52 := by
    rw [mantissaField_eq_zero_iff, h]
    rfl
  exact (if_neg hones).trans ((if_pos hexponent).trans (dif_pos hmantissa))

/-- A finite double that is not zero unpacks to the significand and the
scale of its rank. The first ranks have no leading bit, and the scale of
those after them. -/
theorem exists_unpack_eq_finite (h : x.isFinite = true) (hne : unsignedBits x ≠ 0) :
    ∃ mantissa exponent pos, x.toModel.unpack = .finite (sign x) mantissa exponent pos
      ∧ mantissa = Grid.significand (unsignedBits x)
      ∧ exponent = (Grid.scale (unsignedBits x) : Int) - 1074 := by
  have hrank := (isFinite_iff_lt x).mp h
  have hones : exponentField x ≠ -1#11 := by
    rw [ne_eq, exponentField_eq_ones_iff]
    omega
  have hexponent := toNat_exponentField x
  have hmantissa := toNat_mantissaField x
  unfold Grid.significand Grid.scale
  by_cases hfirst : unsignedBits x < 2 ^ 52
  · have hexponentZero : exponentField x = 0#11 := by
      rw [← BitVec.toNat_inj, hexponent]
      exact Nat.div_eq_of_lt hfirst
    have hmantissaNe : mantissaField x ≠ 0#52 := by
      rw [ne_eq, mantissaField_eq_zero_iff]
      omega
    refine ⟨_, _, _,
      (if_neg hones).trans ((if_pos hexponentZero).trans (dif_neg hmantissaNe)), ?_, ?_⟩
    · show (mantissaField x).toNat = _
      rw [hmantissa, if_pos hfirst, Nat.mod_eq_of_lt hfirst]
    · show ((exponentField x).toNat : Int) - (1023 + 52) + 1 = _
      omega
  · have hexponentNe : exponentField x ≠ 0#11 := by
      rw [ne_eq, ← BitVec.toNat_inj, hexponent]
      show ¬_ = 0
      omega
    refine ⟨_, _, _, (if_neg hones).trans (if_neg hexponentNe), ?_, ?_⟩
    · show (1#1 ++ mantissaField x).toNat = _
      rw [BitVec.toNat_append, if_neg hfirst, hmantissa]
      show 2 ^ 52 ||| _ = _
      rw [Nat.or_comm, Nat.or_two_pow_eq_add_of_lt (Nat.mod_lt _ (by decide))]
    · show ((exponentField x).toNat : Int) - (1023 + 52) = _
      omega

/-- **A finite double unpacks to its units.** -/
theorem unpacks (h : x.isFinite = true) : Unpacks x.toModel.unpack (signedUnits x) := by
  by_cases hzero : unsignedBits x = 0
  · have hunits : signedUnits x = 0 := by
      unfold signedUnits
      rw [hzero]
      cases sign x <;> rfl
    rw [unpack_of_unsignedBits_eq_zero hzero, hunits]
    exact .zero (sign x)
  · obtain ⟨mantissa, exponent, pos, hunpack, rfl, rfl⟩ := exists_unpack_eq_finite h hzero
    rw [hunpack]
    exact .finite (sign x) pos

end

/-! ## The value of a double -/

/-- **The number that a double stands for**: what it unpacks to, as a
rational number. An infinity and what is not a number stand for none, and
have zero here. -/
def value (x : Float) : ℚ :=
  match x.toModel.unpack with
  | .finite sign mantissa exponent _ => sign.apply mantissa * 2 ^ exponent
  | _ => 0

section

variable {x : Float}

theorem natAbs_signedUnits (x : Float) :
    (signedUnits x).natAbs = Grid.units (unsignedBits x) :=
  natAbs_apply _ _

/-- **The value of a double in units.** -/
theorem value_eq (h : x.isFinite = true) :
    value x = signedUnits x * 2 ^ (-1074 : Int) := by
  have hunpacks := unpacks h
  unfold value
  generalize x.toModel.unpack = unpacked, signedUnits x = units at hunpacks ⊢
  cases hunpacks with
  | zero sign => exact (zero_mul _).symm
  | finite sign pos =>
    rename_i rank
    rw [Grid.units_eq_significand_mul]
    show (sign.apply (Grid.significand rank : Int) : ℚ) * 2 ^ ((Grid.scale rank : Int) - 1074) = _
    rw [sub_eq_add_neg, zpow_add₀ two_ne_zero, zpow_natCast, ← mul_assoc, Nat.cast_mul,
      apply_mul, Int.cast_mul, Int.cast_natCast, Nat.cast_pow, Nat.cast_ofNat]

/-- **Whole values** are those of a multiple of the units of one. -/
theorem value_eq_intCast_iff (h : x.isFinite = true) (n : Int) :
    value x = n ↔ signedUnits x = n * 2 ^ (1074 : Nat) := by
  -- said of any power, so that this one is not evaluated; likewise below
  have hscaled (k : Nat) (m : Int) : (m : ℚ) * 2 ^ (-k : Int) = n ↔ m = n * 2 ^ k := by
    rw [zpow_neg, zpow_natCast, ← div_eq_mul_inv, div_eq_iff (pow_ne_zero k two_ne_zero)]
    exact_mod_cast Iff.rfl
  rw [value_eq h]
  exact hscaled 1074 (signedUnits x)

/-- A whole number is what a double at a multiple of the units of one stands
for. -/
theorem value_of_units_eq (h : x.isFinite = true) {m : Nat}
    (hunits : Grid.units (unsignedBits x) = m * 2 ^ (1074 : Nat)) :
    value x = ((sign x).apply m : Int) := by
  have hsplit (k : Nat) : (sign x).apply (m * 2 ^ k : Nat) = (sign x).apply m * 2 ^ k := by
    rw [Nat.cast_mul, Nat.cast_pow, apply_mul]
    rfl
  rw [value_eq_intCast_iff h, signedUnits, hunits]
  exact hsplit 1074

/-- The rank of a whole double lies at a multiple of the units of one. -/
theorem units_of_value_eq (h : x.isFinite = true) {n : Int} (hvalue : value x = n) :
    Grid.units (unsignedBits x) = n.natAbs * 2 ^ (1074 : Nat) := by
  have hnatAbs (k : Nat) : (n * 2 ^ k).natAbs = n.natAbs * 2 ^ k := by
    rw [Int.natAbs_mul, Int.natAbs_pow]
    rfl
  rw [← natAbs_signedUnits, (value_eq_intCast_iff h n).mp hvalue]
  exact hnatAbs 1074

/-- The sign of a double is that of its value. -/
theorem value_neg_iff (h : x.isFinite = true) :
    value x < 0 ↔ signBit x = true ∧ unsignedBits x ≠ 0 := by
  rw [value_eq h, ← zero_mul ((2 : ℚ) ^ (-1074 : Int)),
    mul_lt_mul_iff_left₀ (zpow_pos two_pos _), Int.cast_lt_zero, ← Grid.units_pos_iff, signedUnits,
    sign_eq]
  cases signBit x with
  | false => exact iff_of_false (Int.not_lt.mpr (Int.natCast_nonneg _)) nofun
  | true =>
    rw [and_iff_right rfl]
    show -((Grid.units (unsignedBits x) : Nat) : Int) < 0 ↔ _
    omega

end

/-! ## Truncation -/

/-- A shift to the right divides by a power of two. -/
theorem mantissa_shiftRight (m : ExtendedMantissa) (n : Nat) :
    (m >>> n).mantissa = m.mantissa / 2 ^ n := by
  induction n with
  | zero => exact (Nat.div_one _).symm
  | succ n ih =>
    show (m >>> n).mantissa / 2 = _
    rw [ih, Nat.div_div_eq_div_mul, Nat.pow_succ]

/-- A mantissa is shifted one way or the other, and is divided in effect. -/
theorem shifted_eq_div (m scale k : Nat) :
    m * 2 ^ ((scale : Int) - k).toNat / 2 ^ ((k : Int) - scale).toNat = m * 2 ^ scale / 2 ^ k := by
  obtain hlt | hle := Nat.lt_or_ge scale k
  · obtain ⟨rest, rfl⟩ := Nat.exists_eq_add_of_le (Nat.le_of_lt hlt)
    rw [show ((scale : Int) - (scale + rest : Nat)).toNat = 0 by omega,
      show (((scale + rest : Nat) : Int) - scale).toNat = rest by omega, Nat.pow_zero, Nat.mul_one,
      Nat.pow_add, Nat.mul_comm m, Nat.mul_div_mul_left _ _ (Nat.two_pow_pos scale)]
  · obtain ⟨rest, rfl⟩ := Nat.exists_eq_add_of_le hle
    rw [show (((k + rest : Nat) : Int) - k).toNat = rest by omega,
      show ((k : Int) - (k + rest : Nat)).toNat = 0 by omega, Nat.pow_zero, Nat.div_one,
      Nat.pow_add, Nat.mul_left_comm, Nat.mul_div_cancel_left _ (Nat.two_pow_pos k)]

/-- **Rounding to an integer truncates.** -/
theorem roundToInt_eq (sign : Sign) (m scale k : Nat) :
    UnpackedFloat.roundToInt sign m ((scale : Int) - k)
      = sign.apply (m * 2 ^ scale / 2 ^ k : Nat) := by
  refine congrArg (fun truncated : Nat => sign.apply truncated) ?_
  refine (mantissa_shiftRight _ _).trans (Eq.trans ?_ (shifted_eq_div m scale k))
  show m <<< ((scale : Int) - k - 0).toNat
    / 2 ^ (0 - ((scale : Int) - k - ((scale : Int) - k - 0).toNat)).toNat = _
  rw [Nat.shiftLeft_eq, Int.sub_zero]
  congr 2
  omega

section

variable {x : Float}

/-- **A finite double is truncated towards zero.** -/
theorem toInt_unpack (h : x.isFinite = true) (least greatest : Int) :
    x.toModel.unpack.toInt least greatest = (signedUnits x).tdiv (2 ^ (1074 : Nat)) := by
  have hunpacks := unpacks h
  generalize x.toModel.unpack = unpacked, signedUnits x = units at hunpacks ⊢
  cases hunpacks with
  | zero sign => exact (Int.zero_tdiv _).symm
  | finite sign pos =>
    refine (roundToInt_eq sign _ _ 1074).trans ?_
    rw [← Grid.units_eq_significand_mul]
    exact apply_div sign _ 1074

/-- **A whole double is converted to the integer that it stands for**, as
long as that has 64 bits. -/
theorem toInt_toInt64 (h : x.isFinite = true) {n : Int} (hvalue : value x = n)
    (hlt : n.natAbs < 2 ^ 63) : x.toModel.toInt64.toInt = n := by
  have htruncated (least greatest : Int) : x.toModel.unpack.toInt least greatest = n := by
    have hdiv (k : Nat) : (n * 2 ^ k).tdiv (2 ^ k) = n :=
      Int.mul_tdiv_cancel _ (pow_ne_zero k two_ne_zero)
    rw [toInt_unpack h, (value_eq_intCast_iff h n).mp hvalue]
    exact hdiv 1074
  show (Int64.ofIntClamp
    (x.toModel.unpack.toInt Int64.minValue.toInt Int64.maxValue.toInt)).toInt = n
  rw [htruncated]
  exact Int64.toInt_ofIntClamp (show -2 ^ 63 ≤ n by omega) (show n ≤ 2 ^ 63 - 1 by omega)

end

/-! ## The order of doubles -/

/-- **Scale before significand** is the order of the ranks, and so that of
the units. -/
theorem compare_scale_then (m n : Nat) :
    (compare ((Grid.scale m : Int) - 1074) (Grid.scale n - 1074)).then
        (compare (Grid.significand m) (Grid.significand n))
      = compare (Grid.units m : Int) (Grid.units n) := by
  obtain hlt | rfl | hgt := Nat.lt_trichotomy m n
  · have hunits := Grid.units_lt_units hlt
    rw [Int.compare_eq_lt.mpr (Int.ofNat_lt.mpr hunits), Ordering.then_eq_lt, Int.compare_eq_lt,
      Int.compare_eq_eq, Nat.compare_eq_lt]
    have hscale := (Grid.lt_iff_scale_lt m n).mp hlt
    omega
  · rw [Int.compare_eq_eq.mpr rfl, Nat.compare_eq_eq.mpr rfl, Int.compare_eq_eq.mpr rfl]
    rfl
  · have hunits := Grid.units_lt_units hgt
    rw [Int.compare_eq_gt.mpr (Int.ofNat_lt.mpr hunits), Ordering.then_eq_gt, Int.compare_eq_gt,
      Int.compare_eq_eq, Nat.compare_eq_gt]
    have hscale := (Grid.lt_iff_scale_lt n m).mp hgt
    omega

/-- The signs taken away, the order is the other one. -/
theorem compare_neg_neg (m n : Int) : compare (-m) (-n) = (compare m n).swap := by
  rw [Int.compare_swap]
  obtain hlt | rfl | hgt := Int.lt_trichotomy m n
  · rw [Int.compare_eq_gt.mpr hlt, Int.compare_eq_gt.mpr (Int.neg_lt_neg hlt)]
  · rw [Int.compare_eq_eq.mpr rfl, Int.compare_eq_eq.mpr rfl]
  · rw [Int.compare_eq_lt.mpr hgt, Int.compare_eq_lt.mpr (Int.neg_lt_neg hgt)]

section

variable {rank : Nat} (pos : 0 < Grid.significand rank)

include pos

theorem units_pos : 0 < Grid.units rank := by
  rw [Grid.units_eq_significand_mul]
  exact Nat.mul_pos pos (Nat.two_pow_pos _)

theorem apply_positive_pos : 0 < Sign.positive.apply (Grid.units rank) :=
  Int.natCast_pos.mpr (units_pos pos)

theorem apply_negative_neg : Sign.negative.apply (Grid.units rank) < 0 :=
  Int.neg_neg_of_pos (Int.natCast_pos.mpr (units_pos pos))

end

/-- **What is unpacked is compared by its units.** Between two numbers of one
sign scale and significand decide, and between any others the signs. -/
theorem Unpacks.compare_eq {u v : UnpackedFloat} {m n : Int} (hu : Unpacks u m)
    (hv : Unpacks v n) : u.compare v = some (compare m n) := by
  cases hu with
  | zero sign =>
    cases hv with
    | zero sign' => rfl
    | finite sign' pos' =>
      cases sign' with
      | negative => exact congrArg some (Int.compare_eq_gt.mpr (apply_negative_neg pos')).symm
      | positive => exact congrArg some (Int.compare_eq_lt.mpr (apply_positive_pos pos')).symm
  | finite sign pos =>
    cases hv with
    | zero sign' =>
      cases sign with
      | negative => exact congrArg some (Int.compare_eq_lt.mpr (apply_negative_neg pos)).symm
      | positive => exact congrArg some (Int.compare_eq_gt.mpr (apply_positive_pos pos)).symm
    | finite sign' pos' =>
      cases sign with
      | negative =>
        cases sign' with
        | negative =>
          exact congrArg some
            ((congrArg Ordering.swap (compare_scale_then _ _)).trans (compare_neg_neg _ _).symm)
        | positive =>
          exact congrArg some (Int.compare_eq_lt.mpr
            (Int.lt_trans (apply_negative_neg pos) (apply_positive_pos pos'))).symm
      | positive =>
        cases sign' with
        | negative =>
          exact congrArg some (Int.compare_eq_gt.mpr
            (Int.lt_trans (apply_negative_neg pos') (apply_positive_pos pos))).symm
        | positive => exact congrArg some (compare_scale_then _ _)

section

variable {x y : Float}

/-- **Values are ordered as the units are.** -/
theorem value_lt_value_iff (hx : x.isFinite = true) (hy : y.isFinite = true) :
    value x < value y ↔ signedUnits x < signedUnits y := by
  rw [value_eq hx, value_eq hy, mul_lt_mul_iff_left₀ (zpow_pos two_pos _), Int.cast_lt]

theorem value_eq_value_iff (hx : x.isFinite = true) (hy : y.isFinite = true) :
    value x = value y ↔ signedUnits x = signedUnits y := by
  rw [value_eq hx, value_eq hy, mul_left_inj' (zpow_ne_zero _ two_ne_zero), Int.cast_inj]

/-- **Finite doubles are ordered as their values are.** -/
theorem lt_iff_value_lt (hx : x.isFinite = true) (hy : y.isFinite = true) :
    x < y ↔ value x < value y := by
  have hcompare := (unpacks hx).compare_eq (unpacks hy)
  rw [value_lt_value_iff hx hy, ← Int.compare_eq_lt]
  show decide (x.toModel < y.toModel) = true ↔ _
  rw [decide_eq_true_iff]
  show (x.toModel.unpack.compare y.toModel.unpack == some .lt) = true ↔ _
  rw [hcompare]
  exact beq_iff_eq.trans Option.some_inj

/-- **Finite doubles are equal if their values are.** -/
theorem beq_iff_value_eq (hx : x.isFinite = true) (hy : y.isFinite = true) :
    (x == y) = true ↔ value x = value y := by
  have hcompare := (unpacks hx).compare_eq (unpacks hy)
  rw [value_eq_value_iff hx hy, ← Int.compare_eq_eq]
  show (x.toModel.unpack.compare y.toModel.unpack == some .eq) = true ↔ _
  rw [hcompare]
  exact beq_iff_eq.trans Option.some_inj

end

/-! ## Absolute values -/

section

variable {x y : Float}

/-- Doubles of one rank unpack to the same but for their signs. -/
theorem abs_unpack_eq_unpack (hx : x.isFinite = true) (hy : y.isFinite = true)
    (hrank : unsignedBits y = unsignedBits x) (hsign : sign y = .positive) :
    x.toModel.unpack.abs = y.toModel.unpack := by
  by_cases hzero : unsignedBits x = 0
  · rw [unpack_of_unsignedBits_eq_zero hzero, unpack_of_unsignedBits_eq_zero (hrank.trans hzero),
      hsign]
    rfl
  · obtain ⟨_, _, _, hunpack, rfl, rfl⟩ := exists_unpack_eq_finite hx hzero
    obtain ⟨_, _, _, hunpack', rfl, rfl⟩ := exists_unpack_eq_finite hy (hrank.trans_ne hzero)
    rw [hunpack, hunpack', hsign]
    simp only [hrank]
    rfl

/-- **The absolute value of a double has its rank and no sign.** -/
theorem abs_eq_toFloat (h : x.isFinite = true) :
    x.abs = toFloat false (unsignedBits x) ((isFinite_iff_lt x).mp h) := by
  let y := toFloat false (unsignedBits x) ((isFinite_iff_lt x).mp h)
  have hfinite : y.isFinite = true := isFinite_iff.mpr ⟨_, _, _, ofFloat_toFloat⟩
  have hsign : sign y = .positive := by
    rw [sign_eq, signBit_toFloat]
    rfl
  show Float.ofModel (.pack x.toModel.unpack.abs) = y
  rw [abs_unpack_eq_unpack h hfinite unsignedBits_toFloat hsign]
  exact Float.ofBits_toBits y

/-- **Absolute values of doubles are those of their values.** -/
theorem value_abs (h : x.isFinite = true) : x.abs.isFinite = true ∧ value x.abs = |value x| := by
  have hfinite : x.abs.isFinite = true := by
    rw [abs_eq_toFloat h]
    exact isFinite_iff.mpr ⟨_, _, _, ofFloat_toFloat⟩
  have hunits : signedUnits x.abs = |signedUnits x| := by
    rw [← Int.natCast_natAbs, natAbs_signedUnits, abs_eq_toFloat h, signedUnits, sign_eq,
      signBit_toFloat, unsignedBits_toFloat]
    rfl
  refine ⟨hfinite, ?_⟩
  rw [value_eq hfinite, value_eq h, hunits, abs_mul, Int.cast_abs,
    abs_of_pos (zpow_pos (two_pos (α := ℚ)) (-1074))]

end

end Binary64

end Rpn
