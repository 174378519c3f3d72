import Mathlib.Algebra.Group.Nat.Defs
import Rpn.Number.Binary64

/-!
# The view of a double, and the double itself

`Binary64.ofFloat` reads a double off its bits, without asking the double
anything. What the double says of itself – whether it is finite, infinite
or not a number, and which doubles it equals – is defined on the fields of
the same bits. This module puts the two side by side: the constructors of
the view are the three answers (`Binary64.isFinite_iff`,
`Binary64.isInf_iff`, `Binary64.isNaN_iff`), and a finite double equals
itself as well as the zero of the other sign if it is a zero
(`Binary64.beq_of_withoutZeroSign_eq`).
-/

namespace Rpn.Binary64

open Float.Model (Format UnpackedFloat)
open Float.Model.UnpackedFloat (unpackExponent unpackMantissa)

/-! ## The fields of a double -/

/-- The exponent field of a double. -/
def exponentField (x : Float) : BitVec 11 := @unpackExponent Format.binary64 x.toBits.toBitVec

/-- The mantissa field of a double. -/
def mantissaField (x : Float) : BitVec 52 := @unpackMantissa Format.binary64 x.toBits.toBitVec

theorem toNat_exponentField (x : Float) :
    (exponentField x).toNat = unsignedBits x / 2 ^ 52 := by
  have size : x.toBits.toNat < 2 ^ 64 := x.toBits.toNat_lt
  simp [exponentField, unpackExponent, unsignedBits, Nat.shiftRight_eq_div_pow]
  omega

theorem toNat_mantissaField (x : Float) :
    (mantissaField x).toNat = unsignedBits x % 2 ^ 52 := by
  simp [mantissaField, unpackMantissa, unsignedBits]

/-- The exponent field is all ones exactly past the finite doubles. -/
theorem exponentField_eq_ones_iff (x : Float) :
    exponentField x = -1#11 ↔ Grid.infinityRank ≤ unsignedBits x := by
  have below : unsignedBits x < 2 ^ 63 := Nat.mod_lt _ (by decide)
  rw [← BitVec.toNat_inj, toNat_exponentField, Grid.infinityRank]
  simp only [BitVec.reduceNeg, BitVec.reduceToNat]
  omega

/-- The mantissa field is empty exactly at the multiples of `2⁵²`. -/
theorem mantissaField_eq_zero_iff (x : Float) :
    mantissaField x = 0#52 ↔ unsignedBits x % 2 ^ 52 = 0 := by
  rw [← BitVec.toNat_inj, toNat_mantissaField]
  rfl

/-- Unpacking a double whose exponent field is all ones. -/
theorem unpack_of_ones {x : Float} (h : exponentField x = -1#11) :
    x.toModel.unpack
      = if mantissaField x = 0#52 then
          .infinity (.ofBitVec (@UnpackedFloat.unpackSign Format.binary64 x.toBits.toBitVec))
        else .notANumber :=
  if_pos h

/-- Any other double unpacks to a finite one. -/
theorem isFinite_unpack_of_not_ones {x : Float} (h : exponentField x ≠ -1#11) :
    x.toModel.unpack.isFinite = true := by
  have other : x.toModel.unpack = _ := if_neg h
  rw [other]
  refine iteInduction (motive := fun u : UnpackedFloat => u.isFinite = true) (fun _ => ?_)
    fun _ => rfl
  by_cases hmantissa : mantissaField x = 0#52
  · exact congrArg UnpackedFloat.isFinite (dif_pos hmantissa)
  · exact congrArg UnpackedFloat.isFinite (dif_neg hmantissa)

/-! ## The status of a double -/

/-- **A double is finite exactly before the rank of infinity.** -/
theorem isFinite_iff_lt (x : Float) :
    x.isFinite = true ↔ unsignedBits x < Grid.infinityRank := by
  show x.toModel.unpack.isFinite = true ↔ _
  rw [← Nat.not_le, ← exponentField_eq_ones_iff]
  by_cases h : exponentField x = -1#11
  · rw [unpack_of_ones h]
    refine iff_of_false ?_ (not_not_intro h)
    split <;> exact Bool.false_ne_true
  · exact iff_of_true (isFinite_unpack_of_not_ones h) h

/-- **A double is infinite exactly at the rank of infinity.** -/
theorem isInf_iff_eq (x : Float) :
    x.isInf = true ↔ unsignedBits x = Grid.infinityRank := by
  have below : unsignedBits x < 2 ^ 63 := Nat.mod_lt _ (by decide)
  have ones := exponentField_eq_ones_iff x
  have empty := mantissaField_eq_zero_iff x
  unfold Grid.infinityRank at *
  show x.toModel.unpack.isInf = true ↔ _
  by_cases h : exponentField x = -1#11
  · have past := ones.mp h
    rw [unpack_of_ones h]
    split
    · have whole := empty.mp ‹_›
      exact iff_of_true rfl (by omega)
    · have part := mt empty.mpr ‹_›
      exact iff_of_false Bool.false_ne_true (by omega)
  · have before := mt ones.mpr h
    have finite := isFinite_unpack_of_not_ones h
    refine iff_of_false ?_ (by omega)
    cases hu : x.toModel.unpack with
    | infinity sign => rw [hu] at finite; cases finite
    | _ => exact Bool.false_ne_true

/-- A double is one of three things: finite, infinite or not a number. -/
theorem isNaN_iff_not (x : Float) :
    x.isNaN = true ↔ ¬x.isFinite = true ∧ ¬x.isInf = true := by
  show x.toModel.unpack.isNaN = true
    ↔ ¬x.toModel.unpack.isFinite = true ∧ ¬x.toModel.unpack.isInf = true
  cases x.toModel.unpack with
  | infinity sign => exact iff_of_false Bool.false_ne_true fun no => no.2 rfl
  | notANumber => exact iff_of_true rfl ⟨Bool.false_ne_true, Bool.false_ne_true⟩
  | zero sign => exact iff_of_false Bool.false_ne_true fun no => no.1 rfl
  | finite sign mantissa exponent pos =>
    exact iff_of_false Bool.false_ne_true fun no => no.1 rfl

/-- **The view of a finite double is a sign and a rank.** -/
theorem isFinite_iff {x : Float} :
    x.isFinite = true ↔ ∃ negative rank h, ofFloat x = .finite negative rank h := by
  rw [isFinite_iff_lt]
  constructor
  · intro h
    exact ⟨_, _, h, dif_pos h⟩
  · rintro ⟨negative, rank, h, hx⟩
    rw [ofFloat] at hx
    split at hx
    · assumption
    · split at hx <;> cases hx

/-- **The view of an infinite double is an infinity.** -/
theorem isInf_iff {x : Float} : x.isInf = true ↔ ∃ negative, ofFloat x = .infinite negative := by
  rw [isInf_iff_eq]
  constructor
  · intro h
    exact ⟨_, (dif_neg (by omega)).trans (if_pos h)⟩
  · rintro ⟨negative, hx⟩
    rw [ofFloat] at hx
    split at hx
    · cases hx
    · split at hx
      · assumption
      · cases hx

/-- **The view of what is not a number says so.** -/
theorem isNaN_iff {x : Float} : x.isNaN = true ↔ ofFloat x = .nan := by
  rw [isNaN_iff_not, isFinite_iff, isInf_iff]
  cases ofFloat x with
  | finite negative rank h => exact iff_of_false (fun no => no.1 ⟨_, _, h, rfl⟩) nofun
  | infinite negative => exact iff_of_false (fun no => no.2 ⟨_, rfl⟩) nofun
  | nan => exact iff_of_true ⟨nofun, nofun⟩ rfl

/-! ## Equality of doubles -/

/-- **A double that is a number equals itself.** -/
theorem beq_self_of_isFinite {x : Float} (h : x.isFinite = true) : (x == x) = true := by
  show (x.toModel.unpack.compare x.toModel.unpack == some .eq) = true
  change x.toModel.unpack.isFinite = true at h
  cases hu : x.toModel.unpack with
  | infinity sign => rw [hu] at h; cases h
  | notANumber => rw [hu] at h; cases h
  | zero sign => rfl
  | finite sign mantissa exponent pos =>
    have hexponent : compare exponent exponent = .eq := Std.ReflCmp.compare_self
    have hmantissa : compare mantissa mantissa = .eq := Std.ReflCmp.compare_self
    cases sign with
    | negative =>
      show (some ((compare exponent exponent).then (compare mantissa mantissa)).swap
        == some .eq) = true
      rw [hexponent, hmantissa]
      rfl
    | positive =>
      show (some ((compare exponent exponent).then (compare mantissa mantissa))
        == some .eq) = true
      rw [hexponent, hmantissa]
      rfl

/-- **A double without the sign of its zero**: a zero as the one without a
sign, and any other double as it is. -/
def withoutZeroSign (x : Float) : Float := if unsignedBits x = 0 then 0 else x

/-- Without the sign of its zero, a double has the same bits but for a
sign. -/
theorem unsignedBits_withoutZeroSign (x : Float) :
    unsignedBits (withoutZeroSign x) = unsignedBits x := by
  unfold withoutZeroSign
  split
  · exact Eq.symm ‹_›
  · rfl

/-- The sign of a zero is taken away once. -/
theorem withoutZeroSign_withoutZeroSign (x : Float) :
    withoutZeroSign (withoutZeroSign x) = withoutZeroSign x := by
  by_cases hzero : unsignedBits x = 0
  · have hzero' : unsignedBits (withoutZeroSign x) = 0 := by
      rw [unsignedBits_withoutZeroSign, hzero]
    rw [withoutZeroSign, if_pos hzero', withoutZeroSign, if_pos hzero]
  · have hself : withoutZeroSign x = x := if_neg hzero
    rw [hself, hself]

/-- A zero has rank zero, and a sign. -/
theorem ofFloat_of_unsignedBits_eq_zero {x : Float} (h : unsignedBits x = 0) :
    ofFloat x = .finite (signBit x) 0 (by decide) := by
  unfold ofFloat
  rw [dif_pos (h ▸ by decide)]
  congr 1

/-- The zeros equal each other. -/
theorem beq_of_unsignedBits_eq_zero {x y : Float} (hx : unsignedBits x = 0)
    (hy : unsignedBits y = 0) : (x == y) = true := by
  have hzero : ∀ {z : Float}, unsignedBits z = 0 → ∃ negative,
      z = toFloat negative 0 (by decide) :=
    fun hz => ⟨_, (toFloat_of_ofFloat (ofFloat_of_unsignedBits_eq_zero hz)).symm⟩
  obtain ⟨negative, rfl⟩ := hzero hx
  obtain ⟨negative', rfl⟩ := hzero hy
  cases negative <;> cases negative' <;> rfl

/-- **Doubles that differ in the sign of a zero at most are equal.** -/
theorem beq_of_withoutZeroSign_eq {x y : Float} (hx : x.isFinite = true)
    (h : withoutZeroSign x = withoutZeroSign y) : (x == y) = true := by
  have hbits := unsignedBits_withoutZeroSign
  by_cases hzero : unsignedBits x = 0
  · refine beq_of_unsignedBits_eq_zero hzero ?_
    rw [← hbits y, ← h, hbits x, hzero]
  · have hzero' : unsignedBits y ≠ 0 := by
      rw [← hbits y, ← h, hbits x]
      exact hzero
    rw [withoutZeroSign, withoutZeroSign, if_neg hzero, if_neg hzero'] at h
    exact h ▸ beq_self_of_isFinite hx

end Rpn.Binary64
