import Mathlib
import Rpn.Proofs.Number.Value
import Rpn.Proofs.Session.Entry

/-!
# Numbers are typed as they were shown

The text of a number is a word, and typed again it enters the number, in a
session with a memory of any name: numerals are tried first, so a memory
that is called like the text does not get in the way. What is entered has
the bits of the number that was shown. The one exception is the negative
zero, which is shown as a zero and is typed as the positive one.

So the text of a finite number tells it from every other, as far as numbers
are told apart by their values. `value` makes that the equality of rational
numbers, and not only the one that the doubles themselves are compared with.
-/

namespace Rpn

namespace Binary64

/-- **The sign of a zero is one bit**, and no other double loses any. -/
theorem toBits_withoutZeroSign (x : Float) :
    (withoutZeroSign x).toBits = if x.toBits = 0x8000000000000000 then 0 else x.toBits := by
  have size : x.toBits.toNat < 2 ^ 64 := x.toBits.toNat_lt
  have hnegative : x.toBits = 0x8000000000000000 ↔ x.toBits.toNat = 2 ^ 63 := UInt64.toNat_inj.symm
  by_cases hzero : unsignedBits x = 0
  · rw [withoutZeroSign, if_pos hzero]
    unfold unsignedBits at hzero
    by_cases hsign : x.toBits = 0x8000000000000000
    · rw [if_pos hsign]
      rfl
    · rw [hnegative] at hsign
      have hpositive : x.toBits = 0 := UInt64.toNat_inj.mp (show x.toBits.toNat = 0 by omega)
      rw [hpositive]
      rfl
  · rw [withoutZeroSign, if_neg hzero, if_neg]
    unfold unsignedBits at hzero
    rw [hnegative]
    omega

end Binary64

open Binary64

section

variable {x y : Float}

/-- The two zeros are the only doubles that are equal and not the same. -/
theorem withoutZeroSign_eq_of_beq (h : (x == y) = true) :
    withoutZeroSign x = withoutZeroSign y := by
  obtain ⟨-, -, rfl | ⟨rfl, rfl⟩ | ⟨rfl, rfl⟩⟩ := Float.beq_iff_ne_nan_and_eq.mp h
  · rfl
  · rfl
  · rfl

/-- **Numbers have the same text if they are equal.** -/
theorem numberText_eq_numberText_iff (hx : x.isFinite = true) (hy : y.isFinite = true) :
    numberText x = numberText y ↔ (x == y) = true := by
  constructor
  · intro htext
    have hread := floatOf?_numberText hx
    rw [htext, floatOf?_numberText hy] at hread
    exact beq_of_withoutZeroSign_eq hx (Option.some.inj hread).symm
  · intro hbeq
    rw [← numberText_withoutZeroSign x, withoutZeroSign_eq_of_beq hbeq,
      numberText_withoutZeroSign y]

end

/-- **The text of a finite number enters the number**, whatever the memory
is called. What it enters has the same bits, but for the sign of a zero.
Hence the texts of two finite numbers are the same exactly if the numbers
are equal, by the comparison of doubles and by their values. -/
theorem number_text_round_trips {x : Float} (hx : x.isFinite = true) :
    (∀ memory : String, ∃ y : Float, Command.ofWord memory (numberText x) = .operand y
        ∧ y.toBits = if x.toBits = 0x8000000000000000 then 0 else x.toBits)
      ∧ ∀ y : Float, y.isFinite = true →
        (numberText x = numberText y ↔ value x = value y)
          ∧ (numberText x = numberText y ↔ (x == y) = true) := by
  refine ⟨fun memory => ⟨withoutZeroSign x, ?_, toBits_withoutZeroSign x⟩, fun y hy => ?_⟩
  · exact Command.ofWord_of_floatOf?_eq_some (floatOf?_numberText hx)
  · rw [numberText_eq_numberText_iff hx hy]
    exact ⟨beq_iff_value_eq hx hy, Iff.rfl⟩

/-- The negative zero is shown as the positive one, and typed as it. -/
theorem number_text_round_trips_negative_zero :
    (-0 : Float).isFinite = true ∧ (0 : Float).isFinite = true
      ∧ (∀ memory : String, ∃ y : Float,
          Command.ofWord memory (numberText (-0)) = .operand y ∧ y.toBits = 0)
      ∧ numberText (-0) = numberText 0 := by
  have hnegative : (-0 : Float).isFinite = true := by decide +kernel
  have hpositive : (0 : Float).isFinite = true := by decide +kernel
  obtain ⟨hread, htext⟩ := number_text_round_trips hnegative
  refine ⟨hnegative, hpositive, fun memory => ?_, (htext 0 hpositive).2.mpr (by decide +kernel)⟩
  obtain ⟨y, hy, hbits⟩ := hread memory
  rw [if_pos (by decide +kernel)] at hbits
  exact ⟨y, hy, hbits⟩

end Rpn
