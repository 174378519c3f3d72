import Rpn.Number.Grid

/-!
# What a double stands for

A double is a sign and a rank on the grid of finite doubles, or an
infinity, or not a number at all. `Binary64` has one constructor for each,
and `Binary64.ofFloat` reads it off the bits. Everything the library asks
of a double beyond arithmetic goes through this view: whether a result may
be shown, how a number is written, what a numeral means.

A finite `Binary64` carries the proof that its rank is on the grid, so
`Binary64.toFloat` builds the double from its bits and there is no pattern
it could be asked for that is not a double.
-/

namespace Rpn

-- Powers of naturals are those of the core library, whatever else is imported.
attribute [local instance (high)] instPowNat

/-- **What a double stands for.** -/
inductive Binary64 where
  /-- A finite double: its sign, and its distance from zero as a rank. -/
  | finite (negative : Bool) (rank : Nat) (h : rank < Grid.infinityRank)
  /-- One of the two infinities. -/
  | infinite (negative : Bool)
  /-- Not a number. -/
  | nan

namespace Binary64

/-! ## Reading the bits -/

/-- The sign bit of a double. -/
def signBit (x : Float) : Bool := decide (2 ^ (63 : Nat) ≤ x.toBits.toNat)

/-- The bits of a double below its sign bit. -/
def unsignedBits (x : Float) : Nat := x.toBits.toNat % 2 ^ (63 : Nat)

/-- **Reads a double.** -/
def ofFloat (x : Float) : Binary64 :=
  if h : unsignedBits x < Grid.infinityRank then .finite (signBit x) (unsignedBits x) h
  else if unsignedBits x = Grid.infinityRank then .infinite (signBit x)
  else .nan

/-! ## Building a finite double -/

/-- The bits of a sign and a rank. -/
def bitsOf (negative : Bool) (rank : Nat) : UInt64 :=
  UInt64.ofNat ((if negative then 2 ^ (63 : Nat) else 0) + rank)

theorem toNat_bitsOf (negative : Bool) {rank : Nat} (h : rank < Grid.infinityRank) :
    (bitsOf negative rank).toNat = (if negative then 2 ^ (63 : Nat) else 0) + rank := by
  unfold Grid.infinityRank at h
  unfold bitsOf
  rw [UInt64.toNat_ofNat']
  cases negative <;> simp <;> omega

/-- **The bits of a sign and a rank on the grid are those of a double**:
their exponent field is not all ones, so they are no spelling of a
not-a-number. -/
theorem valid_bitsOf (negative : Bool) {rank : Nat} (h : rank < Grid.infinityRank) :
    Float.Model.Format.binary64.Valid (bitsOf negative rank).toBitVec := by
  refine ⟨fun exponent_ones _ => ?_⟩
  exfalso
  have field := congrArg BitVec.toNat exponent_ones
  have bits := toNat_bitsOf negative h
  unfold Grid.infinityRank at h
  simp only [Float.Model.UnpackedFloat.unpackExponent] at field
  simp [Float.Model.Format.binary64, Float.Model.Format.numBits, bits] at field
  rw [Nat.shiftRight_eq_div_pow] at field
  cases negative <;> simp at field <;> omega

/-- **The double of a sign and a rank.** -/
def toFloat (negative : Bool) (rank : Nat) (h : rank < Grid.infinityRank) : Float :=
  .ofModel ⟨bitsOf negative rank, valid_bitsOf negative h⟩

section

variable {negative : Bool} {rank : Nat} {h : rank < Grid.infinityRank}

@[simp] theorem toBits_toFloat : (toFloat negative rank h).toBits = bitsOf negative rank := rfl

@[simp] theorem signBit_toFloat : signBit (toFloat negative rank h) = negative := by
  have bits := toNat_bitsOf negative h
  have below : rank < 2 ^ (63 : Nat) := Nat.lt_of_lt_of_le h (by decide)
  rw [signBit, toBits_toFloat, bits]
  cases negative
  · simpa using below
  · simp

@[simp] theorem unsignedBits_toFloat : unsignedBits (toFloat negative rank h) = rank := by
  have bits := toNat_bitsOf negative h
  have below : rank < 2 ^ (63 : Nat) := Nat.lt_of_lt_of_le h (by decide)
  rw [unsignedBits, toBits_toFloat, bits]
  cases negative <;> simp <;> omega

/-- **Building a double and reading it gives the same sign and rank.** -/
@[simp] theorem ofFloat_toFloat : ofFloat (toFloat negative rank h) = .finite negative rank h := by
  unfold ofFloat
  simp only [signBit_toFloat, unsignedBits_toFloat, h, dite_true]

end

/-- **Reading a finite double and building it gives the same double.** -/
theorem toFloat_of_ofFloat {x : Float} {negative : Bool} {rank : Nat}
    {h : rank < Grid.infinityRank} (read : ofFloat x = .finite negative rank h) :
    toFloat negative rank h = x := by
  unfold ofFloat at read
  split at read
  · simp only [finite.injEq] at read
    obtain ⟨rfl, rfl⟩ := read
    obtain ⟨⟨bits, valid⟩⟩ := x
    have size := bits.toNat_lt
    have same : bitsOf (signBit ⟨⟨bits, valid⟩⟩) (unsignedBits ⟨⟨bits, valid⟩⟩) = bits := by
      rw [← UInt64.toNat_inj, toNat_bitsOf _ (by assumption)]
      show (if decide (2 ^ (63 : Nat) ≤ bits.toNat) = true then 2 ^ (63 : Nat) else 0)
        + bits.toNat % 2 ^ (63 : Nat) = bits.toNat
      simp only [decide_eq_true_eq]
      split <;> omega
    unfold toFloat
    congr 2
  · split at read <;> contradiction

end Binary64

end Rpn
