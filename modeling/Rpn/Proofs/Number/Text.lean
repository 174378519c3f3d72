import Mathlib.Data.List.TakeWhile
import Rpn.Number.Numeral
import Rpn.Number.Text
import Rpn.Proofs.Number.Decimal
import Rpn.Proofs.Number.Status

/-!
# Numbers are read as they were written

The text of a finite double is a numeral, and the numeral denotes the
double again (`floatOf?_numberText`). The one thing that is lost is the sign
of a zero, which is not written.

Writing goes three ways – all the digits of a whole number, the shortest
decimal with zeros put behind it, the shortest decimal with a point put into
it – and reading has one rule for them: the digits on both sides of the
point are one number, scaled down by a place for each of those behind it.
The decimal that is read need not be the one that was written. With zeros
put behind it the exponent has gone into the digits, and it is because
decimals are read by their value that this does not matter.
-/

namespace Rpn

-- Powers of naturals are those of the definitions.
attribute [local instance (high)] instPowNat

/-! ## Reading digits -/

namespace Numeral

variable {digits : List Char}

/-- **Digits alone are a whole number.** -/
theorem magnitude?_of_whole (hne : digits ≠ []) (h : ∀ c ∈ digits, c.isDigit = true) :
    magnitude? digits = some ⟨ofDigits digits, 0⟩ := by
  rw [magnitude?, List.takeWhile_eq_self_iff.mpr h, List.dropWhile_eq_nil_iff.mpr h]
  show (if digits ++ [] = [] then none else _) = _
  rw [List.append_nil, if_neg hne]
  rfl

/-- **Digits with a point among them** are one number, scaled down by the
places behind the point. -/
theorem magnitude?_of_fraction {whole fraction : List Char} (hne : whole ≠ [])
    (h : ∀ c ∈ whole, c.isDigit = true) (h' : ∀ c ∈ fraction, c.isDigit = true) :
    magnitude? (whole ++ '.' :: fraction)
      = some ⟨ofDigits (whole ++ fraction), 0 - fraction.length⟩ := by
  have hdot : Char.isDigit '.' = false := rfl
  have htake : (whole ++ '.' :: fraction).takeWhile Char.isDigit = whole := by
    rw [List.takeWhile_append_of_pos h, List.takeWhile_cons_of_neg (by simp [hdot]),
      List.append_nil]
  have hdrop : (whole ++ '.' :: fraction).dropWhile Char.isDigit = '.' :: fraction := by
    rw [List.dropWhile_append_of_pos h, List.dropWhile_cons_of_neg (by simp [hdot])]
  have hfraction : splitFraction ('.' :: fraction) = (fraction, []) := by
    show (fraction.takeWhile Char.isDigit, fraction.dropWhile Char.isDigit) = _
    rw [List.takeWhile_eq_self_iff.mpr h', List.dropWhile_eq_nil_iff.mpr h']
  rw [magnitude?, htake, hdrop, hfraction]
  show (if whole ++ fraction = [] then none else _) = _
  rw [if_neg (List.append_ne_nil_of_left_ne_nil hne fraction)]
  rfl

/-- A text without a sign is split into no sign and itself. -/
theorem splitSign_of_ne {text : List Char} (h : ∀ c ∈ text, c ≠ '-' ∧ c ≠ '+') :
    splitSign text = (false, text) := by
  unfold splitSign
  split
  · exact absurd rfl (h '-' List.mem_cons_self).1
  · exact absurd rfl (h '+' List.mem_cons_self).2
  · rfl

end Numeral

/-! ## The characters of a number -/

/-- **The characters a number without its sign is written with.** -/
def IsNumberChar (c : Char) : Prop := c.isDigit = true ∨ c = '.'

/-- None of them is a sign. -/
theorem IsNumberChar.ne_sign {c : Char} (h : IsNumberChar c) : c ≠ '-' ∧ c ≠ '+' := by
  obtain h | rfl := h
  · refine ⟨?_, ?_⟩
    all_goals
      rintro rfl
      exact absurd h (by decide)
  · exact ⟨by decide, by decide⟩

section

variable {n zeros places : Nat} {c : Char}

/-- The digits of a natural number are digits. -/
theorem isDigit_of_mem_toDigits (h : c ∈ Nat.toDigits 10 n) : c.isDigit = true :=
  Nat.isDigit_of_mem_toDigits (by decide) (by decide) h

theorem isDigit_of_mem_zeros (h : c ∈ List.replicate zeros '0') : c.isDigit = true := by
  rw [(List.mem_replicate.mp h).2]
  rfl

/-- Zeros behind the digits leave digits. -/
theorem isDigit_of_mem_append_zeros
    (h : c ∈ Nat.toDigits 10 n ++ List.replicate zeros '0') : c.isDigit = true :=
  (List.mem_append.mp h).elim isDigit_of_mem_toDigits isDigit_of_mem_zeros

/-- Zeros in front of the digits leave digits. -/
theorem isDigit_of_mem_leftpad (h : c ∈ (Nat.toDigits 10 n).leftpad places '0') :
    c.isDigit = true :=
  (List.mem_append.mp h).elim isDigit_of_mem_zeros isDigit_of_mem_toDigits

variable (n zeros places)

/-- **Zeros behind the digits multiply by ten.** -/
theorem ofDigits_append_zeros :
    Numeral.ofDigits (Nat.toDigits 10 n ++ List.replicate zeros '0') = n * 10 ^ zeros := by
  rw [Numeral.ofDigits, Nat.ofDigitChars_append, Nat.ofDigitChars_ten_toDigits,
    Nat.ofDigitChars_replicate_zero, Nat.mul_comm]

/-- **Zeros in front of the digits change nothing.** -/
theorem ofDigits_leftpad :
    Numeral.ofDigits ((Nat.toDigits 10 n).leftpad places '0') = n := by
  rw [Numeral.ofDigits, List.leftpad, Nat.ofDigitChars_append, Nat.ofDigitChars_replicate_zero,
    Nat.mul_zero, Nat.ofDigitChars_ten_toDigits]

/-- Padding makes a list as long as it says. -/
theorem le_length_leftpad : places ≤ ((Nat.toDigits 10 n).leftpad places '0').length := by
  rw [List.leftpad, List.length_append, List.length_replicate]
  omega

end

/-! ## Positional decimals -/

namespace Decimal

/-- A decimal with zeros behind it reads as a whole number. -/
theorem magnitude?_positional_ofNat (digits zeros : Nat) :
    Numeral.magnitude? (positional ⟨digits, .ofNat zeros⟩) = some ⟨digits * 10 ^ zeros, 0⟩ := by
  rw [← ofDigits_append_zeros]
  exact Numeral.magnitude?_of_whole
    (List.append_ne_nil_of_left_ne_nil Nat.toDigits_ne_nil _)
    fun _ => isDigit_of_mem_append_zeros

/-- A decimal with a point in it reads as itself. -/
theorem magnitude?_positional_negSucc (digits n : Nat) :
    Numeral.magnitude? (positional ⟨digits, .negSucc n⟩) = some ⟨digits, .negSucc n⟩ := by
  let padded := (Nat.toDigits 10 digits).leftpad (n + 1 + 1) '0'
  let whole := padded.length - (n + 1)
  have hlen : n + 1 + 1 ≤ padded.length := le_length_leftpad _ _
  have hne : padded.take whole ≠ [] := by
    rw [← List.length_pos_iff, List.length_take]
    omega
  have hplaces : (padded.drop whole).length = n + 1 := by
    rw [List.length_drop]
    omega
  show Numeral.magnitude? (padded.take whole ++ '.' :: padded.drop whole) = _
  rw [Numeral.magnitude?_of_fraction hne
      (fun _ h => isDigit_of_mem_leftpad (List.mem_of_mem_take h))
      (fun _ h => isDigit_of_mem_leftpad (List.mem_of_mem_drop h)),
    List.take_append_drop, ofDigits_leftpad, hplaces, Int.negSucc_eq, Int.zero_sub]
  rfl

/-- **A positional decimal reads as one of the same value.** -/
theorem exists_magnitude?_positional (d : Decimal) :
    ∃ d', Numeral.magnitude? d.positional = some d' ∧ d'.nearestRank = d.nearestRank := by
  obtain ⟨digits, exponent⟩ := d
  cases exponent with
  | ofNat zeros =>
    refine ⟨_, magnitude?_positional_ofNat digits zeros, nearestRank_congr ?_⟩
    show digits * 10 ^ zeros * 10 ^ 0 * 10 ^ (-(zeros : Int)).toNat
      = digits * 10 ^ zeros * 10 ^ 0
    rw [Int.toNat_neg_natCast, Nat.pow_zero, Nat.mul_one]
  | negSucc n => exact ⟨_, magnitude?_positional_negSucc digits n, rfl⟩

/-- A positional decimal has digits, and a point at most. -/
theorem isNumberChar_of_mem_positional {d : Decimal} {c : Char} (h : c ∈ d.positional) :
    IsNumberChar c := by
  obtain ⟨digits, exponent⟩ := d
  cases exponent with
  | ofNat zeros => exact .inl (isDigit_of_mem_append_zeros h)
  | negSucc n =>
    obtain h | h := List.mem_append.mp h
    · exact .inl (isDigit_of_mem_leftpad (List.mem_of_mem_take h))
    · obtain rfl | h := List.mem_cons.mp h
      · exact .inr rfl
      · exact .inl (isDigit_of_mem_leftpad (List.mem_of_mem_drop h))

end Decimal

/-! ## Doubles -/

namespace Binary64

/-- A whole number of units is as many times the unit of one. -/
theorem units_of_whole?_eq_some {rank value : Nat} (h : whole? rank = some value) :
    Grid.units rank = value * 2 ^ (1074 : Nat) := by
  unfold whole? at h
  split at h
  · obtain rfl := Option.some.inj h
    exact (Nat.div_mul_cancel (Nat.dvd_of_mod_eq_zero ‹_›)).symm
  · cases h

/-- **A double without its sign reads as itself.** -/
theorem exists_magnitude?_magnitudeText {rank : Nat} (h : rank ≤ Grid.infinityRank) :
    ∃ d, Numeral.magnitude? (magnitudeText rank) = some d ∧ d.nearestRank = rank := by
  have hshortest : ∃ d, Numeral.magnitude? (Decimal.shortest rank).positional = some d
      ∧ d.nearestRank = rank := by
    obtain ⟨d, hread, hrank⟩ := (Decimal.shortest rank).exists_magnitude?_positional
    exact ⟨d, hread, hrank.trans (Decimal.nearestRank_shortest h)⟩
  unfold magnitudeText
  split
  · rename_i value hwhole
    split
    · refine ⟨⟨value, 0⟩, ?_, ?_⟩
      · rw [Numeral.magnitude?_of_whole Nat.toDigits_ne_nil fun _ => isDigit_of_mem_toDigits,
          Numeral.ofDigits, Nat.ofDigitChars_ten_toDigits]
      · exact Decimal.nearestRank_whole h (units_of_whole?_eq_some hwhole)
    · exact hshortest
  · exact hshortest

/-- A double without its sign has digits, and a point at most. -/
theorem isNumberChar_of_mem_magnitudeText {rank : Nat} {c : Char}
    (h : c ∈ magnitudeText rank) : IsNumberChar c := by
  unfold magnitudeText at h
  split at h
  · split at h
    · exact .inl (isDigit_of_mem_toDigits h)
    · exact Decimal.isNumberChar_of_mem_positional h
  · exact Decimal.isNumberChar_of_mem_positional h

/-- **The text of a finite double is a numeral that denotes it**, but for
the sign of a zero. -/
theorem floatOf?_text (negative : Bool) {rank : Nat} (h : rank < Grid.infinityRank) :
    Numeral.floatOf? (text (.finite negative rank h))
      = some (toFloat (decide (negative ∧ rank ≠ 0)) rank h) := by
  obtain ⟨d, hread, rfl⟩ := exists_magnitude?_magnitudeText (Nat.le_of_lt h)
  have hsplit : Numeral.splitSign (magnitudeText d.nearestRank)
      = (false, magnitudeText d.nearestRank) :=
    Numeral.splitSign_of_ne fun c hc => (isNumberChar_of_mem_magnitudeText hc).ne_sign
  have hnumeral : Numeral.read? (text (.finite negative d.nearestRank h))
      = some ⟨decide (negative ∧ d.nearestRank ≠ 0), d⟩ := by
    rw [Numeral.read?, text, String.toList_ofList]
    by_cases hsign : negative ∧ d.nearestRank ≠ 0
    · rw [if_pos hsign, decide_eq_true hsign]
      show (Numeral.magnitude? (magnitudeText d.nearestRank)).map _ = _
      rw [hread]
      rfl
    · rw [if_neg hsign, decide_eq_false hsign, hsplit]
      show (Numeral.magnitude? (magnitudeText d.nearestRank)).map _ = _
      rw [hread]
      rfl
  rw [Numeral.floatOf?, hnumeral]
  exact dif_pos h

end Binary64

/-- **A finite double is read from its text**, without the sign of a
zero. -/
theorem floatOf?_numberText {x : Float} (h : x.isFinite = true) :
    Numeral.floatOf? (numberText x) = some (Binary64.withoutZeroSign x) := by
  obtain ⟨negative, rank, hrank, hview⟩ := Binary64.isFinite_iff.mp h
  obtain rfl := Binary64.toFloat_of_ofFloat hview
  rw [numberText, hview, Binary64.floatOf?_text, Binary64.withoutZeroSign,
    Binary64.unsignedBits_toFloat]
  by_cases hzero : rank = 0
  · subst hzero
    rw [if_pos rfl, decide_eq_false fun no => no.2 rfl]
    rfl
  · rw [if_neg hzero]
    congr 2
    cases negative <;> simp [hzero]

/-- The text of a number does not tell whether a zero has a sign. -/
theorem numberText_withoutZeroSign (x : Float) :
    numberText (Binary64.withoutZeroSign x) = numberText x := by
  unfold Binary64.withoutZeroSign
  split
  · rename_i hzero
    rw [numberText, numberText, Binary64.ofFloat_of_unsignedBits_eq_zero hzero, Binary64.text,
      if_neg fun no => no.2 rfl]
    decide +kernel
  · rfl

/-- **What is read as a number is finite.** -/
theorem Numeral.isFinite_of_floatOf?_eq_some {text : String} {value : Float}
    (h : floatOf? text = some value) : value.isFinite = true := by
  obtain ⟨numeral, -, hvalue⟩ := Option.bind_eq_some_iff.mp h
  unfold toFloat? at hvalue
  split at hvalue
  · obtain rfl := Option.some.inj hvalue
    exact Binary64.isFinite_iff.mpr ⟨_, _, _, Binary64.ofFloat_toFloat⟩
  · cases hvalue

/-- **The text of a finite double has digits, a point and a minus sign, if
anything.** -/
theorem mem_numberText {x : Float} (h : x.isFinite = true) {c : Char}
    (hc : c ∈ (numberText x).toList) : IsNumberChar c ∨ c = '-' := by
  obtain ⟨negative, rank, hrank, hview⟩ := Binary64.isFinite_iff.mp h
  rw [numberText, hview, Binary64.text, String.toList_ofList] at hc
  split at hc
  · obtain rfl | hc := List.mem_cons.mp hc
    · exact .inr rfl
    · exact .inl (Binary64.isNumberChar_of_mem_magnitudeText hc)
  · exact .inl (Binary64.isNumberChar_of_mem_magnitudeText hc)

end Rpn
