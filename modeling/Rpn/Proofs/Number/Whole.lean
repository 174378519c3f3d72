import Mathlib
import Rpn.Proofs.Number.Text
import Rpn.Proofs.Number.Value

/-!
# Whole numbers, and the point in the others

Whole numbers are written exactly up to a limit, as the integers that they
stand for. The limit is itself a double, and lies below `2⁶³`: a double is
compared with it as its value is, and below it the conversion to an integer
of 64 bits loses nothing, on either side of zero. From the limit on a whole
number is written as its shortest decimal, and so is every number that is
not whole.

It is the point that tells the last two apart, and neither direction of
that goes by itself. The shortest decimal of a whole number has no places
behind the point because the grid of the integers holds the number itself,
and the search comes to that grid before any finer one
(`Shortest.exponent_search_nonneg`). And a decimal without such places is
never read as a fraction: a number that is rounded to a double either has a
double of its own, or neighbours that are more than one apart
(`Grid.two_pow_dvd_units_nearest`).
-/

namespace Rpn

-- Powers of naturals are those of the definitions.
attribute [local instance (high)] instPowNat

/-! ## Decimal expansions -/

/-- **The decimal expansion of a natural number**: digits that denote it,
the first of them no zero unless there is no other. -/
structure IsExpansion (digits : List Char) (n : Nat) : Prop where
  ne_nil : digits ≠ []
  isDigit : ∀ c ∈ digits, c.isDigit = true
  ofDigits_eq : Numeral.ofDigits digits = n
  eq_of_head? : digits.head? = some '0' → digits = ['0']

/-- Positive numbers do not start with a zero. The digits of a number are
those of its tenth, and one more. -/
theorem head?_toDigits_ne {n : Nat} (pos : 0 < n) : (Nat.toDigits 10 n).head? ≠ some '0' := by
  induction n using Nat.strongRecOn with
  | ind n ih =>
    by_cases hlt : n < 10
    · rw [Nat.toDigits_of_lt_base hlt, List.head?_singleton]
      intro hzero
      have := Nat.digitChar_eq_zero.mp (Option.some.inj hzero)
      omega
    · have hle : 10 ≤ n := Nat.le_of_not_lt hlt
      rw [Nat.toDigits_of_base_le (by decide) hle,
        List.head?_append_of_ne_nil _ Nat.toDigits_ne_nil]
      exact ih (n / 10) (by omega) (by omega)

/-- **Naturals are written in their decimal expansion.** -/
theorem isExpansion_toDigits (n : Nat) : IsExpansion (Nat.toDigits 10 n) n where
  ne_nil := Nat.toDigits_ne_nil
  isDigit _ := isDigit_of_mem_toDigits
  ofDigits_eq := Nat.ofDigitChars_ten_toDigits
  eq_of_head? h := by
    obtain rfl | pos := Nat.eq_zero_or_pos n
    · rfl
    · exact absurd h (head?_toDigits_ne pos)

/-! ## The point of a decimal -/

theorem point_not_mem_of_isDigit {digits : List Char} (h : ∀ c ∈ digits, c.isDigit = true) :
    '.' ∉ digits :=
  fun hpoint => absurd (h '.' hpoint) (by decide)

namespace Decimal

/-- **A decimal shows a point if its exponent is negative.** -/
theorem point_mem_positional_iff (d : Decimal) : '.' ∈ d.positional ↔ d.exponent < 0 := by
  obtain ⟨digits, exponent⟩ := d
  cases exponent with
  | ofNat zeros =>
    exact iff_of_false (point_not_mem_of_isDigit fun _ => isDigit_of_mem_append_zeros)
      (Int.not_lt.mpr (Int.natCast_nonneg zeros))
  | negSucc n =>
    exact iff_of_true (List.mem_append_right _ List.mem_cons_self) (Int.negSucc_lt_zero n)

/-- **A decimal without a point is read as a whole number.** -/
theorem units_nearestRank_mod {d : Decimal} (hexponent : 0 ≤ d.exponent)
    (h : d.nearestRank < Grid.infinityRank) : Grid.units d.nearestRank % 2 ^ (1074 : Nat) = 0 := by
  have hden : 10 ^ (-d.exponent).toNat = 1 := by
    rw [show (-d.exponent).toNat = 0 by omega, Nat.pow_zero]
  have hmod (n k : Nat) (h : Grid.nearest (n * 2 ^ k) 1 < Grid.infinityRank) :
      Grid.units (Grid.nearest (n * 2 ^ k) 1) % 2 ^ k = 0 :=
    Nat.mod_eq_zero_of_dvd (Grid.two_pow_dvd_units_nearest n k h)
  rw [nearestRank_eq_nearest, hden] at h ⊢
  exact hmod _ 1074 h

end Decimal

namespace Shortest

variable {rank value level : Nat}

/-- A candidate lies on its grid. -/
theorem exponent_of_candidate? {d : Decimal} (h : candidate? rank level = some d) :
    d.exponent = (level : Int) - 1074 := by
  unfold candidate? at h
  simp only at h
  split at h
  · split at h
    · obtain rfl := Option.some.inj h
      rfl
    · obtain rfl := Option.some.inj h
      rfl
  · split at h
    · obtain rfl := Option.some.inj h
      rfl
    · cases h

/-- **The grid of the integers holds a whole number**, and so has a
candidate for it. -/
theorem candidate?_ne_none_of_whole (hrank : rank ≤ Grid.infinityRank)
    (hwhole : Grid.units rank = value * 2 ^ (1074 : Nat)) : candidate? rank 1074 ≠ none := by
  have hexact (k : Nat) : value * 2 ^ k * 5 ^ k / 10 ^ k = value := by
    rw [Nat.mul_assoc, ← Nat.mul_pow]
    exact Nat.mul_div_cancel _ (Nat.pow_pos (by decide))
  have hquotient : exact rank / 10 ^ (1074 : Nat) = value := by
    rw [exact, hwhole]
    exact hexact 1074
  have hlower : (gridPoint (exact rank / 10 ^ (1074 : Nat)) 1074).nearestRank = rank := by
    rw [hquotient]
    exact Decimal.nearestRank_whole hrank hwhole
  rw [candidate?, if_pos hlower]
  split <;> exact Option.some_ne_none _

/-- **The search ends at the integers** for a whole number, if not
before. -/
theorem exponent_search_nonneg (hrank : rank ≤ Grid.infinityRank)
    (hwhole : Grid.units rank = value * 2 ^ (1074 : Nat)) (hlevel : 1074 ≤ level) :
    0 ≤ (search rank level).exponent := by
  induction level, hlevel using Nat.le_induction with
  | base =>
    obtain ⟨d, hd⟩ := Option.ne_none_iff_exists'.mp (candidate?_ne_none_of_whole hrank hwhole)
    show 0 ≤ ((candidate? rank 1074).getD _).exponent
    rw [hd, Option.getD_some, exponent_of_candidate? hd]
    decide
  | succ level hle ih =>
    show 0 ≤ ((candidate? rank (level + 1)).getD (search rank level)).exponent
    cases hd : candidate? rank (level + 1) with
    | none => exact ih
    | some d =>
      rw [Option.getD_some, exponent_of_candidate? hd]
      omega

/-- From one on, the search starts no lower than at the integers. -/
theorem le_topLevel (hone : 2 ^ (1074 : Nat) ≤ Grid.units rank) : 1074 ≤ topLevel rank := by
  have hscaled (one : Nat) (h : one ≤ Grid.units rank) : one * 5 ^ (1074 : Nat) ≤ exact rank :=
    Nat.mul_le_mul_right _ h
  have hexact := hscaled _ hone
  have hne : exact rank ≠ 0 := Nat.ne_of_gt (Nat.lt_of_lt_of_le (by decide +kernel) hexact)
  have hlog (bits : Nat) (hbits : 2 ^ bits ≤ 2 ^ (1074 : Nat) * 5 ^ (1074 : Nat)) :
      bits ≤ (exact rank).log2 :=
    (Nat.le_log2 hne).mpr (Nat.le_trans hbits hexact)
  have hbound := hlog 3567 (by decide +kernel)
  unfold topLevel
  omega

end Shortest

namespace Binary64

/-! ## The text of a double -/

/-- **The text of a double shows a point unless it is a whole number.** -/
theorem point_mem_magnitudeText_iff {rank : Nat} (h : rank < Grid.infinityRank) :
    '.' ∈ magnitudeText rank ↔ whole? rank = none := by
  unfold magnitudeText
  cases hwhole : whole? rank with
  | none =>
    refine iff_of_true ((Decimal.point_mem_positional_iff _).mpr ?_) rfl
    have hrank := Decimal.nearestRank_shortest (Nat.le_of_lt h)
    refine Int.lt_of_not_ge fun hexponent => ?_
    have hmod := Decimal.units_nearestRank_mod hexponent (hrank.symm ▸ h)
    rw [hrank] at hmod
    rw [whole?, if_pos hmod] at hwhole
    cases hwhole
  | some value =>
    have hunits := units_of_whole?_eq_some hwhole
    refine iff_of_false ?_ nofun
    by_cases hlimit : value < exactLimit
    · simp only [if_pos hlimit]
      exact point_not_mem_of_isDigit fun _ => isDigit_of_mem_toDigits
    · have hone (unit : Nat) : unit ≤ value * unit :=
        Nat.le_mul_of_pos_left _ (Nat.lt_of_lt_of_le (by decide) (Nat.le_of_not_lt hlimit))
      simp only [if_neg hlimit]
      rw [Decimal.point_mem_positional_iff, Int.not_lt]
      refine Shortest.exponent_search_nonneg (Nat.le_of_lt h) hunits (Shortest.le_topLevel ?_)
      rw [hunits]
      exact hone _

section

variable {x : Float}

/-- A whole double is its value, but for the sign. -/
theorem whole?_of_value_eq (h : x.isFinite = true) {n : Int} (hvalue : value x = n) :
    whole? (unsignedBits x) = some n.natAbs := by
  have hquotient (m k : Nat) :
      (if m * 2 ^ k % 2 ^ k = 0 then some (m * 2 ^ k / 2 ^ k) else none) = some m := by
    rw [Nat.mul_mod_left, if_pos rfl, Nat.mul_div_cancel _ (Nat.two_pow_pos k)]
  rw [whole?, units_of_value_eq h hvalue]
  exact hquotient n.natAbs 1074

/-- **A double is no whole number if its value is no integer.** -/
theorem whole?_eq_none_iff (h : x.isFinite = true) :
    whole? (unsignedBits x) = none ↔ ¬∃ n : Int, value x = n := by
  cases hwhole : whole? (unsignedBits x) with
  | none =>
    refine iff_of_true rfl ?_
    rintro ⟨n, hn⟩
    rw [whole?_of_value_eq h hn] at hwhole
    cases hwhole
  | some m =>
    exact iff_of_false nofun (not_not_intro
      ⟨_, value_of_units_eq h (units_of_whole?_eq_some hwhole)⟩)

/-! ## The limit -/

theorem isFinite_limit : (9.2e18 : Float).isFinite = true := by decide +kernel

/-- **The limit is a double.** -/
theorem value_limit : value 9.2e18 = 9200000000000000000 := by
  have hunits : Grid.units (unsignedBits 9.2e18) = 9200000000000000000 * 2 ^ (1074 : Nat) := by
    decide +kernel
  have hsign : sign 9.2e18 = .positive := by
    rw [sign_eq, show signBit 9.2e18 = false by decide +kernel]
    rfl
  rw [value_of_units_eq isFinite_limit hunits, hsign]
  exact Int.cast_ofNat _

/-- **A double is compared with the limit as its value is.** -/
theorem abs_lt_limit_iff (h : x.isFinite = true) :
    x.abs < 9.2e18 ↔ |value x| < 9200000000000000000 := by
  obtain ⟨hfinite, hvalue⟩ := value_abs h
  rw [lt_iff_value_lt hfinite isFinite_limit, hvalue, value_limit]

/-- For whole numbers the comparison is one of integers. -/
theorem natAbs_lt_exactLimit (h : x.isFinite = true) {n : Int} (hvalue : value x = n)
    (hlimit : x.abs < 9.2e18) : n.natAbs < exactLimit := by
  have hcast : ((n.natAbs : Nat) : ℚ) < (exactLimit : Nat) := by
    rw [Nat.cast_natAbs, Int.cast_abs, ← hvalue]
    exact (abs_lt_limit_iff h).mp hlimit
  exact Nat.cast_lt.mp hcast

end

end Binary64

/-! ## The text of a number -/

open Binary64

section

variable {x : Float}

/-- **A finite double is written with a minus sign if it is negative**, and
the digits of its rank. -/
theorem toList_numberText (h : x.isFinite = true) :
    (numberText x).toList = if value x < 0 then '-' :: magnitudeText (unsignedBits x)
      else magnitudeText (unsignedBits x) := by
  have hview : ofFloat x = .finite (signBit x) (unsignedBits x) ((isFinite_iff_lt x).mp h) :=
    dif_pos _
  rw [numberText, hview, Binary64.text, String.toList_ofList]
  simp only [value_neg_iff h]

/-- **Integers are written with a minus sign if they are negative**, and
their decimal expansion. -/
theorem toList_toString (n : Int) :
    (toString n).toList
      = if n < 0 then '-' :: Nat.toDigits 10 n.natAbs else Nat.toDigits 10 n.natAbs := by
  cases n with
  | ofNat m =>
    rw [if_neg (show ¬Int.ofNat m < 0 from Int.not_lt.mpr (Int.natCast_nonneg m))]
    exact String.toList_ofList
  | negSucc m =>
    rw [if_pos (Int.negSucc_lt_zero m)]
    show ("-" ++ String.ofList (Nat.toDigits 10 (m + 1))).toList = _
    rw [String.toList_append]
    exact congrArg ('-' :: ·) String.toList_ofList

/-- **A whole number below the limit is written as an integer.** -/
theorem numberText_eq_toString (h : x.isFinite = true) {n : Int} (hvalue : value x = n)
    (hlimit : x.abs < 9.2e18) : numberText x = toString n := by
  have hdigits : magnitudeText (unsignedBits x) = Nat.toDigits 10 n.natAbs := by
    rw [magnitudeText, whole?_of_value_eq h hvalue]
    exact if_pos (natAbs_lt_exactLimit h hvalue hlimit)
  rw [← String.toList_inj, toList_numberText h, toList_toString, hdigits, hvalue]
  simp only [Int.cast_lt_zero]

/-- **A finite double is written with a point unless it is whole.** -/
theorem point_mem_numberText_iff (h : x.isFinite = true) :
    '.' ∈ (numberText x).toList ↔ ¬∃ n : Int, value x = n := by
  rw [← whole?_eq_none_iff h, ← point_mem_magnitudeText_iff ((isFinite_iff_lt x).mp h),
    toList_numberText h]
  split
  · exact List.mem_cons.trans (or_iff_right (by decide))
  · rfl

end

/-- **Whole numbers are written exactly.** The comparison with the limit is
that of the values. A whole number below the limit is converted to the
integer that it stands for, and is written in the decimal expansion of that,
with a minus sign if it is negative. A finite double of any size is written
with digits, a minus sign and a point, if anything, and with a point exactly
if it is not whole. -/
theorem numberText_whole_exact {x : Float} (h : x.isFinite = true) :
    (x.abs < 9.2e18 ↔ |value x| < 9200000000000000000)
      ∧ (∀ n : Int, value x = n → x.abs < 9.2e18 →
        x.toModel.toInt64.toInt = n
          ∧ numberText x = toString x.toModel.toInt64
          ∧ ∃ digits, IsExpansion digits n.natAbs
            ∧ (numberText x).toList = if n < 0 then '-' :: digits else digits)
      ∧ ('.' ∈ (numberText x).toList ↔ ¬∃ n : Int, value x = n)
      ∧ ∀ c ∈ (numberText x).toList, c.isDigit = true ∨ c = '.' ∨ c = '-' := by
  refine ⟨abs_lt_limit_iff h, fun n hvalue hlimit => ?_, point_mem_numberText_iff h,
    fun c hc => or_assoc.mp (mem_numberText h hc)⟩
  have hsize : n.natAbs < 2 ^ 63 :=
    Nat.lt_trans (natAbs_lt_exactLimit h hvalue hlimit) (by decide)
  have hinteger : x.toModel.toInt64.toInt = n := toInt_toInt64 h hvalue hsize
  have htext : numberText x = toString n := numberText_eq_toString h hvalue hlimit
  refine ⟨hinteger, ?_, _, isExpansion_toDigits n.natAbs, ?_⟩
  · rw [htext, ← hinteger]
    rfl
  · rw [htext, toList_toString]

/-- Past `2⁵³` the doubles are two apart. This one is negative. -/
theorem numberText_whole_exact_past_two_pow_53 :
    (-9007199254740994 : Float).isFinite = true
      ∧ value (-9007199254740994) = (-9007199254740994 : Int)
      ∧ (-9007199254740994 : Float).abs < 9.2e18
      ∧ (-9007199254740994 : Float).toModel.toInt64.toInt = -9007199254740994
      ∧ ∃ digits, IsExpansion digits 9007199254740994
        ∧ (numberText (-9007199254740994)).toList = '-' :: digits := by
  have hfinite : (-9007199254740994 : Float).isFinite = true := by decide +kernel
  have hunits : Grid.units (unsignedBits (-9007199254740994))
      = 9007199254740994 * 2 ^ (1074 : Nat) := by
    decide +kernel
  have hsign : sign (-9007199254740994) = .negative := by
    rw [sign_eq, show signBit (-9007199254740994) = true by decide +kernel]
    rfl
  have hvalue : value (-9007199254740994) = (-9007199254740994 : Int) := by
    rw [value_of_units_eq hfinite hunits, hsign]
    rfl
  have hlimit : (-9007199254740994 : Float).abs < 9.2e18 := by decide +kernel
  obtain ⟨hinteger, -, htext⟩ :=
    (numberText_whole_exact hfinite).2.1 (-9007199254740994) hvalue hlimit
  exact ⟨hfinite, hvalue, hlimit, hinteger, htext⟩

end Rpn
