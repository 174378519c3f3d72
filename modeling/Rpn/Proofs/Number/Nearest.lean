import Mathlib.Algebra.Group.Nat.Defs
import Rpn.Number.Grid

/-!
# Rounding onto the grid

The grid of finite doubles is a strictly increasing sequence of naturals,
`Grid.units`, and rounding picks from it. Three things are needed of it,
and none of them depends on how a tie is decided: a point of the grid is
its own nearest one (`nearest_units`), the quotient counts and not the
fraction that denotes it (`nearest_congr`), and what is too small or too
large for the grid ends at the two ends of it.

All of it rests on one equation. The ranks from `2⁵²` on come in runs, and
within a run, its end included, the grid is linear: `units_scaled` says so
with the leading bit of the significand counted in, so that the last rank
of a run needs no case of its own.
-/

namespace Rpn.Grid

/-! ## The runs of the grid -/

/-- The first `2⁵²` ranks are one unit apart. -/
theorem units_of_lt {n : Nat} (h : n < 2 ^ 52) : units n = n := if_pos h

/-- **Within a run the grid is linear**, up to the first rank of the run
after it. -/
theorem units_scaled (run : Nat) {q : Nat} (h : 2 ^ 52 ≤ q) (h' : q ≤ 2 ^ 53) :
    units (run * 2 ^ 52 + q) = q * 2 ^ run := by
  rw [units, if_neg (by omega)]
  obtain hlt | rfl := Nat.lt_or_eq_of_le h'
  · have hmod : (run * 2 ^ 52 + q) % 2 ^ 52 + 2 ^ 52 = q := by omega
    have hdiv : (run * 2 ^ 52 + q) / 2 ^ 52 - 1 = run := by omega
    rw [hmod, hdiv]
  · have hmod : (run * 2 ^ 52 + 2 ^ 53) % 2 ^ 52 + 2 ^ 52 = 2 ^ 52 := by omega
    have hdiv : (run * 2 ^ 52 + 2 ^ 53) / 2 ^ 52 - 1 = run + 1 := by omega
    rw [hmod, hdiv, Nat.pow_succ 2 run, Nat.pow_succ 2 52, Nat.mul_assoc, Nat.mul_comm 2]

/-- Every rank that is not among the first lies in a run. -/
theorem exists_run_of_le {n : Nat} (h : 2 ^ 52 ≤ n) :
    ∃ run q, n = run * 2 ^ 52 + q ∧ 2 ^ 52 ≤ q ∧ q < 2 ^ 53 :=
  ⟨n / 2 ^ 52 - 1, n % 2 ^ 52 + 2 ^ 52, by omega, by omega, by omega⟩

/-- **A larger rank lies further up.** -/
theorem units_lt_units_succ (n : Nat) : units n < units (n + 1) := by
  by_cases h : n < 2 ^ 52
  · rw [units_of_lt h]
    by_cases h' : n + 1 < 2 ^ 52
    · rw [units_of_lt h']
      exact Nat.lt_succ_self n
    · obtain rfl : n = 2 ^ 52 - 1 := by omega
      decide
  · obtain ⟨run, q, rfl, hq, hq'⟩ := exists_run_of_le (Nat.le_of_not_lt h)
    rw [units_scaled run hq (Nat.le_of_lt hq'), Nat.add_assoc,
      units_scaled run (Nat.le_succ_of_le hq) hq']
    exact Nat.mul_lt_mul_of_pos_right (Nat.lt_succ_self q) (Nat.two_pow_pos run)

/-- **The order of the ranks is that of the doubles.** -/
theorem units_lt_units {n m : Nat} (h : n < m) : units n < units m := by
  induction h with
  | refl => exact units_lt_units_succ n
  | step _ ih => exact Nat.lt_trans ih (units_lt_units_succ _)

theorem units_le_units {n m : Nat} (h : n ≤ m) : units n ≤ units m := by
  obtain h | rfl := Nat.lt_or_eq_of_le h
  · exact Nat.le_of_lt (units_lt_units h)
  · exact Nat.le_refl _

theorem lt_of_units_lt_units {n m : Nat} (h : units n < units m) : n < m :=
  Nat.lt_of_not_le fun hle => Nat.not_lt_of_le (units_le_units hle) h

/-! ## The last double at or below a number -/

/-- **The run of a number**: the quotient by its spacing has the 53 leading
bits of the number. -/
theorem exists_floorRank_eq {k : Nat} (h : 2 ^ 52 ≤ k) :
    ∃ run, floorRank k = run * 2 ^ 52 + k / 2 ^ run ∧ 2 ^ 52 ≤ k / 2 ^ run
      ∧ k / 2 ^ run < 2 ^ 53 := by
  have hk : k ≠ 0 := by omega
  obtain ⟨run, hrun⟩ := Nat.exists_eq_add_of_le' ((Nat.le_log2 hk).mpr h)
  have hpos := Nat.two_pow_pos run
  refine ⟨run, ?_, ?_, ?_⟩
  · rw [floorRank, if_neg (Nat.not_lt_of_le h), show k.log2 - 52 = run by omega]
  · rw [Nat.le_div_iff_mul_le hpos, ← Nat.pow_add, Nat.add_comm, ← hrun]
    exact Nat.log2_self_le hk
  · rw [Nat.div_lt_iff_lt_mul hpos, ← Nat.pow_add, show 53 + run = k.log2 + 1 by omega]
    exact Nat.lt_log2_self

/-- **`floorRank` is the last rank that is not above.** -/
theorem floorRank_spec (k : Nat) :
    units (floorRank k) ≤ k ∧ k < units (floorRank k + 1) := by
  by_cases h : k < 2 ^ 52
  · have hk := units_lt_units_succ k
    rw [floorRank, if_pos h]
    rw [units_of_lt h] at hk ⊢
    exact ⟨Nat.le_refl k, hk⟩
  · obtain ⟨run, hfloor, hle, hlt⟩ := exists_floorRank_eq (Nat.le_of_not_lt h)
    rw [hfloor, units_scaled run hle (Nat.le_of_lt hlt), Nat.add_assoc,
      units_scaled run (Nat.le_succ_of_le hle) hlt]
    exact ⟨Nat.div_mul_le_self k _, by
      rw [← Nat.div_lt_iff_lt_mul (Nat.two_pow_pos run)]
      exact Nat.lt_succ_self _⟩

/-- The rank of a point of the grid. -/
theorem floorRank_units (n : Nat) : floorRank (units n) = n := by
  obtain ⟨hle, hlt⟩ := floorRank_spec (units n)
  refine Nat.le_antisymm (Nat.le_of_not_lt fun h => ?_) ?_
  · exact Nat.not_lt_of_le hle (units_lt_units h)
  · exact Nat.le_of_lt_succ (lt_of_units_lt_units hlt)

/-- What is not below a double does not have a rank below its rank. -/
theorem le_floorRank_of_units_le {n k : Nat} (h : units n ≤ k) : n ≤ floorRank k :=
  Nat.le_of_lt_succ (lt_of_units_lt_units (Nat.lt_of_le_of_lt h (floorRank_spec k).2))

/-! ## The nearest double -/

/-- **The quotient decides, not the fraction.** -/
theorem nearest_mul_left {c : Nat} (hc : 0 < c) (num den : Nat) :
    nearest (c * num) (c * den) = nearest num den := by
  unfold nearest
  have hmid (x : Nat) : x * (c * den) = c * (x * den) := Nat.mul_left_comm x c den
  have htwice : 2 * (c * num) = c * (2 * num) := Nat.mul_left_comm 2 c num
  simp only [Nat.mul_div_mul_left _ _ hc, hmid, htwice, Nat.mul_lt_mul_left hc]

/-- **Two fractions of one value have one nearest double.** -/
theorem nearest_congr {num den num' den' : Nat} (hden : 0 < den) (hden' : 0 < den')
    (h : num * den' = num' * den) : nearest num den = nearest num' den' := by
  rw [← nearest_mul_left hden' num den, ← nearest_mul_left hden num' den',
    Nat.mul_comm den' num, Nat.mul_comm den num', h, Nat.mul_comm den' den]

/-- **A point of the grid is nearest to itself.** -/
theorem nearest_units {n den : Nat} (hden : 0 < den) (h : n ≤ infinityRank) :
    nearest (units n * den) den = n := by
  unfold nearest
  simp only
  rw [Nat.mul_div_cancel _ hden, floorRank_units]
  have hbelow : 2 * (units n * den) < (units n + units (n + 1)) * den := by
    rw [← Nat.mul_assoc, Nat.two_mul]
    exact Nat.mul_lt_mul_of_pos_right (Nat.add_lt_add_left (units_lt_units_succ n) _) hden
  rw [if_pos hbelow]
  exact Nat.min_eq_left h

/-- **Below infinity, rounding goes to one of the two neighbours.** -/
theorem nearest_eq_or {num den : Nat} (h : nearest num den < infinityRank) :
    nearest num den = floorRank (num / den) ∨ nearest num den = floorRank (num / den) + 1 := by
  have hmin {chosen : Nat} (hlt : min chosen infinityRank < infinityRank) :
      min chosen infinityRank = chosen := by omega
  unfold nearest at h ⊢
  rw [hmin h]
  split
  · exact .inl rfl
  · split
    · exact .inr rfl
    · omega

/-- **Rounding keeps a power of two**: a number that it divides has its own
double, or neighbours that are further apart than that. -/
theorem two_pow_dvd_units_nearest (n k : Nat) (h : nearest (n * 2 ^ k) 1 < infinityRank) :
    2 ^ k ∣ units (nearest (n * 2 ^ k) 1) := by
  have hor := nearest_eq_or h
  rw [Nat.div_one] at hor
  by_cases hexact : units (floorRank (n * 2 ^ k)) = n * 2 ^ k
  · have hself := nearest_units (Nat.succ_pos 0)
      (show floorRank (n * 2 ^ k) ≤ infinityRank by omega)
    rw [hexact, Nat.mul_one] at hself
    rw [hself, hexact]
    exact Nat.dvd_mul_left _ _
  · have hlarge : 2 ^ 52 ≤ n * 2 ^ k := Nat.le_of_not_lt fun hlt => hexact <| by
      rw [floorRank, if_pos hlt, units_of_lt hlt]
    obtain ⟨run, hfloor, hle, hlt⟩ := exists_floorRank_eq hlarge
    have hunits := units_scaled run hle (Nat.le_of_lt hlt)
    have hunits' := units_scaled run (Nat.le_succ_of_le hle) hlt
    have hrun : k ≤ run := Nat.le_of_not_le fun hrun => hexact <| by
      rw [hfloor, hunits]
      exact Nat.div_mul_cancel (Nat.dvd_mul_left_of_dvd (Nat.pow_dvd_pow 2 hrun) n)
    refine Nat.dvd_trans (Nat.pow_dvd_pow 2 hrun) ?_
    obtain heq | heq := hor
    · rw [heq, hfloor, hunits]
      exact Nat.dvd_mul_left _ _
    · rw [heq, hfloor, Nat.add_assoc, hunits']
      exact Nat.dvd_mul_left _ _

/-- **What is at most half a unit is nearest to zero.** -/
theorem nearest_eq_zero {num den : Nat} (hden : 0 < den) (h : 2 * num ≤ den) :
    nearest num den = 0 := by
  unfold nearest
  simp only
  rw [Nat.div_eq_of_lt (show num < den by omega), show floorRank 0 = 0 from rfl,
    show units 0 + units (0 + 1) = 1 from rfl, Nat.one_mul, if_neg (Nat.not_lt_of_le h)]
  split <;> rfl

/-- **What is past the grid is nearest to its end.** -/
theorem nearest_eq_infinityRank {num den : Nat} (hden : 0 < den)
    (h : units infinityRank * den ≤ num) : nearest num den = infinityRank := by
  have hbelow : infinityRank ≤ floorRank (num / den) :=
    le_floorRank_of_units_le ((Nat.le_div_iff_mul_le hden).mpr h)
  unfold nearest
  simp only
  refine Nat.min_eq_right (Nat.le_trans hbelow ?_)
  split
  · exact Nat.le_refl _
  · split
    · exact Nat.le_succ _
    · exact Nat.le_add_right _ _

end Rpn.Grid
