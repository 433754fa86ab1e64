import FormLetter.Number.Power

/-!
# Magnitudes of binary64 numbers

The finite magnitudes of IEEE 754 binary64, held exactly: a 53-bit significand times a power of
two, counted in units of `2 ^ (-1074)`, the smallest positive magnitude. Each magnitude has one
significand and one exponent, so equal magnitudes are equal terms.

* `nearest?` rounds any non-negative fraction to the nearest magnitude, ties to the even
  significand, and has no answer where the nearest one would be too large for the format.
* `exists_nearest?`: nothing that is small enough is out of range.
* `nearest?_units`: a magnitude is the nearest one to itself.
* `units_injective`: two magnitudes with the same number of units are the same.
-/

namespace FormLetter

/-- The exponent of the largest magnitudes. -/
def maxExponent : Nat := 2045

/-- A finite magnitude of the binary64 format: `significand` times `2 ^ exponent` units of
`2 ^ (-1074)`. -/
structure Magnitude where
  significand : Nat
  exponent : Nat
  significand_lt : significand < power 2 53
  exponent_le : exponent ≤ maxExponent
  /-- A magnitude that is not subnormal has its leading bit set. -/
  normal : exponent = 0 ∨ power 2 52 ≤ significand
  deriving DecidableEq

namespace Magnitude

/-! ## Units -/

/-- The magnitude as a count of units of `2 ^ (-1074)`. -/
def units (m : Magnitude) : Nat := m.significand * power 2 m.exponent

/-- A count of units beyond every magnitude. -/
def bound : Nat := power 2 53 * power 2 maxExponent

/-- How many places after the point the decimal expansion of a unit has. -/
def unitPlaces : Nat := 1074

/-- How many units make one. -/
def unitsPerOne : Nat := power 2 unitPlaces

/-- The magnitude zero. -/
def zero : Magnitude := ⟨0, 0, by decide, by decide, .inl rfl⟩

theorem units_zero : zero.units = 0 := rfl

theorem units_lt_bound (m : Magnitude) : m.units < bound :=
  Nat.lt_of_lt_of_le (Nat.mul_lt_mul_of_pos_right m.significand_lt (power_pos (by decide) _))
    (Nat.mul_le_mul_left _ (power_le_power (by decide) m.exponent_le))

theorem units_lt_of_exponent_lt {m n : Magnitude} (h : m.exponent < n.exponent) :
    m.units < n.units := by
  have hn : power 2 52 ≤ n.significand := n.normal.resolve_left (by omega)
  have h1 : m.significand * power 2 m.exponent < power 2 53 * power 2 m.exponent :=
    Nat.mul_lt_mul_of_pos_right m.significand_lt (power_pos (by decide) _)
  have h2 : power 2 53 * power 2 m.exponent ≤ power 2 52 * power 2 n.exponent := by
    rw [← power_add, ← power_add]
    exact power_le_power (by decide) (by omega)
  exact Nat.lt_of_lt_of_le h1 (Nat.le_trans h2 (Nat.mul_le_mul_right _ hn))

/-- A magnitude is determined by its number of units. -/
theorem units_injective {m n : Magnitude} (h : m.units = n.units) : m = n := by
  have he : m.exponent = n.exponent := by
    rcases Nat.lt_trichotomy m.exponent n.exponent with hlt | heq | hgt
    · have := units_lt_of_exponent_lt hlt
      omega
    · exact heq
    · have := units_lt_of_exponent_lt hgt
      omega
  have hs : m.significand = n.significand := by
    unfold units at h
    rw [he] at h
    exact Nat.eq_of_mul_eq_mul_right (power_pos (by decide) _) h
  cases m
  cases n
  simp_all

theorem units_eq_zero_iff {m : Magnitude} : m.units = 0 ↔ m = zero :=
  ⟨fun h => units_injective (h.trans units_zero.symm), fun h => h ▸ units_zero⟩

/-! ## Rounding -/

/-- The quotient of two natural numbers to the nearest integer, a tie to the even one. -/
def divNearestEven (num den : Nat) : Nat :=
  let quotient := num / den
  let doubled := 2 * (num % den)
  if doubled < den ∨ (doubled = den ∧ quotient % 2 = 0) then quotient else quotient + 1

/-- The exponent that gives a magnitude between `whole` and `whole + 1` units a significand of 53
bits, or of fewer if no exponent is left. -/
def exponentFor (whole : Nat) : Nat := whole.log2 - 52

theorem le_divNearestEven (num den : Nat) : num / den ≤ divNearestEven num den := by
  unfold divNearestEven
  dsimp only
  split <;> omega

theorem divNearestEven_mul (q : Nat) {den : Nat} (h : 0 < den) :
    divNearestEven (q * den) den = q := by
  simp [divNearestEven, Nat.mul_div_cancel _ h, h]

theorem exponentFor_pos_iff {whole : Nat} : 0 < exponentFor whole ↔ 52 < whole.log2 := by
  unfold exponentFor
  omega

theorem le_significand {num den : Nat} (h : exponentFor (num / den) ≠ 0) :
    power 2 52 ≤ divNearestEven num (den * power 2 (exponentFor (num / den))) := by
  refine Nat.le_trans ?_ (le_divNearestEven _ _)
  rw [← Nat.div_div_eq_div_mul, Nat.le_div_iff_mul_le (power_pos (by decide) _), ← power_add]
  have hlog := exponentFor_pos_iff.1 (Nat.pos_of_ne_zero h)
  have hne : num / den ≠ 0 := by
    intro h0
    rw [h0] at hlog
    simp at hlog
  rw [show 52 + exponentFor (num / den) = (num / den).log2 by unfold exponentFor; omega]
  exact power_log2_le hne

/-- The nearest magnitude to `num / den` units. There is none if that is out of the format's
range. -/
def nearest? (num den : Nat) : Option Magnitude :=
  let exponent := exponentFor (num / den)
  let significand := divNearestEven num (den * power 2 exponent)
  if small : significand < power 2 53 then
    if fits : exponent ≤ maxExponent then
      some ⟨significand, exponent, small, fits,
        (Decidable.em (exponent = 0)).imp_right le_significand⟩
    else none
  else
    if fits : exponent + 1 ≤ maxExponent then
      some ⟨power 2 52, exponent + 1, by decide, fits, .inr (Nat.le_refl _)⟩
    else none

/-- Units that are not too many have a nearest magnitude. -/
theorem exists_nearest? {num den : Nat} (h : num / den < power 2 (maxExponent + 52)) :
    ∃ m, nearest? num den = some m := by
  have hexponent : exponentFor (num / den) < maxExponent := by
    unfold exponentFor
    by_cases hzero : num / den = 0
    · rw [hzero]
      decide
    · have hlog := (log2_lt_iff hzero).2 h
      have hpos : 0 < maxExponent := by decide
      omega
  unfold nearest?
  dsimp only
  split
  · rw [dif_pos (Nat.le_of_lt hexponent)]
    exact ⟨_, rfl⟩
  · rw [dif_pos (Nat.succ_le_of_lt hexponent)]
    exact ⟨_, rfl⟩

theorem exponentFor_units (m : Magnitude) : exponentFor m.units = m.exponent := by
  unfold exponentFor units
  rcases m.normal with h0 | hn
  · rw [h0, power_zero, Nat.mul_one]
    by_cases hs : m.significand = 0
    · simp [hs]
    · have := (log2_lt_iff hs).2 m.significand_lt
      omega
  · have hsig : 0 < m.significand := Nat.lt_of_lt_of_le (power_pos (by decide) _) hn
    have hpos : m.significand * power 2 m.exponent ≠ 0 :=
      Nat.ne_of_gt (Nat.mul_pos hsig (power_pos (by decide) _))
    have hlog : (m.significand * power 2 m.exponent).log2 = 52 + m.exponent := by
      rw [log2_eq_iff hpos, power_add, Nat.add_right_comm, power_add]
      exact ⟨Nat.mul_le_mul_right _ hn,
        Nat.mul_lt_mul_of_pos_right m.significand_lt (power_pos (by decide) _)⟩
    omega

/-- A magnitude is the nearest one to itself, however its units are written as a fraction. -/
theorem nearest?_units (m : Magnitude) {den : Nat} (h : 0 < den) :
    nearest? (m.units * den) den = some m := by
  have hq : m.units * den / den = m.units := Nat.mul_div_cancel _ h
  have hs : divNearestEven (m.units * den) (den * power 2 m.exponent) = m.significand := by
    rw [units, Nat.mul_assoc, Nat.mul_comm _ den]
    exact divNearestEven_mul _ (Nat.mul_pos h (power_pos (by decide) _))
  unfold nearest?
  simp only [hq, exponentFor_units, hs]
  rw [dif_pos m.significand_lt, dif_pos m.exponent_le]

end Magnitude

end FormLetter
