import FormLetter.Number.Decimal
import FormLetter.Number.Basic

/-!
# The shortest numeral of a number

A number is written with the fewest significant digits that still read back as it; among numerals
of that many digits the one nearest to it is taken, and of two equally near ones the larger.

* `Magnitude.nearest?_shortest`: the shortest numeral reads back.
* `Number.text` spells the whole number, with its sign and the words for values that no digits
  can spell.
-/

namespace FormLetter

namespace Magnitude

/-- The coefficient of a magnitude's exact decimal expansion, which has as many places after the
point as a unit: one divided by a power of two is that power of five over that power of ten. -/
def expansion (m : Magnitude) : Nat := m.units * power 5 unitPlaces

/-- The expansion with its last `dropped` digits cut off, plus `more` in the last digit left. -/
def cutoff (m : Magnitude) (dropped more : Nat) : Decimal :=
  ⟨m.expansion / power 10 dropped + more, dropped - unitPlaces⟩

/-- The numeral reads as the magnitude `m`. -/
def readsBack (m : Magnitude) (d : Decimal) : Bool := d.nearest? == some m

/-- The nearer one to `m` of its two neighbours among the numerals without the last `dropped`
digits of the expansion, of those that read back. -/
def neighbour? (m : Magnitude) (dropped : Nat) : Option Decimal :=
  let below := m.cutoff dropped 0
  let above := m.cutoff dropped 1
  let nearer := if 2 * (m.expansion % power 10 dropped) < power 10 dropped then below else above
  if m.readsBack below && m.readsBack above then some nearer
  else if m.readsBack below then some below
  else if m.readsBack above then some above
  else none

/-- The first numeral that reads back when ever fewer digits of the expansion are cut off. -/
def shortestFrom (m : Magnitude) : Nat → Decimal
  | 0 => m.cutoff 0 0
  | dropped + 1 => (m.neighbour? (dropped + 1)).getD (m.shortestFrom dropped)

/-- The shortest numeral that reads as the magnitude, and the nearest of those. -/
def shortest (m : Magnitude) : Decimal :=
  m.shortestFrom ((digitsOf m.expansion).length - 1)

theorem readsBack_of_neighbour? {m : Magnitude} {dropped : Nat} {d : Decimal}
    (h : m.neighbour? dropped = some d) : m.readsBack d = true := by
  unfold neighbour? at h
  dsimp only at h
  split at h
  · rename_i hb
    rw [Bool.and_eq_true] at hb
    split at h <;> simp_all
  · split at h
    · simp_all
    · split at h <;> simp_all

theorem expansion_zero : zero.expansion = 0 := by
  rw [expansion, units_zero, Nat.zero_mul]

theorem bound_lt : bound * power 5 unitPlaces < power 10 (unitPlaces + 310) := by decide +kernel

theorem expansion_lt (m : Magnitude) : m.expansion < power 10 (unitPlaces + 310) :=
  Nat.lt_of_le_of_lt (Nat.mul_le_mul_right _ (Nat.le_of_lt m.units_lt_bound)) bound_lt

theorem le_expansion {m : Magnitude} (h : m ≠ zero) :
    power 10 (unitPlaces - 324) ≤ m.expansion := by
  have h1 : power 10 (unitPlaces - 324) ≤ power 5 unitPlaces := by decide +kernel
  have h2 : 1 ≤ m.units := Nat.pos_of_ne_zero fun h' => h (units_eq_zero_iff.1 h')
  exact Nat.le_trans h1 (Nat.le_mul_of_pos_left _ h2)

/-- The value of the whole expansion is the magnitude's own. -/
theorem nearest?_expansion (m : Magnitude) :
    nearest? (m.expansion * power 10 0 * unitsPerOne) (power 10 unitPlaces) = some m := by
  have h : m.expansion * power 10 0 * unitsPerOne = m.units * power 10 unitPlaces := by
    rw [power_zero, Nat.mul_one, expansion, unitsPerOne, Nat.mul_assoc, ← power_mul_power]
  rw [h]
  exact nearest?_units m (power_pos (by decide) _)

/-- The whole expansion reads back. -/
theorem readsBack_expansion (m : Magnitude) : m.readsBack (m.cutoff 0 0) = true := by
  have hc : m.cutoff 0 0 = ⟨m.expansion, -unitPlaces⟩ := by simp [cutoff]
  have hp : unitPlaces = 1074 := rfl
  rw [readsBack, beq_iff_eq, hc, Decimal.nearest?]
  by_cases hm : m = zero
  · subst hm
    exact if_pos (.inl expansion_zero)
  · have hlow : unitPlaces - 324 < (digitsOf m.expansion).length := by
      rw [← Nat.not_le]
      intro hle
      exact Nat.not_lt.2 (le_expansion hm)
        ((length_toDigits_le_iff (by decide)).1 hle)
    have hhigh : (digitsOf m.expansion).length ≤ unitPlaces + 310 :=
      (length_toDigits_le_iff (by decide)).2 m.expansion_lt
    have hne : m.expansion ≠ 0 :=
      Nat.ne_of_gt (Nat.lt_of_lt_of_le (power_pos (by decide) _) (le_expansion hm))
    have hplace : (Decimal.mk m.expansion (-unitPlaces)).leadingPlace =
        (digitsOf m.expansion).length - unitPlaces := rfl
    rw [if_neg (by rw [hplace]; simp only; omega), if_neg (by rw [hplace]; omega)]
    rw [Decimal.numerator, Decimal.denominator]
    rw [show (-(unitPlaces : Int)).toNat = 0 by omega,
      show (-(-(unitPlaces : Int))).toNat = unitPlaces by omega]
    exact nearest?_expansion m

theorem readsBack_shortestFrom (m : Magnitude) (dropped : Nat) :
    m.readsBack (m.shortestFrom dropped) = true := by
  induction dropped with
  | zero => exact readsBack_expansion m
  | succ dropped ih =>
    rw [shortestFrom]
    cases h : m.neighbour? (dropped + 1) with
    | none => exact ih
    | some d => exact readsBack_of_neighbour? h

/-- The shortest numeral of a magnitude reads as that magnitude. -/
theorem nearest?_shortest (m : Magnitude) : m.shortest.nearest? = some m :=
  eq_of_beq (readsBack_shortestFrom m _)

end Magnitude

namespace Number

/-- How a number is written wherever it is shown: in letters, in messages and in comparisons of
texts. -/
def text : Number → String
  | .nan => "NaN"
  | .infinite negative => if negative then "-inf" else "inf"
  | .finite negative magnitude =>
    String.ofList ((if negative then ['-'] else []) ++ magnitude.shortest.text)

end Number

end FormLetter
