/-!
# Powers of natural numbers

Powers as a function with a name. A statement about `power` reads the same beside any algebra that
has a power of its own.

* `power_add`, `power_mul_power`: the laws of exponents.
* `log2_eq_iff`: the binary logarithm, by the two powers of two a number lies between.
* `length_toDigits_le_iff`: how many decimal digits a number has, by powers of ten.
-/

namespace FormLetter

/-- The product of `exponent` many times `base`. -/
def power (base exponent : Nat) : Nat := Nat.pow base exponent

@[simp] theorem power_zero (base : Nat) : power base 0 = 1 := rfl

theorem power_succ (base exponent : Nat) :
    power base (exponent + 1) = power base exponent * base := rfl

theorem power_pos {base : Nat} (h : 0 < base) (exponent : Nat) : 0 < power base exponent :=
  Nat.pow_pos h

theorem power_add (base m n : Nat) : power base (m + n) = power base m * power base n :=
  Nat.pow_add base m n

theorem power_mul_power (a b n : Nat) : power (a * b) n = power a n * power b n :=
  Nat.mul_pow a b n

theorem power_le_power {base m n : Nat} (hb : 0 < base) (h : m ≤ n) :
    power base m ≤ power base n :=
  Nat.pow_le_pow_right hb h

theorem power_log2_le {n : Nat} (h : n ≠ 0) : power 2 n.log2 ≤ n := Nat.log2_self_le h

theorem log2_lt_iff {n k : Nat} (h : n ≠ 0) : n.log2 < k ↔ n < power 2 k := Nat.log2_lt h

theorem log2_eq_iff {n k : Nat} (h : n ≠ 0) :
    n.log2 = k ↔ power 2 k ≤ n ∧ n < power 2 (k + 1) :=
  Nat.log2_eq_iff h

theorem length_toDigits_le_iff {n k : Nat} (h : 0 < k) :
    (Nat.toDigits 10 n).length ≤ k ↔ n < power 10 k :=
  Nat.length_toDigits_le_iff (by decide) h

end FormLetter
