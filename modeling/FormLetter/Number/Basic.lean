import FormLetter.Number.Magnitude

/-!
# Numbers

The numbers of data and of conditions: IEEE 754 binary64 without arithmetic, since letters only
read, compare and write numbers. Both zeros, both infinities and one value that is no number are
told apart; the comparisons take the two zeros for equal and never hold for `nan`.

* `eqv_iff`, `le_iff`: the comparisons are those of ranks, which are integers.
* `lt_trichotomy`: of two numbers other than `nan` one is smaller or both are equal.
-/

namespace FormLetter

/-- A binary64 number. -/
inductive Number where
  | nan
  | infinite (negative : Bool)
  | finite (negative : Bool) (magnitude : Magnitude)
  deriving DecidableEq

namespace Number

/-- The number zero, with a positive sign. -/
def zero : Number := .finite false .zero

/-- `true` for the numbers other than `nan` and the infinities. -/
def isFinite : Number → Bool
  | .finite _ _ => true
  | _ => false

/-- `n`, negated if `negative` is set. -/
def signed (negative : Bool) (n : Nat) : Int := if negative then -n else n

/-- The place of a number among all numbers: its count of units for a finite one, and a count
beyond every finite one for an infinity. Not a number has no place. -/
def rank? : Number → Option Int
  | .nan => none
  | .infinite negative => some (signed negative Magnitude.bound)
  | .finite negative magnitude => some (signed negative magnitude.units)

/-- `a` and `b` are the same number, where zero has no sign. -/
def eqv (a b : Number) : Bool :=
  match a.rank?, b.rank? with
  | some x, some y => x == y
  | _, _ => false

/-- `a` is smaller than `b`. -/
def lt (a b : Number) : Bool :=
  match a.rank?, b.rank? with
  | some x, some y => decide (x < y)
  | _, _ => false

/-- `a` is smaller than `b`, or they are the same number. -/
def le (a b : Number) : Bool :=
  match a.rank?, b.rank? with
  | some x, some y => decide (x ≤ y)
  | _, _ => false

/-- Not a number: no place among the numbers. -/
def isNaN (a : Number) : Bool := a.rank?.isNone

/-- A number other than zero and `nan`. -/
def isNonzero (a : Number) : Bool :=
  match a.rank? with
  | some x => x != 0
  | none => false

/-- The nearest number to a natural number. -/
def ofNat (n : Nat) : Number :=
  match Magnitude.nearest? (n * Magnitude.unitsPerOne) 1 with
  | some magnitude => .finite false magnitude
  | none => .infinite false

/-- The nearest number to an integer. -/
def ofInt (n : Int) : Number :=
  match ofNat n.natAbs with
  | .finite _ magnitude => .finite (decide (n < 0)) magnitude
  | .infinite _ => .infinite (decide (n < 0))
  | .nan => .nan

/-- As an equation of functions, so that nothing has to multiply by the large number of units. -/
theorem ofNat_eq : ofNat = fun n =>
    match Magnitude.nearest? (n * Magnitude.unitsPerOne) 1 with
    | some magnitude => .finite false magnitude
    | none => .infinite false := by
  delta ofNat
  exact rfl

theorem ofInt_eq : ofInt = fun n =>
    match ofNat n.natAbs with
    | .finite _ magnitude => .finite (decide (n < 0)) magnitude
    | .infinite _ => .infinite (decide (n < 0))
    | .nan => .nan := by
  delta ofInt
  exact rfl

theorem eqv_iff {a b : Number} : a.eqv b = true ↔ ∃ x, a.rank? = some x ∧ b.rank? = some x := by
  unfold eqv
  cases a.rank? <;> cases b.rank? <;> simp
  exact eq_comm

theorem le_iff {a b : Number} :
    a.le b = true ↔ ∃ x y, a.rank? = some x ∧ b.rank? = some y ∧ x ≤ y := by
  unfold le
  cases a.rank? <;> cases b.rank? <;> simp

theorem eqv_comm (a b : Number) : a.eqv b = b.eqv a := by
  unfold eqv
  cases a.rank? <;> cases b.rank? <;> simp [Bool.beq_comm]

theorem eqv_trans {a b c : Number} (hab : a.eqv b = true) (hbc : b.eqv c = true) :
    a.eqv c = true := by
  obtain ⟨x, ha, hb⟩ := eqv_iff.1 hab
  obtain ⟨y, hb', hc⟩ := eqv_iff.1 hbc
  obtain rfl : x = y := Option.some.inj (hb.symm.trans hb')
  exact eqv_iff.2 ⟨x, ha, hc⟩

theorem eqv_self {a : Number} (h : a.isNaN = false) : a.eqv a = true := by
  cases a <;> simp_all [isNaN, rank?, eqv]

/-- Of two numbers other than `nan` one is smaller, or they are the same number. -/
theorem lt_trichotomy {a b : Number} (ha : a.isNaN = false) (hb : b.isNaN = false) :
    a.lt b = true ∨ a.eqv b = true ∨ b.lt a = true := by
  unfold isNaN at ha hb
  unfold lt eqv
  cases hx : a.rank? with
  | none => simp [hx] at ha
  | some x =>
    cases hy : b.rank? with
    | none => simp [hy] at hb
    | some y =>
      simp only [decide_eq_true_eq, beq_iff_eq]
      omega

end Number

end FormLetter
