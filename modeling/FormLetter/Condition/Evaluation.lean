import FormLetter.Condition.Reading
import FormLetter.Data.Path

/-!
# Evaluating conditions

What a condition says about data. An operand is a datum: what is not there counts as the absent
datum, and a comparison gives a truth value. Operands of different kinds are compared as truth
values if one of them is one, else as numbers if both can be read as numbers, else as texts.

* `Datum.looselyEquals_comm`: equality does not depend on the order of its operands.
* `Expression.value_group`: parentheses do not change a value.
* `evaluate?` has no answer exactly where the condition cannot be read.
  `evaluate?_eq_none_of_mem`: so it has none where a token is unknown.
-/

namespace FormLetter

/-! ## Operands -/

namespace Datum

/-- Whether a datum counts as true: numbers other than zero do, texts unless they are empty, `0`
or `false` in any letter case, and all lists and records. -/
def isTrue : Datum → Bool
  | .null => false
  | .bool value => value
  | .number value => value.isNonzero
  | .text value => !value.isEmpty && value != "0" && lowered value.toList != "false".toList
  | .list _ => true
  | .record _ => true

/-- The number that a datum can be read as: a number other than `nan`, or a text that spells a
finite number between blanks. -/
def asNumber? : Datum → Option Number
  | .number value => if value.isNaN then none else some value
  | .text value => (Number.ofText? (trim value.toList)).filter Number.isFinite
  | .null | .bool _ | .list _ | .record _ => none

/-- Equality of operands that are not truth values. -/
def equalsByValue (a b : Datum) : Bool :=
  match a.asNumber?, b.asNumber? with
  | some x, some y => x.eqv y
  | _, _ =>
    match a.shown?, b.shown? with
    | some s, some t => s == t
    | none, none => a.alike b
    | _, _ => false

/-- Equality of operands: as truth values if one of them is one. -/
def looselyEquals : Datum → Datum → Bool
  | .bool a, b => a == b.isTrue
  | a, .bool b => a.isTrue == b
  | a, b => a.equalsByValue b

/-- The order of two operands that can be read as numbers. Others have none. -/
def ordered (holds : Number → Number → Bool) (a b : Datum) : Bool :=
  match a.asNumber?, b.asNumber? with
  | some x, some y => holds x y
  | _, _ => false

theorem equalsByValue_comm (a b : Datum) : a.equalsByValue b = b.equalsByValue a := by
  unfold equalsByValue
  cases a.asNumber? <;> cases b.asNumber? <;> cases a.shown? <;> cases b.shown? <;>
    simp [Number.eqv_comm, alike_comm a b, Bool.beq_comm]

theorem looselyEquals_comm (a b : Datum) : a.looselyEquals b = b.looselyEquals a := by
  cases a <;> cases b <;> simp [looselyEquals, equalsByValue_comm, Bool.beq_comm, isTrue]

end Datum

/-- Whether a comparison holds between two operands. -/
def Comparison.holds (a b : Datum) : Comparison → Bool
  | .equal => a.looselyEquals b
  | .notEqual => !a.looselyEquals b
  | .greater => a.ordered (fun x y => y.lt x) b
  | .less => a.ordered Number.lt b
  | .greaterOrEqual => a.ordered (fun x y => y.le x) b
  | .lessOrEqual => a.ordered Number.le b

/-! ## Expressions -/

/-- The largest number of items that a condition can tell from a larger one: the largest number of
32 bits. -/
def maxCount : Nat := 4294967295

/-- The operand that a reference stands for. -/
def Reference.value (data : Datum) (r : Reference) : Datum :=
  if r.counted then .number (Number.ofNat (min (data.countAt r.path) maxCount))
  else (data.at? r.path).getD .null

/-- The operand that a literal stands for. -/
def Literal.value : Literal → Datum
  | .text value => .text value
  | .number value => .number value
  | .bool value => .bool value

namespace Expression

/-- The operand that an expression stands for. -/
def value (data : Datum) : Expression → Datum
  | .literal l => l.value
  | .reference r => r.value data
  | .group inner => inner.value data
  | .binary .and left right => .bool ((left.value data).isTrue && (right.value data).isTrue)
  | .binary .or left right => .bool ((left.value data).isTrue || (right.value data).isTrue)
  | .binary (.compare c) left right => .bool (c.holds (left.value data) (right.value data))

/-- Whether a condition holds of some data. -/
def holds (data : Datum) (e : Expression) : Bool := (e.value data).isTrue

@[simp] theorem value_group (data : Datum) (e : Expression) :
    (group e).value data = e.value data := rfl

end Expression

/-- Reads a condition and says whether it holds of some data. -/
def evaluate? (source : String) (data : Datum) : Option Bool :=
  match Expression.ofText? source with
  | .ok e => some (e.holds data)
  | .error _ => none

/-- A condition with an unknown token has no answer. -/
theorem evaluate?_eq_none_of_mem {source unknown : String}
    (h : .unknown unknown ∈ Token.ofText source) (data : Datum) : evaluate? source data = none := by
  have hfound : ((Token.ofText source).findSome? Token.unknown?).isSome = true := by
    rw [List.isSome_findSome?, List.any_eq_true]
    exact ⟨_, h, rfl⟩
  obtain ⟨found, hfound⟩ := Option.isSome_iff_exists.1 hfound
  rw [evaluate?, Expression.ofText?, Expression.ofTokens?, hfound]

end FormLetter
