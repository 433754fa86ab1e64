import FormLetter.Condition.Token

/-!
# Expressions

The tree that a condition stands for, independent of any data, and how such a tree is written as
tokens.

* `Expression.tokens` writes a tree from left to right, with parentheses for its groups only.
* `Expression.Fits` says that a tree is one that such a text stands for, when operators bind by
  their tightness: `||` joins parts joined by `&&`, that joins comparisons, and a comparison
  compares two operands. Several `||` or `&&` in a row are joined from the left.
* `Expression.depth` and `Expression.operators` are what the limits on conditions measure.
-/

namespace FormLetter

/-- A condition. -/
inductive Expression where
  | binary (op : Operator) (left right : Expression)
  | literal (value : Literal)
  | reference (target : Reference)
  /-- A part in parentheses. -/
  | group (inner : Expression)
  deriving DecidableEq

/-- How tightly an operator binds. -/
def Operator.tightness : Operator → Nat
  | .or => 0
  | .and => 1
  | .compare _ => 2

/-- What the left operand of an operator may at least bind: `||` and `&&` take their own kind on
the left, a comparison takes an operand. -/
def Operator.leftTightness : Operator → Nat
  | .or => 0
  | .and => 1
  | .compare _ => 3

/-- What the right operand of an operator may at least bind: something tighter than itself. -/
def Operator.rightTightness (op : Operator) : Nat := op.tightness + 1

namespace Expression

/-- The tokens of an expression, from left to right. -/
def tokens : Expression → List Token
  | .binary op left right => left.tokens ++ .operator op :: right.tokens
  | .literal value => [.literal value]
  | .reference target => [.reference target]
  | .group inner => .openParen :: inner.tokens ++ [.closeParen]

/-- The expression is one that can be written where operators of at least the given tightness are
allowed, without more parentheses than its groups have. -/
def Fits : Nat → Expression → Prop
  | tightness, .binary op left right =>
    tightness ≤ op.tightness ∧ Fits op.leftTightness left ∧ Fits op.rightTightness right
  | _, .literal _ => True
  | _, .reference _ => True
  | _, .group inner => Fits 0 inner

/-- How many groups are open at once at most. -/
def depth : Expression → Nat
  | .binary _ left right => max left.depth right.depth
  | .literal _ => 0
  | .reference _ => 0
  | .group inner => inner.depth + 1

/-- How many binary operators there are. -/
def operators : Expression → Nat
  | .binary _ left right => left.operators + 1 + right.operators
  | .literal _ => 0
  | .reference _ => 0
  | .group inner => inner.operators

/-- The number of nodes on the longest path from the root. -/
def height : Expression → Nat
  | .binary _ left right => max left.height right.height + 1
  | .literal _ => 1
  | .reference _ => 1
  | .group inner => inner.height + 1

/-- A tree is as high as its groups and operators make it, at most. -/
theorem height_le (e : Expression) : e.height ≤ e.depth + e.operators + 1 := by
  induction e with
  | binary op left right ihl ihr =>
    simp only [height, depth, operators]
    omega
  | literal _ => simp [height, depth, operators]
  | reference _ => simp [height, depth, operators]
  | group inner ih =>
    simp only [height, depth, operators]
    omega

end Expression

end FormLetter
