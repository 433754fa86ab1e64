import FormLetter.Number.Shortest
import FormLetter.Text.Quoted

/-!
# Tokens of conditions

A condition is made of parentheses, operators, literals and references into the data. What cannot
be read as any of these becomes a token of its own kind, so that every text has tokens.

* `Token.description` is how a message names a token.
* `Operator.symbol` is how an operator is written, in conditions and in messages.
-/

namespace FormLetter

/-! ## Operators -/

/-- A comparison of two operands. -/
inductive Comparison where
  | equal
  | notEqual
  | greater
  | less
  | greaterOrEqual
  | lessOrEqual
  deriving DecidableEq, Repr

/-- A binary operator. -/
inductive Operator where
  | and
  | or
  | compare (comparison : Comparison)
  deriving DecidableEq, Repr

/-- How a comparison is written. -/
def Comparison.symbol : Comparison → String
  | .equal => "=="
  | .notEqual => "!="
  | .greater => ">"
  | .less => "<"
  | .greaterOrEqual => ">="
  | .lessOrEqual => "<="

namespace Operator

/-- How an operator is written. -/
def symbol : Operator → String
  | .and => "&&"
  | .or => "||"
  | .compare c => c.symbol

/-- Whether an operator compares its operands, rather than joining two conditions. -/
def isComparison : Operator → Bool
  | .compare _ => true
  | _ => false

end Operator

/-! ## Operands -/

/-- A value that a condition spells out. -/
inductive Literal where
  | text (value : String)
  | number (value : Number)
  | bool (value : Bool)
  deriving DecidableEq

/-- A reference into the data: the datum that a path names, or the number of items of the list
that it names. -/
structure Reference where
  path : String
  counted : Bool
  deriving DecidableEq

/-- The name by which a condition or a repeat refers to the whole of the data. -/
def dataRoot : String := "Model"

/-- The last name of a path that asks for a number of items. -/
def countName : String := "Count"

/-- A literal as a message shows it. -/
def Literal.description : Literal → String
  | .text value => "string " ++ quoted value
  | .number value => "number " ++ value.text
  | .bool value => "boolean " ++ if value then "true" else "false"

/-- A reference as a message shows it, with a point after the root even if the path is empty. -/
def Reference.description (r : Reference) : String :=
  let path := dataRoot ++ "." ++ r.path
  "'" ++ (if r.counted then path ++ "." ++ countName else path) ++ "'"

/-! ## Tokens -/

/-- A token of a condition. -/
inductive Token where
  | openParen
  | closeParen
  | operator (op : Operator)
  | literal (value : Literal)
  | reference (target : Reference)
  /-- A part of the text that is no other token. -/
  | unknown (source : String)
  deriving DecidableEq

namespace Token

/-- How a message names a token. -/
def description : Token → String
  | .openParen => "'('"
  | .closeParen => "')'"
  | .operator op => "'" ++ op.symbol ++ "'"
  | .literal value => value.description
  | .reference target => target.description
  | .unknown source => "'" ++ source ++ "'"

/-- The text of a token that could not be classified. -/
def unknown? : Token → Option String
  | .unknown source => some source
  | _ => none

end Token

end FormLetter
