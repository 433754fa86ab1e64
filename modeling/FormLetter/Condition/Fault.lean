/-!
# Faults of conditions

Why the text of a condition cannot be read, and how a message says so.
-/

namespace FormLetter

/-- How many parentheses may be open at once. -/
def maxNesting : Nat := 64

/-- How many binary operators a condition may have. -/
def maxOperators : Nat := 256

/-- Why a condition cannot be read. Tokens are given by their description. -/
inductive Fault where
  /-- A part of the text is no token. -/
  | unknownText (source : String)
  /-- A token stands where the grammar has no place for it. -/
  | unexpected (token : String)
  /-- The text ends within an expression. -/
  | unexpectedEnd
  /-- A token follows a complete expression. -/
  | trailing (token : String)
  /-- Too many parentheses are open at once. -/
  | nestingTooDeep (limit : Nat)
  /-- There are too many operators. -/
  | tooManyOperators (limit : Nat)
  deriving DecidableEq

/-- The message of a fault. -/
def Fault.message : Fault → String
  | .unknownText source => "Unrecognised input '" ++ source ++ "'"
  | .unexpected token => "Unexpected token " ++ token
  | .unexpectedEnd => "Unexpected end of expression"
  | .trailing token => "Expected end of expression, found " ++ token
  | .nestingTooDeep limit => "Parentheses nested more than " ++ toString limit ++ " levels deep"
  | .tooManyOperators limit => "Expression has more than " ++ toString limit ++ " operators"

end FormLetter
