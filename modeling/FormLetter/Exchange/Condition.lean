import FormLetter.Condition.Expression
import FormLetter.Condition.Fault
import FormLetter.Exchange.Json

/-!
# Conditions as JSON

Operators are handed over by their names. Literals, expressions and faults are variants, which
hold a value or have fields.
-/

namespace FormLetter

/-! ## Operators and literals -/

/-- The name of an operator. -/
def Operator.name : Operator → String
  | .and => "And"
  | .or => "Or"
  | .compare .equal => "Eq"
  | .compare .notEqual => "Ne"
  | .compare .greater => "Gt"
  | .compare .less => "Lt"
  | .compare .greaterOrEqual => "Ge"
  | .compare .lessOrEqual => "Le"

/-- All operators. -/
def Operator.all : List Operator :=
  [.and, .or, .compare .equal, .compare .notEqual, .compare .greater, .compare .less,
    .compare .greaterOrEqual, .compare .lessOrEqual]

/-- The operator with a name. -/
def Operator.ofName? (name : String) : Option Operator :=
  Operator.all.find? fun op => op.name == name

instance : Exchange Operator where
  toJson op := .string op.name
  ofJson? j := if j.isBare then j.variant?.bind Operator.ofName? else none

instance : Exchange Literal where
  toJson
    | .text value => .tagged "String" (.string value)
    | .number value => .tagged "Number" (.float value)
    | .bool value => .tagged "Boolean" (.bool value)
  ofJson? j :=
    match j.variant?, j.payload? with
    | some "String", some payload => (Exchange.ofJson? payload).map Literal.text
    | some "Number", some payload => (Exchange.ofJson? payload).map Literal.number
    | some "Boolean", some payload => (Exchange.ofJson? payload).map Literal.bool
    | _, _ => none

instance : Exchange Reference where
  toJson r := .object [("path", .string r.path), ("length", .bool r.counted)]
  ofJson? j :=
    (j.memberAs? "path").bind fun path =>
      (j.memberAs? "length").map fun counted => ⟨path, counted⟩

/-! ## Expressions -/

namespace Expression

/-- An expression as JSON. -/
def toJson : Expression → Json
  | .binary op left right =>
    .tagged "Binary"
      (.object [("op", Exchange.toJson op), ("left", left.toJson), ("right", right.toJson)])
  | .literal value => .tagged "Literal" (Exchange.toJson value)
  | .reference target => .tagged "ModelRef" (Exchange.toJson target)
  | .group inner => .tagged "Group" inner.toJson

/-- Reads an expression. -/
def ofJson? (j : Json) : Option Expression :=
  match h : j.payload? with
  | none => none
  | some payload =>
    have := Json.sizeOf_payload?_lt h
    match j.variant? with
    | some "Binary" =>
      match hl : payload.member? "left", hr : payload.member? "right" with
      | some left, some right =>
        have := Json.sizeOf_member?_lt hl
        have := Json.sizeOf_member?_lt hr
        (payload.memberAs? "op").bind fun op =>
          (ofJson? left).bind fun left => (ofJson? right).map fun right => .binary op left right
      | _, _ => none
    | some "Literal" => (Exchange.ofJson? payload).map .literal
    | some "ModelRef" => (Exchange.ofJson? payload).map .reference
    | some "Group" => (ofJson? payload).map .group
    | _ => none
termination_by sizeOf j

instance : Exchange Expression where
  toJson := toJson
  ofJson? := ofJson?

end Expression

/-! ## Faults -/

namespace Fault

/-- A variant with one field. -/
def taggedField (variant name : String) (value : Json) : Json :=
  .tagged variant (.object [(name, value)])

/-- Reads the field of a variant. -/
def fieldOf? {α : Type} [Exchange α] (j : Json) (name : String) : Option α :=
  j.payload?.bind fun payload => payload.memberAs? name

instance : Exchange Fault where
  toJson
    | .unknownText source => taggedField "UnknownToken" "text" (.string source)
    | .unexpected token => taggedField "UnexpectedToken" "found" (.string token)
    | .unexpectedEnd => .string "UnexpectedEnd"
    | .trailing token => taggedField "TrailingInput" "found" (.string token)
    | .nestingTooDeep limit => taggedField "NestingTooDeep" "limit" (Exchange.toJson limit)
    | .tooManyOperators limit => taggedField "TooManyOperators" "limit" (Exchange.toJson limit)
  ofJson? j :=
    match j.variant? with
    | some "UnknownToken" => (fieldOf? j "text").map .unknownText
    | some "UnexpectedToken" => (fieldOf? j "found").map .unexpected
    | some "UnexpectedEnd" => if j.isBare then some .unexpectedEnd else none
    | some "TrailingInput" => (fieldOf? j "found").map .trailing
    | some "NestingTooDeep" => (fieldOf? j "limit").map .nestingTooDeep
    | some "TooManyOperators" => (fieldOf? j "limit").map .tooManyOperators
    | _ => none

end Fault

end FormLetter
