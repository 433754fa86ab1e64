import FormLetter.Condition.Lexeme

/-!
# Repeat directives

A repeat directive reads `item in Model.path`: a variable, and the path of the list whose items
the variable is bound to, one after the other. Blanks separate the parts and may surround them.
-/

namespace FormLetter

/-- A repeat directive. -/
structure Directive where
  /-- The name that is bound to each item. -/
  variableName : String
  /-- The path of the list. -/
  path : String
  deriving DecidableEq

namespace Directive

/-- Reads the path of a directive from what stands behind `in`, up to the end of the text. -/
def readPath? (cs : List Char) : Option (List Char) :=
  match after? (dataRoot ++ ".").toList cs with
  | none => none
  | some written =>
    let path := written.takeWhile isWordChar
    if !path.isEmpty && (written.dropWhile isWordChar).all isBlank then some path else none

/-- Reads the text of a directive. -/
def ofText? (s : String) : Option Directive :=
  let cs := trimStart s.toList
  let name := cs.takeWhile isNameChar
  if name.head?.any isWordStart then
    ((afterBlanks? (cs.dropWhile isNameChar)).bind fun behindName =>
      (after? "in".toList behindName).bind fun behindIn =>
        (afterBlanks? behindIn).bind readPath?).map fun path =>
          ⟨String.ofList name, String.ofList path⟩
  else none

end Directive

end FormLetter
