import FormLetter.Condition.Reading
import FormLetter.Document.Forest
import FormLetter.Document.Settings
import FormLetter.Field.Placeholder
import FormLetter.Repeat.Directive

/-!
# Problems of documents

What is wrong with a document can be listed without writing a letter from it: elements with both
directives, and directives that cannot be read. A condition with placeholders is not checked, since
it is not complete before they are filled in.
-/

namespace FormLetter

/-- What is wrong with a document, or with a letter written from it. -/
inductive Problem where
  /-- An element has both a condition and a repeat directive. -/
  | conflictingDirectives (tag : String)
  /-- A condition cannot be read. -/
  | unreadableCondition (condition : String) (fault : Fault)
  /-- A repeat directive cannot be read. -/
  | unreadableRepeat (directive : String)
  /-- A required field has no value. -/
  | missingField (path : String)
  deriving DecidableEq

/-- The message of a problem. -/
def Problem.message : Problem → String
  | .conflictingDirectives tag =>
    "Element <" ++ tag ++ "> carries both a conditional and a repeat directive"
  | .unreadableCondition condition fault =>
    "Unsupported condition '" ++ condition ++ "': " ++ fault.message
  | .unreadableRepeat directive =>
    "Unsupported repeat '" ++ directive ++ "' (expected '<item> in Model.<path>')"
  | .missingField path => "Required merge field not resolved: " ++ path

/-- The problems of a condition: one, if it has no placeholders and cannot be read. -/
def conditionProblems (condition : String) : List Problem :=
  if hasPlaceholder condition then []
  else match Expression.ofText? condition with
    | .ok _ => []
    | .error fault => [.unreadableCondition condition fault]

/-- The problems of a repeat directive: one, if it cannot be read. -/
def repeatProblems (directive : String) : List Problem :=
  match Directive.ofText? directive with
  | some _ => []
  | none => [.unreadableRepeat directive]

/-- The problems of an element by itself. -/
def Tag.problems (settings : Settings) (tag : Tag) : List Problem :=
  match tag.attributes.get? settings.conditionAttribute,
      tag.attributes.get? settings.repeatAttribute with
  | some condition, some directive =>
    .conflictingDirectives tag.name :: conditionProblems condition ++ repeatProblems directive
  | some condition, none => conditionProblems condition
  | none, some directive => repeatProblems directive
  | none, none => []

namespace Forest

/-- The problems of a document, in document order. -/
def problems (settings : Settings) : Forest → List Problem
  | .nil => []
  | .text _ next => next.problems settings
  | .element tag children next =>
    tag.problems settings ++ children.problems settings ++ next.problems settings

end Forest

end FormLetter
