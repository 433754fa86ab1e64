/-!
# Settings

Which attributes of a document are directives, and what becomes of an element whose directive
cannot be understood.
-/

namespace FormLetter

/-- What becomes of an element whose directive cannot be understood. -/
inductive Policy where
  /-- It stays, without the directive. -/
  | keep
  /-- It is dropped, with everything in it. -/
  | drop
  deriving DecidableEq

/-- A condition that cannot be read hides nothing. -/
def conditionPolicy : Policy := .keep

/-- A repeat that cannot be read has no number of copies to make. -/
def repeatPolicy : Policy := .drop

/-- The settings of a renderer. -/
structure Settings where
  /-- The attribute whose text is the condition under which its element stays. -/
  conditionAttribute : String := "data-if"
  /-- The attribute whose text says what its element is repeated for. -/
  repeatAttribute : String := "data-repeat"
  /-- How many copies all repeats together may make. -/
  maxIterations : Option Nat := none
  deriving DecidableEq

instance : Inhabited Settings := ⟨{}⟩

end FormLetter
