import FormLetter.Document.Job
import FormLetter.Document.Visibility
import FormLetter.Repeat.Expansion

/-!
# Reports

A report tells what became of the fields, conditions and repeats of one letter, so that content
of which something was not understood can be found.

* `Report.kept_add_removed`: of the elements with a condition, those that were not removed stayed.
-/

namespace FormLetter

/-- What writing one letter has done. -/
structure Report where
  /-- Placeholders that a value was put in for. -/
  fieldsReplaced : Nat
  /-- Elements that had a condition. -/
  conditionsEvaluated : Nat
  /-- Elements removed because their condition does not hold. -/
  conditionsRemoved : Nat
  /-- Repeats whose list was found. -/
  repeatsExpanded : Nat
  /-- Copies made by all repeats. -/
  repeatIterations : Nat
  /-- Conditions and repeats that could not be read. -/
  unsupported : Nat
  /-- Paths of required fields that are still without a value, each one once. -/
  missingRequired : List String
  /-- Whether a repeat was dropped because it would have made too many copies. -/
  limitReached : Bool
  deriving DecidableEq

namespace Report

/-- Elements that stayed although they had a condition. -/
def conditionsKept (r : Report) : Nat := r.conditionsEvaluated - r.conditionsRemoved

/-- Whether everything in the document was understood and every required field has a value. -/
def isClean (r : Report) : Bool :=
  r.unsupported == 0 && r.missingRequired.isEmpty && !r.limitReached

/-- The report of a letter from what each pass over it did: expansion, the conditions, and the
last filling in. -/
def ofPasses (expansion : ExpansionTally) (visibility : VisibilityTally) (replaced : Nat)
    (missing : List String) : Report where
  fieldsReplaced := shownCount (expansion.replaced + replaced)
  conditionsEvaluated := shownCount visibility.evaluated
  conditionsRemoved := shownCount visibility.removed
  repeatsExpanded := shownCount expansion.expanded
  repeatIterations := shownCount expansion.iterations
  unsupported := shownCount (expansion.unsupported + visibility.unsupported)
  missingRequired := missing.eraseDups
  limitReached := expansion.limitReached

theorem kept_add_removed {r : Report} (h : r.conditionsRemoved ≤ r.conditionsEvaluated) :
    r.conditionsKept + r.conditionsRemoved = r.conditionsEvaluated :=
  Nat.sub_add_cancel h

end Report

end FormLetter
