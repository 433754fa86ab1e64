import FormLetter.Condition.Evaluation
import FormLetter.Condition.Memo
import FormLetter.Document.Forest
import FormLetter.Document.Job

/-!
# Conditional elements

An element with a condition stays only if the condition holds of the data; otherwise it goes with
everything in it, and the conditions within it are never looked at. An element that stays loses
its condition. One whose condition cannot be read stays too.

* `Forest.selectVisible_append`: siblings are decided one after the other.
-/

namespace FormLetter

/-- What deciding about elements has done so far. -/
structure VisibilityTally where
  /-- The conditions read so far. -/
  memo : Memo
  /-- Elements with a condition. -/
  evaluated : Nat := 0
  /-- Elements that went because their condition does not hold. -/
  removed : Nat := 0
  /-- Elements whose condition cannot be read. -/
  unsupported : Nat := 0

namespace Job

/-- Whether an element with the given condition stays. -/
def judge (job : Job) (condition : String) (tally : VisibilityTally) : Bool × VisibilityTally :=
  let (reading, memo) := tally.memo.read condition
  let counted := { tally with memo, evaluated := tally.evaluated + 1 }
  match reading with
  | .ok e =>
    if e.holds job.data then (true, counted)
    else (false, { counted with removed := tally.removed + 1 })
  | .error _ =>
    (conditionPolicy.apply false true, { counted with unsupported := tally.unsupported + 1 })

/-- Whether an element with the given tag stays. -/
def judgeTag (job : Job) (tag : Tag) (tally : VisibilityTally) : Bool × VisibilityTally :=
  match tag.attributes.get? job.settings.conditionAttribute with
  | some condition => job.judge condition tally
  | none => (true, tally)

end Job

namespace Forest

/-- Removes the elements whose condition does not hold, and the conditions of all others. -/
def selectVisible (job : Job) : Forest → VisibilityTally → Forest × VisibilityTally
  | .nil, tally => (.nil, tally)
  | .text content next, tally =>
    let (next, tally) := next.selectVisible job tally
    (.text content next, tally)
  | .element tag children next, tally =>
    match job.judgeTag tag tally with
    | (true, tally) =>
      let (children, tally) := children.selectVisible job tally
      let (next, tally) := next.selectVisible job tally
      (.element (tag.without job.settings.conditionAttribute) children next, tally)
    | (false, tally) => next.selectVisible job tally

theorem selectVisible_append (job : Job) (f g : Forest) (tally : VisibilityTally) :
    (f ++ g).selectVisible job tally =
      ((f.selectVisible job tally).1 ++ (g.selectVisible job (f.selectVisible job tally).2).1,
        (g.selectVisible job (f.selectVisible job tally).2).2) := by
  induction f generalizing tally with
  | nil => rfl
  | text s next ih => simp [selectVisible, ih]
  | element tag cs next _ ih =>
    rw [element_append, selectVisible, selectVisible]
    rcases job.judgeTag tag tally with ⟨_ | _, tally'⟩
    · exact ih tally'
    · simp [ih]

end Forest

end FormLetter
