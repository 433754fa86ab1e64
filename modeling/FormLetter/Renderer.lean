import FormLetter.Document.Problem
import FormLetter.Document.Report

/-!
# Rendering

A letter is written from a document in three passes: repeats are expanded, then elements whose
condition does not hold are removed, then the field values are filled in. Rendering never fails;
what cannot be understood is treated by its policy and counted in the report. Strict rendering
refuses documents with problems, and letters in which a required field has no value.

* `Renderer.validate_eq_ok_iff`: a document is valid if it has no problems.
* `Renderer.renderStrict_eq_ok_iff`: a strict rendering is a rendering of a valid document in
  which nothing required is missing.
-/

namespace FormLetter

/-- A letter, and what writing it has done. -/
structure Rendering where
  document : Forest
  report : Report
  deriving DecidableEq

/-- What a letter is written from. -/
structure RenderingInput where
  document : Forest
  values : Entries String
  data : Datum

/-- Writes letters by its settings. -/
structure Renderer where
  settings : Settings
  deriving DecidableEq

namespace Renderer

/-- A renderer with the default settings. -/
def default : Renderer := ⟨{}⟩

instance : Inhabited Renderer := ⟨default⟩

/-- The job of writing a letter for some field values and data. -/
def job (r : Renderer) (values : Entries String) (data : Datum) : Job := ⟨r.settings, values, data⟩

/-- Writes a letter with the help of the conditions read before, and adds to them. -/
def renderWith (r : Renderer) (memo : Memo) (document : Forest) (values : Entries String)
    (data : Datum) : Rendering × Memo :=
  let job := r.job values data
  let (expanded, expansion) := document.expand job
  let (visible, visibility) := expanded.selectVisible job { memo }
  let source := FieldSource.ofValues values
  (⟨visible.fill source,
    .ofPasses expansion visibility (visible.countFilled source) (visible.missing source)⟩,
    visibility.memo)

/-- Writes a letter. -/
def render (r : Renderer) (document : Forest) (values : Entries String) (data : Datum) :
    Rendering :=
  (r.renderWith .empty document values data).1

/-- The problems of a document, in document order. -/
def problems (r : Renderer) (document : Forest) : List Problem := document.problems r.settings

/-- Accepts a document without problems, and else gives its first problem. -/
def validate (r : Renderer) (document : Forest) : Except Problem Unit :=
  match r.problems document with
  | [] => .ok ()
  | problem :: _ => .error problem

/-- Writes a letter from a document without problems, if nothing required is missing in it. -/
def renderStrict (r : Renderer) (document : Forest) (values : Entries String) (data : Datum) :
    Except Problem Rendering :=
  (r.validate document).bind fun () =>
    let rendering := r.render document values data
    match rendering.report.missingRequired with
    | [] => .ok rendering
    | path :: _ => .error (.missingField path)

theorem validate_eq_ok_iff {r : Renderer} {document : Forest} :
    r.validate document = .ok () ↔ r.problems document = [] := by
  unfold validate
  split <;> simp_all

/-- A strict rendering is the rendering of a valid document without missing fields. -/
theorem renderStrict_eq_ok_iff {r : Renderer} {document : Forest} {values : Entries String}
    {data : Datum} {rendering : Rendering} :
    r.renderStrict document values data = .ok rendering ↔
      r.problems document = [] ∧ (r.render document values data).report.missingRequired = [] ∧
        r.render document values data = rendering := by
  unfold renderStrict
  cases hv : r.validate document with
  | error problem =>
    have : r.problems document ≠ [] := fun h => by simp [validate_eq_ok_iff.2 h] at hv
    simp [Except.bind, this]
  | ok u =>
    have := validate_eq_ok_iff.1 hv
    simp only [Except.bind, this, true_and]
    split <;> simp_all

end Renderer

end FormLetter
