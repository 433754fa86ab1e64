import FormLetter.Exchange.Condition
import FormLetter.Exchange.Data
import FormLetter.Exchange.Document
import FormLetter.Renderer

/-!
# Renderings as JSON

Settings, what a letter is written from, the letter and its report, and problems of documents.
Settings that are left out have their defaults; every field of a report has to be there.
-/

namespace FormLetter

/-! ## Settings -/

instance : Exchange Policy where
  toJson
    | .keep => .string "Open"
    | .drop => .string "Closed"
  ofJson? j :=
    match j.variant? with
    | some "Open" => if j.isBare then some .keep else none
    | some "Closed" => if j.isBare then some .drop else none
    | _ => none

instance : Exchange Settings where
  toJson s :=
    .object
      [("conditional_attribute", .string s.conditionAttribute),
        ("repeat_attribute", .string s.repeatAttribute),
        ("max_iterations", Exchange.toJson s.maxIterations)]
  ofJson? j :=
    let default : Settings := {}
    if j.isRecord 3 then
      (j.optional? "conditional_attribute" 0 default.conditionAttribute).bind fun condition =>
        (j.optional? "repeat_attribute" 1 default.repeatAttribute).bind fun directive =>
          (j.optional? "max_iterations" 2 default.maxIterations).map fun most =>
            ⟨condition, directive, most⟩
    else none

instance : Exchange Renderer where
  toJson r := .object [("options", Exchange.toJson r.settings)]
  ofJson? j := if j.isRecord 1 then (j.required? "options" 0).map Renderer.mk else none

/-! ## Letters and reports -/

instance : Exchange RenderingInput where
  toJson i :=
    .object
      [("document", Exchange.toJson i.document), ("values", Exchange.toJson i.values),
        ("model", Exchange.toJson i.data)]
  ofJson? j :=
    if j.isRecord 3 then
      (j.required? "document" 0).bind fun document =>
        (j.optional? "values" 1 .empty).bind fun values =>
          (j.optional? "model" 2 .null).map fun data => ⟨document, values, data⟩
    else none

instance : Exchange Report where
  toJson r :=
    .object
      [("merge_fields_replaced", Exchange.toJson r.fieldsReplaced),
        ("conditionals_evaluated", Exchange.toJson r.conditionsEvaluated),
        ("conditionals_removed", Exchange.toJson r.conditionsRemoved),
        ("repeats_expanded", Exchange.toJson r.repeatsExpanded),
        ("repeat_iterations", Exchange.toJson r.repeatIterations),
        ("unsupported_expressions", Exchange.toJson r.unsupported),
        ("missing_required", Exchange.toJson r.missingRequired),
        ("iteration_limit_reached", Exchange.toJson r.limitReached)]
  ofJson? j :=
    if j.isRecord 8 then do
      let fieldsReplaced ← j.required? "merge_fields_replaced" 0
      let conditionsEvaluated ← j.required? "conditionals_evaluated" 1
      let conditionsRemoved ← j.required? "conditionals_removed" 2
      let repeatsExpanded ← j.required? "repeats_expanded" 3
      let repeatIterations ← j.required? "repeat_iterations" 4
      let unsupported ← j.required? "unsupported_expressions" 5
      let missingRequired ← j.required? "missing_required" 6
      let limitReached ← j.required? "iteration_limit_reached" 7
      some
        { fieldsReplaced, conditionsEvaluated, conditionsRemoved, repeatsExpanded,
          repeatIterations, unsupported, missingRequired, limitReached }
    else none

instance : Exchange Rendering where
  toJson r :=
    .object [("document", Exchange.toJson r.document), ("report", Exchange.toJson r.report)]
  ofJson? j :=
    if j.isRecord 2 then
      (j.required? "document" 0).bind fun document =>
        (j.required? "report" 1).map fun report => ⟨document, report⟩
    else none

/-! ## Problems -/

instance : Exchange Problem where
  toJson
    | .conflictingDirectives tag => Fault.taggedField "ConflictingDirectives" "tag" (.string tag)
    | .unreadableCondition condition fault =>
      .tagged "UnsupportedCondition"
        (.object [("expression", .string condition), ("source", Exchange.toJson fault)])
    | .unreadableRepeat directive =>
      Fault.taggedField "UnsupportedRepeat" "expression" (.string directive)
    | .missingField path => Fault.taggedField "MissingRequiredField" "path" (.string path)
  ofJson? j :=
    match j.variant? with
    | some "ConflictingDirectives" => (Fault.fieldOf? j "tag").map .conflictingDirectives
    | some "UnsupportedCondition" =>
      j.payload?.bind fun payload =>
        (payload.memberAs? "expression").bind fun condition =>
          (payload.memberAs? "source").map fun fault => .unreadableCondition condition fault
    | some "UnsupportedRepeat" => (Fault.fieldOf? j "expression").map .unreadableRepeat
    | some "MissingRequiredField" => (Fault.fieldOf? j "path").map .missingField
    | _ => none

end FormLetter
