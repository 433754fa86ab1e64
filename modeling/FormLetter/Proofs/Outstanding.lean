import FormLetter.Proofs.Settled

/-!
# Outstanding fields

The fields that a letter still asks for are those of its required placeholders. For a tidy document,
and field values and data without brackets, the report names exactly these fields, each once and in
the order in which the letter asks for them first. A strict rendering fails with the first of them.

* `Forest.Settled.missing`: in a settled document a required field is missing.
* `Renderer.exact_missingRequired`: what a report names, and what a strict rendering fails with.
-/

namespace FormLetter

/-- The paths of the required placeholders of a document, in document order. -/
def Forest.required (f : Forest) : List String :=
  f.contents.flatMap fun s => ((placeholders s).filter Placeholder.required).map Placeholder.path

/-! ## First occurrences -/

section

variable {α : Type} [BEq α] [LawfulBEq α]

/-- Without its repetitions a list has its elements in the order in which they come first. -/
theorem pairwise_eraseDups (xs : List α) :
    xs.eraseDups.Pairwise fun x y => xs.idxOf x < xs.idxOf y := by
  induction xs using List.reverseRecOn with
  | nil => exact .nil
  | append_singleton xs z ih =>
    have hold : ∀ x ∈ xs.eraseDups, (xs ++ [z]).idxOf x = xs.idxOf x := fun x hx =>
      List.idxOf_append_of_mem (List.mem_eraseDups.1 hx)
    rw [List.eraseDups_append, List.pairwise_append]
    refine ⟨ih.imp_of_mem fun hx hy hlt => ?_, ?_, ?_⟩
    · rwa [hold _ hx, hold _ hy]
    · by_cases hz : z ∈ xs
      · simp [List.removeAll, hz]
      · simp [List.removeAll, hz, List.eraseDups_cons]
    · -- An element behind all of `xs` is not in `xs`, so its first index is the last one.
      intro x hx y hy
      have hnew : y ∈ [z] ∧ y ∉ xs := by
        simpa [List.removeAll] using List.mem_eraseDups.1 hy
      rw [hold x hx, List.idxOf_append_of_notMem hnew.2]
      have hlt := List.idxOf_lt_length_iff.2 (List.mem_eraseDups.1 hx)
      omega

theorem nodup_eraseDups (xs : List α) : xs.eraseDups.Nodup :=
  (pairwise_eraseDups xs).imp fun hlt heq => absurd (heq ▸ hlt) (lt_irrefl _)

end

/-! ## Required placeholders -/

namespace Forest

variable {f : Forest} {source : FieldSource}

theorem missing_eq_flatMap (source : FieldSource) (f : Forest) :
    f.missing source = f.contents.flatMap source.missing := by
  induction f with
  | nil => rfl
  | text content next ih => rw [missing, ih, contents, List.flatMap_cons]
  | element tag children next ihc ihn =>
    rw [missing, ihc, ihn, Tag.missing, contents, List.flatMap_append, List.flatMap_append,
      List.flatMap_map]

/-- In a settled document each required field is missing. -/
theorem Settled.missing {job : Job} (h : f.Settled job) :
    f.missing (.ofValues job.values) = f.required := by
  rw [missing_eq_flatMap, required]
  refine List.flatMap_congr fun s hs => ?_
  rw [FieldSource.missing]
  congr 1
  refine List.filter_congr fun p hp => ?_
  rw [h.no_value s hs p hp, Option.isNone_none, Bool.and_true]

end Forest

/-! ## What is reported -/

namespace Renderer

variable (r : Renderer) {document : Forest} {values : Entries String} {data : Datum}

theorem missingRequired_eq_eraseDups (memo : Memo)
    (hdocument : ∀ s ∈ document.contents, Tidy s.toList)
    (hvalues : ∀ e ∈ values.toList, BracketFree e.2.toList)
    (hdata : ∀ s ∈ data.texts, BracketFree s.toList) :
    let rendering := (r.renderWith memo document values data).1
    rendering.report.missingRequired = rendering.document.required.eraseDups := by
  intro rendering
  have hmissing := r.missing_renderWith memo hdocument hvalues hdata
  have hrequired := (r.settled_renderWith memo hdocument hvalues hdata).missing
  exact hmissing.symm.trans (congrArg List.eraseDups hrequired)

/-- What a strict rendering of a document without problems gives. -/
theorem renderStrict_of_problems_eq_nil (h : r.problems document = []) :
    r.renderStrict document values data =
      match (r.render document values data).report.missingRequired with
      | [] => .ok (r.render document values data)
      | path :: _ => .error (.missingField path) := by
  unfold renderStrict
  rw [validate_eq_ok_iff.2 h]
  rfl

/-- The report names the fields of the required placeholders in the letter, each once and in the
order in which they come first. So a strict rendering of a document without problems succeeds if no
required placeholder is left in the letter, and else it fails with the first one. -/
theorem exact_missingRequired (memo : Memo) (document : Forest) (values : Entries String)
    (data : Datum) (hdocument : ∀ s ∈ document.contents, Tidy s.toList)
    (hvalues : ∀ e ∈ values.toList, BracketFree e.2.toList)
    (hdata : ∀ s ∈ data.texts, BracketFree s.toList) :
    (let rendering := (r.renderWith memo document values data).1
      let required := rendering.document.required
      let missing := rendering.report.missingRequired
      missing.Nodup ∧ (∀ path, path ∈ missing ↔ path ∈ required) ∧
        missing.Pairwise fun p q => required.idxOf p < required.idxOf q) ∧
      (r.problems document = [] →
        r.renderStrict document values data =
          match (r.render document values data).document.required with
          | [] => .ok (r.render document values data)
          | path :: _ => .error (.missingField path)) := by
  constructor
  · intro rendering required missing
    have hmissing : missing = required.eraseDups :=
      r.missingRequired_eq_eraseDups memo hdocument hvalues hdata
    rw [hmissing]
    exact ⟨nodup_eraseDups required, fun _ => List.mem_eraseDups, pairwise_eraseDups required⟩
  · intro hproblems
    have hmissing : (r.render document values data).report.missingRequired =
        (r.render document values data).document.required.eraseDups :=
      r.missingRequired_eq_eraseDups .empty hdocument hvalues hdata
    rw [r.renderStrict_of_problems_eq_nil hproblems, hmissing]
    cases (r.render document values data).document.required with
    | nil => rfl
    | cons path rest =>
      rw [List.eraseDups_cons]

/-- Two guests have no seat, one has no name, and a removed element asks for a drink. In the letter
the seat is asked for first, in an attribute, and then again. -/
theorem exact_missingRequired_guests :
    let document : Forest :=
      .element ⟨"li", .ofList [("data-repeat", "g in Model.guests"), ("title", "[[*seat]]")]⟩
        (.element ⟨"b", .ofList [("data-if", "Model.bar")]⟩ (.text "[[*drink]]" .nil)
          (.text "[[ *g.name ]] of [[*city]], [[* seat]]" .nil)) .nil
    let values : Entries String := .ofList [("city", "Oslo")]
    let data : Datum := .record [("guests", .list [.record [("name", .text "Ann")], .record []])]
    let rendering := default.render document values data
    rendering.document.required = ["seat", "seat", "seat", "g.name", "seat"] ∧
      rendering.report.missingRequired = ["seat", "g.name"] ∧
      default.renderStrict document values data = .error (.missingField "seat") := by
  intro document values data rendering
  have hdocument : ∀ s ∈ document.contents, Tidy s.toList := by decide +kernel
  have hvalues : ∀ e ∈ values.toList, BracketFree e.2.toList := by decide +kernel
  have hdata : ∀ s ∈ data.texts, BracketFree s.toList := by decide +kernel
  have hproblems : default.problems document = [] := by decide +kernel
  have hrequired : rendering.document.required = ["seat", "seat", "seat", "g.name", "seat"] := by
    decide +kernel
  obtain ⟨-, hstrict⟩ :=
    default.exact_missingRequired .empty document values data hdocument hvalues hdata
  have hresult := hstrict hproblems
  rw [show (default.render document values data).document.required = _ from hrequired] at hresult
  exact ⟨hrequired, by decide +kernel, hresult⟩

end Renderer

end FormLetter
