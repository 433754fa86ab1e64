import FormLetter.Proofs.Descent
import FormLetter.Proofs.Rereading
import FormLetter.Proofs.Tidy

/-!
# Letters that are written again

A document is settled if it has no directives, and values for none of its placeholders. Rendering
does nothing to such a document. The letter written from a tidy document, with field values and
data without brackets, is settled. So when it is taken for a document, the same letter is written
again.

* `Forest.Settled.renderWith`: what is written from a settled document.
* `Renderer.settled_renderWith`: letters are settled.
* `Renderer.renderWith_renderWith`: what is written from a letter.
-/

namespace FormLetter

/-! ## Placeholders without values -/

namespace FieldSource

variable {source : FieldSource} {s : String}

theorem fill_of_get?_eq_none (escaped : Bool)
    (h : ∀ p ∈ placeholders s, source.get? p.path = none) : source.fill escaped s = s := by
  have hkeeps : ∀ x ∈ pieces s.toList, source.Keeps x := by
    rintro x hx w p rfl
    exact h p (mem_placeholders_iff.2 ⟨w, hx⟩)
  rw [fill, flatMap_fillPiece_of_keeps escaped hkeeps, source_pieces, String.ofList_toList]

theorem countFilled_of_get?_eq_none (h : ∀ p ∈ placeholders s, source.get? p.path = none) :
    source.countFilled s = 0 := by
  rw [countFilled, List.countP_eq_zero]
  intro p hp
  rw [h p hp]
  exact Bool.false_ne_true

end FieldSource

theorem total_eq_zero {ns : List Nat} (h : ∀ n ∈ ns, n = 0) : total ns = 0 := by
  induction ns with
  | nil => rfl
  | cons n ns ih =>
    obtain ⟨rfl, hns⟩ := List.forall_mem_cons.1 h
    rw [total, ih hns]

namespace Tag

variable {source : FieldSource} {tag : Tag}

theorem fill_of_get?_eq_none
    (h : ∀ a ∈ tag.attributes.toList, ∀ p ∈ placeholders a.2, source.get? p.path = none) :
    tag.fill source = tag := by
  unfold fill
  congr 1
  apply Entries.ext
  show List.map (fun a => (a.1, source.fillAttribute a.1 a.2)) tag.attributes.toList = _
  have hid : ∀ a ∈ tag.attributes.toList, (a.1, source.fillAttribute a.1 a.2) = id a := fun a ha =>
    Prod.ext rfl (FieldSource.fill_of_get?_eq_none _ (h a ha))
  rw [List.map_congr_left hid, List.map_id]

theorem countFilled_of_get?_eq_none
    (h : ∀ a ∈ tag.attributes.toList, ∀ p ∈ placeholders a.2, source.get? p.path = none) :
    tag.countFilled source = 0 := by
  refine total_eq_zero fun n hn => ?_
  obtain ⟨a, ha, rfl⟩ := List.mem_map.1 hn
  exact FieldSource.countFilled_of_get?_eq_none (h a ha)

end Tag

/-! ## Settled documents -/

namespace Forest

variable {job : Job} {f : Forest}

/-- A document without repeats is expanded already. -/
theorem expand_of_hasAttribute_eq_false
    (h : f.hasAttribute job.settings.repeatAttribute = false) : f.expand job = (f, {}) := by
  have hnone : ∀ rounds, expandRounds job rounds f {} = (f, {}) := by
    intro rounds
    cases rounds with
    | zero => rfl
    | succ rounds => rw [expandRounds, expandNext?_eq_none_iff.2 h]
  exact hnone _

/-- In a document without conditions nothing is decided. -/
theorem selectVisible_of_hasAttribute_eq_false
    (h : f.hasAttribute job.settings.conditionAttribute = false) (tally : VisibilityTally) :
    f.selectVisible job tally = (f, tally) := by
  induction f with
  | nil => rfl
  | text content next ih => rw [selectVisible, ih h]
  | element tag children next ihc ihn =>
    simp only [hasAttribute, Bool.or_eq_false_iff] at h
    obtain ⟨⟨htag, hchildren⟩, hnext⟩ := h
    have hnone : tag.attributes.get? job.settings.conditionAttribute = none := by
      simpa [Entries.contains] using htag
    rw [selectVisible, Job.judgeTag, hnone]
    dsimp only
    rw [ihc hchildren, ihn hnext, Tag.without_eq_self htag]

variable {source : FieldSource}

theorem fill_of_get?_eq_none
    (h : ∀ s ∈ f.contents, ∀ p ∈ placeholders s, source.get? p.path = none) :
    f.fill source = f := by
  induction f with
  | nil => rfl
  | text content next ih =>
    obtain ⟨hcontent, hnext⟩ := List.forall_mem_cons.1 h
    rw [fill, FieldSource.fill_of_get?_eq_none false hcontent, ih hnext]
  | element tag children next ihc ihn =>
    obtain ⟨htag, hchildren, hnext⟩ := forall_contents_element.1 h
    rw [fill, Tag.fill_of_get?_eq_none htag, ihc hchildren, ihn hnext]

theorem countFilled_of_get?_eq_none
    (h : ∀ s ∈ f.contents, ∀ p ∈ placeholders s, source.get? p.path = none) :
    f.countFilled source = 0 := by
  induction f with
  | nil => rfl
  | text content next ih =>
    obtain ⟨hcontent, hnext⟩ := List.forall_mem_cons.1 h
    rw [countFilled, FieldSource.countFilled_of_get?_eq_none hcontent, ih hnext]
  | element tag children next ihc ihn =>
    obtain ⟨htag, hchildren, hnext⟩ := forall_contents_element.1 h
    rw [countFilled, Tag.countFilled_of_get?_eq_none htag, ihc hchildren, ihn hnext]

/-- In a tidy document filling in makes no required placeholder without a value come or go. -/
theorem missing_fill (hsource : source.GivesBracketFree) (h : ∀ s ∈ f.contents, Tidy s.toList) :
    (f.fill source).missing source = f.missing source := by
  induction f with
  | nil => rfl
  | text content next ih =>
    obtain ⟨hcontent, hnext⟩ := List.forall_mem_cons.1 h
    rw [fill, missing, missing, FieldSource.missing_fill hsource false hcontent, ih hnext]
  | element tag children next ihc ihn =>
    obtain ⟨htag, hchildren, hnext⟩ := forall_contents_element.1 h
    have hmissing : (tag.fill source).missing source = tag.missing source := by
      show List.flatMap _ (List.map _ _) = _
      rw [List.flatMap_map]
      exact List.flatMap_congr fun a ha => FieldSource.missing_fill hsource _ (htag a ha)
    rw [fill, missing, missing, hmissing, ihc hchildren, ihn hnext]

/-- No element of a document has a directive, and none of its placeholders has a value. -/
structure Settled (job : Job) (f : Forest) : Prop where
  no_repeat : f.hasAttribute job.settings.repeatAttribute = false
  no_condition : f.hasAttribute job.settings.conditionAttribute = false
  no_value : ∀ s ∈ f.contents, ∀ p ∈ placeholders s,
    (FieldSource.ofValues job.values).get? p.path = none

/-- From a settled document the same document is written. Only its missing fields are reported. -/
theorem Settled.renderWith {r : Renderer} {values : Entries String} {data : Datum}
    (h : f.Settled (r.job values data)) (memo : Memo) :
    r.renderWith memo f values data =
      (⟨f, .ofPasses {} { memo } 0 (f.missing (FieldSource.ofValues values))⟩, memo) := by
  unfold Renderer.renderWith
  dsimp only
  rw [expand_of_hasAttribute_eq_false h.no_repeat,
    selectVisible_of_hasAttribute_eq_false h.no_condition]
  have hfields : ∀ s ∈ f.contents, ∀ p ∈ placeholders s,
      (FieldSource.ofValues values).get? p.path = none := h.no_value
  dsimp only
  rw [fill_of_get?_eq_none hfields, countFilled_of_get?_eq_none hfields]

end Forest

/-! ## Letters -/

namespace Renderer

variable (r : Renderer) {document : Forest} {values : Entries String} {data : Datum}

/-- Letters are settled. -/
theorem settled_renderWith (memo : Memo) (hdocument : ∀ s ∈ document.contents, Tidy s.toList)
    (hvalues : ∀ e ∈ values.toList, BracketFree e.2.toList)
    (hdata : ∀ s ∈ data.texts, BracketFree s.toList) :
    (r.renderWith memo document values data).1.document.Settled (r.job values data) := by
  have htidy :=
    Forest.tidy_selectVisible_expand (r.job values data) hvalues hdata hdocument { memo }
  have hsource := FieldSource.givesBracketFree_ofValues hvalues
  refine ⟨?_, ?_, ?_⟩
  · show Forest.hasAttribute _ (Forest.fill _ _) = false
    rw [Forest.hasAttribute_fill]
    exact Forest.hasAttribute_selectVisible _ (.inr (Forest.hasAttribute_expand _ document)) _
  · show Forest.hasAttribute _ (Forest.fill _ _) = false
    rw [Forest.hasAttribute_fill]
    exact Forest.hasAttribute_selectVisible _ (.inl rfl) _
  · refine Forest.forall_contents_fill (fun escaped s hs p hp => ?_) htidy
    rw [FieldSource.placeholders_fill hsource escaped hs] at hp
    exact Option.isNone_iff_eq_none.1 (List.mem_filter.1 hp).2

/-- The fields that a report names are those that are missing in its letter. -/
theorem missing_renderWith (memo : Memo) (hdocument : ∀ s ∈ document.contents, Tidy s.toList)
    (hvalues : ∀ e ∈ values.toList, BracketFree e.2.toList)
    (hdata : ∀ s ∈ data.texts, BracketFree s.toList) :
    let rendering := (r.renderWith memo document values data).1
    (rendering.document.missing (FieldSource.ofValues values)).eraseDups =
      rendering.report.missingRequired :=
  congrArg List.eraseDups (Forest.missing_fill (FieldSource.givesBracketFree_ofValues hvalues)
    (Forest.tidy_selectVisible_expand (r.job values data) hvalues hdata hdocument { memo }))

/-- A letter written from a tidy document, taken for a document itself, gives the same letter again.
Then nothing is done, and the same fields are missing. -/
theorem renderWith_renderWith (memo memo' : Memo) (document : Forest) (values : Entries String)
    (data : Datum) (hdocument : ∀ s ∈ document.contents, Tidy s.toList)
    (hvalues : ∀ e ∈ values.toList, BracketFree e.2.toList)
    (hdata : ∀ s ∈ data.texts, BracketFree s.toList) :
    let first := (r.renderWith memo document values data).1
    r.renderWith memo' first.document values data =
      ({ document := first.document
         report :=
          { fieldsReplaced := 0
            conditionsEvaluated := 0
            conditionsRemoved := 0
            repeatsExpanded := 0
            repeatIterations := 0
            unsupported := 0
            missingRequired := first.report.missingRequired
            limitReached := false } }, memo') := by
  intro first
  have hsettled := r.settled_renderWith memo hdocument hvalues hdata
  have hmissing := r.missing_renderWith memo hdocument hvalues hdata
  rw [hsettled.renderWith memo', ← hmissing]
  rfl

/-- Of two guests one goes by the condition. Of the placeholders for the other, two have no value,
and one of these is required. So it is in the second letter, too. -/
theorem renderWith_renderWith_guests :
    let document : Forest :=
      .element ⟨"li", .ofList [("data-repeat", "g in Model.guests"),
          ("data-if", "'[[g.name]]' != 'Bo'"), ("title", "[[g.name]]: [[*seat]]")]⟩
        (.text "[[ g.name ]] of [[city]], [[g.age]]" .nil) .nil
    let values : Entries String := .ofList [("city", "Oslo")]
    let data : Datum := .record [("guests", .list
      [.record [("name", .text "Ann")], .record [("name", .text "Bo")]])]
    let first := (default.renderWith .empty document values data).1
    (∀ s ∈ document.contents, Tidy s.toList) ∧
      (∀ e ∈ values.toList, BracketFree e.2.toList) ∧
      (∀ s ∈ data.texts, BracketFree s.toList) ∧
      first = ⟨.element ⟨"li", .ofList [("title", "Ann: [[*seat]]")]⟩
        (.text "Ann of Oslo, [[g.age]]" .nil) .nil, ⟨8, 2, 1, 1, 2, 0, ["seat"], false⟩⟩ ∧
      default.renderWith .empty first.document values data =
        (⟨first.document, ⟨0, 0, 0, 0, 0, 0, ["seat"], false⟩⟩, .empty) := by
  intro document values data first
  have hdocument : ∀ s ∈ document.contents, Tidy s.toList := by decide +kernel
  have hvalues : ∀ e ∈ values.toList, BracketFree e.2.toList := by decide +kernel
  have hdata : ∀ s ∈ data.texts, BracketFree s.toList := by decide +kernel
  have hfirst : first = ⟨.element ⟨"li", .ofList [("title", "Ann: [[*seat]]")]⟩
      (.text "Ann of Oslo, [[g.age]]" .nil) .nil, ⟨8, 2, 1, 1, 2, 0, ["seat"], false⟩⟩ := by
    decide +kernel
  have hmissing : first.report.missingRequired = ["seat"] := by rw [hfirst]
  have hsecond : default.renderWith .empty first.document values data =
      (⟨first.document, ⟨0, 0, 0, 0, 0, 0, first.report.missingRequired, false⟩⟩, .empty) :=
    default.renderWith_renderWith .empty .empty document values data hdocument hvalues hdata
  rw [hmissing] at hsecond
  exact ⟨hdocument, hvalues, hdata, hfirst, hsecond⟩

end Renderer

end FormLetter
