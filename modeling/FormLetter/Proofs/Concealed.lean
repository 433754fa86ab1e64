import FormLetter.Proofs.Descent
import FormLetter.Proofs.DirectiveText
import FormLetter.Proofs.Selection
import FormLetter.Proofs.Unlimited

/-!
# Concealed content

An element whose condition has no placeholder and does not hold goes wherever a letter has it, in
all copies that repeats make of it. What is in it is expanded and filled in all the same before it
goes. Without a ceiling nothing of this can be told from the letter: two documents that differ only
within such elements give the same letter, decide about the same elements and miss the same fields.

* `Job.conceals`: the elements that go.
* `Forest.AgreeOutside`: documents that differ only within these.
* `Forest.AgreeOutside.fill`, `Forest.AgreeOutside.expand`: filling in and expansion keep such
  documents alike, though the copies they make of concealed content differ.
* `Forest.AgreeOutside.selectVisible_eq`: what is left of them is the same.
* `Renderer.render_of_agreeOutside`: so their letters are.
-/

namespace FormLetter

/-! ## Elements that go -/

namespace Job

/-- The element has a condition without placeholders that does not hold. -/
def conceals (job : Job) (tag : Tag) : Bool :=
  (tag.attributes.get? job.settings.conditionAttribute).any fun condition =>
    !hasPlaceholder condition && evaluate? condition job.data == some false

variable {job : Job} {tag : Tag}

theorem conceals_iff :
    job.conceals tag = true ↔ ∃ condition,
      tag.attributes.get? job.settings.conditionAttribute = some condition ∧
        hasPlaceholder condition = false ∧ evaluate? condition job.data = some false := by
  unfold conceals
  cases tag.attributes.get? job.settings.conditionAttribute <;> simp

theorem hides_of_conceals (h : job.conceals tag = true) : job.hides tag = true := by
  obtain ⟨condition, hget, -, hfalse⟩ := conceals_iff.1 h
  rw [hides, hget, Option.any_some, hfalse]
  rfl

/-- Filling in leaves a condition without placeholders as it is. -/
theorem conceals_fill (h : job.conceals tag = true) (source : FieldSource) :
    job.conceals (tag.fill source) = true := by
  obtain ⟨condition, hget, hplain, hfalse⟩ := conceals_iff.1 h
  refine conceals_iff.2 ⟨condition, ?_, hplain, hfalse⟩
  rw [Tag.get?_fill, hget, Option.map_some, FieldSource.fillAttribute,
    source.fill_of_hasPlaceholder_eq_false _ hplain]

/-- Without its repeat an element that goes still goes, or else the repeat has no items: a text that
can be read as a condition is no directive. -/
theorem conceals_without (h : job.conceals tag = true) {directive : String}
    (hdirective : tag.attributes.get? job.settings.repeatAttribute = some directive) :
    job.conceals (tag.without job.settings.repeatAttribute) = true ∨
      job.itemsOf directive = [] := by
  obtain ⟨condition, hget, hplain, hfalse⟩ := conceals_iff.1 h
  -- The two attributes may have one name, and then removing the repeat removes the condition.
  by_cases hsame : job.settings.repeatAttribute = job.settings.conditionAttribute
  · right
    rw [hsame, hget] at hdirective
    obtain rfl : condition = directive := Option.some.inj hdirective
    have hunreadable : Directive.ofText? condition = none := by
      rw [Option.eq_none_iff_forall_ne_some]
      intro d hd
      rw [Directive.evaluate?_eq_none hd] at hfalse
      cases hfalse
    rw [itemsOf, hunreadable]
  · left
    refine conceals_iff.2 ⟨condition, ?_, hplain, hfalse⟩
    rw [Tag.without, Entries.get?_erase, if_neg hsame, hget]

end Job

/-! ## Documents that differ only within them -/

namespace Forest

/-- Two documents differ only in what is within elements that go. -/
inductive AgreeOutside (job : Job) : Forest → Forest → Prop where
  | nil : AgreeOutside job .nil .nil
  | text (content : String) {next next' : Forest} (hnext : AgreeOutside job next next') :
      AgreeOutside job (.text content next) (.text content next')
  | element (tag : Tag) {children children' next next' : Forest}
      (hchildren : AgreeOutside job children children') (hnext : AgreeOutside job next next') :
      AgreeOutside job (.element tag children next) (.element tag children' next')
  | concealed {tag : Tag} (htag : job.conceals tag = true) (children children' : Forest)
      {next next' : Forest} (hnext : AgreeOutside job next next') :
      AgreeOutside job (.element tag children next) (.element tag children' next')

namespace AgreeOutside

variable {job : Job} {f f' g g' : Forest}

theorem append (hf : f.AgreeOutside job f') (hg : g.AgreeOutside job g') :
    (f ++ g).AgreeOutside job (f' ++ g') := by
  induction hf with
  | nil => exact hg
  | text content _ ih => exact .text content ih
  | element tag hchildren _ _ ih => exact .element tag hchildren ih
  | concealed htag children children' _ ih => exact .concealed htag children children' ih

theorem join {α : Type} {as : List α} {make make' : α → Forest}
    (h : ∀ a ∈ as, (make a).AgreeOutside job (make' a)) :
    (Forest.join (as.map make)).AgreeOutside job (Forest.join (as.map make')) := by
  induction as with
  | nil => exact .nil
  | cons a as ih =>
    obtain ⟨ha, has⟩ := List.forall_mem_cons.1 h
    exact ha.append (ih has)

theorem fill (h : f.AgreeOutside job f') (source : FieldSource) :
    (f.fill source).AgreeOutside job (f'.fill source) := by
  induction h with
  | nil => exact .nil
  | text content _ ih => exact .text _ ih
  | element tag _ _ ihc ihn => exact .element _ ihc ihn
  | concealed htag children children' _ ih =>
    exact .concealed (Job.conceals_fill htag source) _ _ ih

/-- Expansion keeps such documents alike. A repeat that goes is copied as often as its items say,
whatever is in it, and its copies go too. -/
theorem expand (hfree : job.settings.maxIterations = none) (h : f.AgreeOutside job f') :
    (f.expand job).1.AgreeOutside job (f'.expand job).1 := by
  induction f using induction_fill generalizing f' with
  | nil =>
    cases h
    rw [expand_eq_expandOnce, expandOnce_nil]
    exact .nil
  | text content next ih =>
    cases h with
    | text _ hnext =>
      rw [expand_text, expand_text]
      exact .text content (ih hnext)
  | element tag children next ihc ihfill ihn =>
    cases hdirective : tag.attributes.get? job.settings.repeatAttribute with
    | none =>
      cases h with
      | element _ hchildren hnext =>
        rw [expand_plain hfree hdirective, expand_plain hfree hdirective]
        exact .element tag (ihc hchildren) (ihn hnext)
      | concealed htag _ _ hnext =>
        rw [expand_plain hfree hdirective, expand_plain hfree hdirective]
        exact .concealed htag _ _ (ihn hnext)
    | some directive =>
      cases h with
      | element _ hchildren hnext =>
        rw [fst_expand_repeat hfree hdirective, fst_expand_repeat hfree hdirective]
        exact (join fun b _ => .element _ (ihfill _ (hchildren.fill _)) .nil).append (ihn hnext)
      | concealed htag _ _ hnext =>
        rw [fst_expand_repeat hfree hdirective, fst_expand_repeat hfree hdirective]
        refine (join fun b hb => ?_).append (ihn hnext)
        rcases Job.conceals_without htag hdirective with hbare | hnone
        · exact .concealed (Job.conceals_fill hbare _) _ _ .nil
        · rw [hnone] at hb
          cases hb

/-- What is left of such documents is the same, and so is all that is counted. -/
theorem selectVisible_eq (h : f.AgreeOutside job f') {tally : VisibilityTally}
    (hmemo : tally.memo.Faithful) : f.selectVisible job tally = f'.selectVisible job tally := by
  induction h generalizing tally with
  | nil => rfl
  | text content _ ih => rw [selectVisible, selectVisible, ih hmemo]
  | element tag _ _ ihc ihn =>
    have htag := faithful_judgeTag job tag hmemo
    cases hhides : job.hides tag with
    | true =>
      rw [selectVisible_of_hides hhides _ _ hmemo, selectVisible_of_hides hhides _ _ hmemo,
        ihn htag]
    | false =>
      rw [selectVisible_of_not_hides hhides _ _ hmemo, selectVisible_of_not_hides hhides _ _ hmemo]
      dsimp only
      rw [ihc htag, ihn (faithful_selectVisible _ htag)]
  | concealed htag children children' _ ih =>
    have hhides := Job.hides_of_conceals htag
    rw [selectVisible_of_hides hhides _ _ hmemo, selectVisible_of_hides hhides _ _ hmemo,
      ih (faithful_judgeTag job _ hmemo)]

end AgreeOutside

end Forest

/-! ## Letters -/

/-- Two documents that differ only within elements that go have the same letter. Its report counts
the same elements with a condition, the same ones that went, and the same missing fields. -/
theorem Renderer.render_of_agreeOutside {r : Renderer} (hfree : r.settings.maxIterations = none)
    {document document' : Forest} {values : Entries String} {data : Datum}
    (h : document.AgreeOutside (r.job values data) document') :
    let letter := r.render document values data
    let letter' := r.render document' values data
    letter.document = letter'.document ∧
      letter.report.conditionsEvaluated = letter'.report.conditionsEvaluated ∧
      letter.report.conditionsRemoved = letter'.report.conditionsRemoved ∧
      letter.report.missingRequired = letter'.report.missingRequired := by
  intro letter letter'
  have hvisible : (document.expand (r.job values data)).1.selectVisible (r.job values data)
      { memo := .empty } =
        (document'.expand (r.job values data)).1.selectVisible (r.job values data)
          { memo := .empty } :=
    (h.expand hfree).selectVisible_eq Memo.faithful_empty
  unfold letter letter' render renderWith
  dsimp only
  rw [hvisible]
  exact ⟨rfl, rfl, rfl, rfl⟩

/-- In one document an element that goes is empty, in the other one it has a required field and a
repeat of its own. It stands within a repeat. -/
theorem render_of_agreeOutside_repeated :
    let r := Renderer.default
    let data : Datum := .record [("xs", .list [.null, .null])]
    let document (concealed : Forest) : Forest :=
      .element ⟨"div", .ofList [("data-repeat", "x in Model.xs")]⟩
        (.element ⟨"p", .ofList [("data-if", "Model.a")]⟩ concealed (.text "[[*b]]" .nil)) .nil
    let other : Forest :=
      .text "[[*c]]" (.element ⟨"li", .ofList [("data-repeat", "y in Model.xs")]⟩ .nil .nil)
    r.settings.maxIterations = none ∧
      (document .nil).AgreeOutside (r.job .empty data) (document other) ∧
      (r.render (document other) .empty data).document =
        (r.render (document .nil) .empty data).document ∧
      (r.render (document other) .empty data).report.conditionsRemoved = 2 ∧
      (r.render (document other) .empty data).report.missingRequired = ["b"] := by
  intro r data document other
  have hconceals : (r.job .empty data).conceals ⟨"p", .ofList [("data-if", "Model.a")]⟩ = true := by
    decide +kernel
  have hagree : (document .nil).AgreeOutside (r.job .empty data) (document other) :=
    .element _ (.concealed hconceals _ _ (.text _ .nil)) .nil
  obtain ⟨hdocument, -, hremoved, hmissing⟩ :=
    Renderer.render_of_agreeOutside (r := r) rfl hagree
  refine ⟨rfl, hagree, hdocument.symm, hremoved.symm.trans ?_, hmissing.symm.trans ?_⟩
  all_goals decide +kernel

/-- With a ceiling the copies that are made of concealed content count, and none are left to make of
what comes behind it. -/
example :
    let r : Renderer := ⟨{ maxIterations := some 1 }⟩
    let data : Datum := .record [("xs", .list [.null])]
    let repeated : Forest := .element ⟨"li", .ofList [("data-repeat", "x in Model.xs")]⟩ .nil .nil
    let document (concealed : Forest) : Forest :=
      .element ⟨"p", .ofList [("data-if", "false")]⟩ concealed repeated
    (r.render (document .nil) .empty data).document.size = 1 ∧
      (r.render (document repeated) .empty data).document.size = 0 := by
  decide +kernel

end FormLetter
