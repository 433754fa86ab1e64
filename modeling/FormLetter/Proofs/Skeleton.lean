import FormLetter.Proofs.Descent
import FormLetter.Proofs.Diagnosis
import FormLetter.Proofs.OnePass

/-!
# Field values and structure

The skeleton of a document is what is left of it without its texts and the texts of its attributes.
If no directive of a document has a placeholder, field values have no say in the skeleton of the
letter: two letters for different field values have the same skeleton, and their reports differ in
nothing but the fields that were filled in or are missing. A ceiling does not change this.

* `Forest.skeleton`: names of elements and attributes, and where the texts are.
* `Forest.SameStructure`: documents with one skeleton and the same directives, none of which has a
  placeholder.
* `Forest.SameStructure.expandOnce`, `Forest.SameStructure.selectVisible`: what each pass makes of
  two such documents, with different field values.
* `Renderer.render_skeleton`: what the two letters have in common.
-/

namespace FormLetter

/-! ## Skeletons -/

/-- The tag without the texts of its attributes. -/
def Tag.skeleton (tag : Tag) : Tag :=
  { tag with attributes := tag.attributes.mapValues fun _ _ => "" }

/-- The document without its texts and those of its attributes. -/
def Forest.skeleton : Forest → Forest
  | .nil => .nil
  | .text _ next => .text "" next.skeleton
  | .element tag children next => .element tag.skeleton children.skeleton next.skeleton

/-! ## Tags with the same directives -/

/-- The attributes that are directives. -/
def Settings.directiveAttributes (settings : Settings) : List String :=
  [settings.conditionAttribute, settings.repeatAttribute]

/-- Two tags have the same name, the same names of attributes, and the same directives, which have
no placeholders. -/
structure Tag.SameStructure (settings : Settings) (tag tag' : Tag) : Prop where
  name : tag.name = tag'.name
  names : tag.attributes.names = tag'.attributes.names
  directive : ∀ name ∈ settings.directiveAttributes,
    tag.attributes.get? name = tag'.attributes.get? name
  plain : ∀ name ∈ settings.directiveAttributes,
    ∀ text ∈ tag.attributes.get? name, hasPlaceholder text = false

namespace Tag.SameStructure

variable {settings : Settings} {tag tag' : Tag}

theorem skeleton_eq (h : tag.SameStructure settings tag') : tag.skeleton = tag'.skeleton := by
  have hblank : ∀ tag : Tag,
      (tag.attributes.mapValues fun _ _ => "").toList = tag.attributes.names.map (·, "") := by
    intro tag
    rw [Entries.names, List.map_map]
    rfl
  rw [skeleton, skeleton, h.name]
  congr 1
  apply Entries.ext
  rw [hblank, hblank, h.names]

theorem fill (h : tag.SameStructure settings tag') (source source' : FieldSource) :
    (tag.fill source).SameStructure settings (tag'.fill source') where
  name := h.name
  names := by rw [names_fill, names_fill, h.names]
  directive := by
    intro name hname
    have hplain := h.plain name hname
    rw [Tag.get?_fill, Tag.get?_fill, ← h.directive name hname]
    cases hget : tag.attributes.get? name with
    | none => rfl
    | some text =>
      rw [Option.map_some, Option.map_some, FieldSource.fillAttribute, FieldSource.fillAttribute,
        FieldSource.fill_of_hasPlaceholder_eq_false _ _ (hplain text hget),
        FieldSource.fill_of_hasPlaceholder_eq_false _ _ (hplain text hget)]
  plain := by
    intro name hname text htext
    rw [Tag.get?_fill, Option.mem_def, Option.map_eq_some_iff] at htext
    obtain ⟨written, hwritten, rfl⟩ := htext
    have hplain := h.plain name hname written hwritten
    rw [FieldSource.fillAttribute, FieldSource.fill_of_hasPlaceholder_eq_false _ _ hplain]
    exact hplain

theorem without (h : tag.SameStructure settings tag') (name : String) :
    (tag.without name).SameStructure settings (tag'.without name) where
  name := h.name
  names := by rw [names_without, names_without, h.names]
  directive := by
    intro name hname
    rw [Tag.without, Tag.without, Entries.get?_erase, Entries.get?_erase,
      h.directive name hname]
  plain := by
    intro name hname text htext
    rw [Tag.without, Entries.get?_erase] at htext
    split at htext
    · cases htext
    · exact h.plain name hname text htext

end Tag.SameStructure

/-! ## Documents with the same directives -/

namespace Forest

/-- Two documents have the same skeleton and the same directives, which have no placeholders. -/
inductive SameStructure (settings : Settings) : Forest → Forest → Prop where
  | nil : SameStructure settings .nil .nil
  | text (content content' : String) {next next' : Forest}
      (hnext : SameStructure settings next next') :
      SameStructure settings (.text content next) (.text content' next')
  | element {tag tag' : Tag} (htag : tag.SameStructure settings tag')
      {children children' next next' : Forest}
      (hchildren : SameStructure settings children children')
      (hnext : SameStructure settings next next') :
      SameStructure settings (.element tag children next) (.element tag' children' next')

namespace SameStructure

variable {settings : Settings} {f f' g g' : Forest}

/-- A document without placeholders in its directives has the structure of itself. -/
theorem refl (hcondition : ∀ text ∈ f.attributeTexts settings.conditionAttribute,
      hasPlaceholder text = false)
    (hrepeat : ∀ text ∈ f.attributeTexts settings.repeatAttribute, hasPlaceholder text = false) :
    f.SameStructure settings f := by
  induction f with
  | nil => exact .nil
  | text content next ih => exact .text content content (ih hcondition hrepeat)
  | element tag children next ihc ihn =>
    simp only [attributeTexts, List.forall_mem_append, Option.mem_toList] at hcondition hrepeat
    obtain ⟨⟨hcondition, hcondition₁⟩, hcondition₂⟩ := hcondition
    obtain ⟨⟨hrepeat, hrepeat₁⟩, hrepeat₂⟩ := hrepeat
    refine .element ⟨rfl, rfl, fun _ _ => rfl, ?_⟩ (ihc hcondition₁ hrepeat₁)
      (ihn hcondition₂ hrepeat₂)
    exact List.forall_mem_cons.2 ⟨hcondition, List.forall_mem_singleton.2 hrepeat⟩

theorem skeleton_eq (h : f.SameStructure settings f') : f.skeleton = f'.skeleton := by
  induction h with
  | nil => rfl
  | text _ _ _ ih => rw [skeleton, skeleton, ih]
  | element htag _ _ ihc ihn => rw [skeleton, skeleton, htag.skeleton_eq, ihc, ihn]

theorem append (hf : f.SameStructure settings f') (hg : g.SameStructure settings g') :
    (f ++ g).SameStructure settings (f' ++ g') := by
  induction hf with
  | nil => exact hg
  | text _ _ _ ih => exact .text _ _ ih
  | element htag hchildren _ _ ih => exact .element htag hchildren ih

theorem fill (h : f.SameStructure settings f') (source source' : FieldSource) :
    (f.fill source).SameStructure settings (f'.fill source') := by
  induction h with
  | nil => exact .nil
  | text _ _ _ ih => exact .text _ _ ih
  | element htag _ _ ihc ihn => exact .element (htag.fill source source') ihc ihn

end SameStructure

end Forest

/-! ## Expansion -/

/-- What a tally says of anything but filled in placeholders. -/
def ExpansionTally.structural (tally : ExpansionTally) : ExpansionTally :=
  { tally with replaced := 0 }

/-- The job of writing a letter for other field values. -/
def Job.withValues (job : Job) (values : Entries String) : Job := { job with values := values }

namespace ExpansionTally

variable {tally tally' : ExpansionTally}

theorem structural_eq_iff :
    tally.structural = tally'.structural ↔
      tally.expanded = tally'.expanded ∧ tally.iterations = tally'.iterations ∧
        tally.unsupported = tally'.unsupported ∧ tally.limitReached = tally'.limitReached := by
  simp [structural]

end ExpansionTally

section

variable {job : Job} {values : Entries String} {tally tally' : ExpansionTally}

/-- A repeat binds the same items for all field values. -/
theorem Job.bindings_withValues (job : Job) (values : Entries String)
    (h : tally.structural = tally'.structural) (directive : String) (template template' : Forest) :
    (job.bindings directive template tally).1 =
        ((job.withValues values).bindings directive template' tally').1 ∧
      (job.bindings directive template tally).2.structural =
        ((job.withValues values).bindings directive template' tally').2.structural := by
  rw [ExpansionTally.structural_eq_iff] at h ⊢
  obtain ⟨hexpanded, hiterations, hunsupported, hlimit⟩ := h
  have hdata : (job.withValues values).data = job.data := rfl
  have hexceeds : ∀ more, (job.withValues values).exceeds tally' more = job.exceeds tally more := by
    intro more
    rw [exceeds, exceeds, hiterations]
    rfl
  unfold bindings
  rw [hdata]
  cases Directive.ofText? directive with
  | none => simp [hexpanded, hiterations, hunsupported, hlimit]
  | some d =>
    cases hlist : (job.data.at? d.path).bind Datum.items? with
    | none => simp [hlist, hexpanded, hiterations, hunsupported, hlimit]
    | some items =>
      simp only [hlist, hexceeds]
      split <;> simp [hexpanded, hiterations, hunsupported, hlimit]

namespace Forest

/-- Two results of an expansion have the same structure. -/
def SameExpansion (settings : Settings) (result result' : Forest × ExpansionTally) : Prop :=
  result.1.SameStructure settings result'.1 ∧ result.2.structural = result'.2.structural

/-- If for each item two things with the same structure are made, then all of them in a row have the
same structure. -/
theorem SameStructure.join_inTurn {settings : Settings}
    {make make' : Binding → ExpansionTally → Forest × ExpansionTally} {bound : List Binding}
    (h : ∀ b ∈ bound, ∀ tally tally' : ExpansionTally, tally.structural = tally'.structural →
      SameExpansion settings (make b tally) (make' b tally'))
    (htally : tally.structural = tally'.structural) :
    (join (inTurn make bound tally).1).SameStructure settings
        (join (inTurn make' bound tally').1) ∧
      (inTurn make bound tally).2.structural = (inTurn make' bound tally').2.structural := by
  induction bound generalizing tally tally' with
  | nil => exact ⟨.nil, htally⟩
  | cons b bound ih =>
    obtain ⟨hb, hothers⟩ := List.forall_mem_cons.1 h
    obtain ⟨hfirst, hcount⟩ := hb tally tally' htally
    obtain ⟨hrest, hcount'⟩ := ih hothers hcount
    exact ⟨hfirst.append hrest, hcount'⟩

/-- Expansion finds the same directives and makes as many copies for all field values. -/
theorem SameStructure.expandOnce {f f' : Forest} (h : f.SameStructure job.settings f')
    (htally : tally.structural = tally'.structural) :
    SameExpansion job.settings (f.expandOnce job tally)
      (f'.expandOnce (job.withValues values) tally') := by
  induction f using induction_fill generalizing f' tally tally' with
  | nil =>
    cases h
    rw [expandOnce_nil, expandOnce_nil]
    exact ⟨.nil, htally⟩
  | text content next ih =>
    cases h with
    | text _ content' hnext =>
      obtain ⟨htree, hcount⟩ := ih hnext htally
      rw [expandOnce_text, expandOnce_text]
      exact ⟨.text _ _ htree, hcount⟩
  | element tag children next ihc ihfill ihn =>
    cases h with
    | @element _ tag' htag _ children' _ next' hchildren hnext =>
      have hsame := htag.directive job.settings.repeatAttribute (.tail _ (.head _))
      cases hdirective : tag.attributes.get? job.settings.repeatAttribute with
      | none =>
        have hdirective' : tag'.attributes.get? (job.withValues values).settings.repeatAttribute =
            none := hsame ▸ hdirective
        obtain ⟨hinside, hcount⟩ := ihc hchildren htally
        obtain ⟨hbehind, hcount'⟩ := ihn hnext hcount
        rw [expandOnce_plain _ _ hdirective, expandOnce_plain _ _ hdirective']
        exact ⟨.element htag hinside hbehind, hcount'⟩
      | some directive =>
        have hdirective' : tag'.attributes.get? (job.withValues values).settings.repeatAttribute =
            some directive := hsame ▸ hdirective
        have hbare : (tag.without job.settings.repeatAttribute).SameStructure job.settings
            (tag'.without (job.withValues values).settings.repeatAttribute) := htag.without _
        -- Expansion fills the bare tags for each item, and nothing else of them matters here.
        generalize hplain : tag.without job.settings.repeatAttribute = bare at hbare
        generalize hplain' : tag'.without (job.withValues values).settings.repeatAttribute = bare'
          at hbare
        obtain ⟨hbound, hcount⟩ := job.bindings_withValues values htally directive
          (.element bare children .nil) (.element bare' children' .nil)
        have hcopy : ∀ b ∈ (job.bindings directive (.element bare children .nil) tally).1,
            ∀ tally tally' : ExpansionTally, tally.structural = tally'.structural →
              SameExpansion job.settings (copyOnce job bare children b tally)
                (copyOnce (job.withValues values) bare' children' b tally') := by
          intro b _ tally tally' htally
          obtain ⟨hinside, hcount⟩ := ihfill (job.sourceOf b)
            (hchildren.fill _ ((job.withValues values).sourceOf b)) htally
          rw [copyOnce, copyOnce]
          exact ⟨.element (hbare.fill _ _) hinside .nil, hcount⟩
        obtain ⟨hcopies, hcount⟩ := join_inTurn hcopy hcount
        obtain ⟨hbehind, hcount⟩ := ihn hnext hcount
        rw [expandOnce_repeat _ _ hdirective, expandOnce_repeat _ _ hdirective']
        dsimp only
        rw [hplain, hplain', ← hbound]
        exact ⟨hcopies.append hbehind, hcount⟩

end Forest

end

/-! ## Conditions -/

theorem Job.judgeTag_withValues (job : Job) (values : Entries String) {tag tag' : Tag}
    (h : tag.SameStructure job.settings tag') (tally : VisibilityTally) :
    (job.withValues values).judgeTag tag' tally = job.judgeTag tag tally := by
  have hcondition : tag'.attributes.get? (job.withValues values).settings.conditionAttribute =
      tag.attributes.get? job.settings.conditionAttribute := (h.directive _ (.head _)).symm
  rw [judgeTag, judgeTag, hcondition]
  rfl

/-- The same elements stay for all field values, and the same is counted. -/
theorem Forest.SameStructure.selectVisible (job : Job) (values : Entries String) {f f' : Forest}
    (h : f.SameStructure job.settings f') (tally : VisibilityTally) :
    (f.selectVisible job tally).1.SameStructure job.settings
        (f'.selectVisible (job.withValues values) tally).1 ∧
      (f.selectVisible job tally).2 = (f'.selectVisible (job.withValues values) tally).2 := by
  induction h generalizing tally with
  | nil => exact ⟨.nil, rfl⟩
  | text content content' _ ih =>
    obtain ⟨htree, hcount⟩ := ih tally
    exact ⟨.text content content' htree, hcount⟩
  | @element tag tag' htag children children' next next' _ _ ihc ihn =>
    rw [Forest.selectVisible, Forest.selectVisible, job.judgeTag_withValues values htag]
    rcases job.judgeTag tag tally with ⟨_ | _, judged⟩
    · exact ihn judged
    · obtain ⟨hinside, hcount⟩ := ihc judged
      obtain ⟨hbehind, hcount'⟩ := ihn (children.selectVisible job judged).2
      dsimp only
      rw [← hcount]
      exact ⟨.element (htag.without _) hinside hbehind, hcount'⟩

/-! ## Letters -/

/-- If no directive of a document has a placeholder, then its letters for any two choices of field
values have the same skeleton, and their reports count the same conditions, repeats and directives
that cannot be read. -/
theorem Renderer.render_skeleton (r : Renderer) {document : Forest}
    (hcondition : ∀ text ∈ document.attributeTexts r.settings.conditionAttribute,
      hasPlaceholder text = false)
    (hrepeat : ∀ text ∈ document.attributeTexts r.settings.repeatAttribute,
      hasPlaceholder text = false) (values values' : Entries String) (data : Datum) :
    let letter := r.render document values data
    let letter' := r.render document values' data
    letter.document.skeleton = letter'.document.skeleton ∧
      letter.report.conditionsEvaluated = letter'.report.conditionsEvaluated ∧
      letter.report.conditionsRemoved = letter'.report.conditionsRemoved ∧
      letter.report.repeatsExpanded = letter'.report.repeatsExpanded ∧
      letter.report.repeatIterations = letter'.report.repeatIterations ∧
      letter.report.unsupported = letter'.report.unsupported ∧
      letter.report.limitReached = letter'.report.limitReached := by
  intro letter letter'
  have hself : document.SameStructure (r.job values data).settings document :=
    .refl hcondition hrepeat
  obtain ⟨hexpanded, hcount⟩ :
      Forest.SameExpansion r.settings (document.expand (r.job values data))
        (document.expand (r.job values' data)) := by
    rw [Forest.expand_eq_expandOnce, Forest.expand_eq_expandOnce]
    exact hself.expandOnce rfl
  obtain ⟨hvisible, hvisibility⟩ :=
    hexpanded.selectVisible (r.job values data) values' { memo := .empty }
  obtain ⟨hrepeats, hcopies, hunsupported, hlimit⟩ := ExpansionTally.structural_eq_iff.1 hcount
  have hfilled := hvisible.fill (.ofValues values) (.ofValues values')
  unfold letter letter' render renderWith Report.ofPasses
  dsimp only
  rw [hvisibility, hrepeats, hcopies, hunsupported, hlimit]
  exact ⟨hfilled.skeleton_eq, rfl, rfl, rfl, rfl, rfl, rfl⟩

/-- A value that has quotes, brackets and operators in it, and another that reads like a directive.
-/
theorem Renderer.render_skeleton_hostile :
    let r := Renderer.default
    let data : Datum := .record [("xs", .list [.null, .null])]
    let document : Forest :=
      .element ⟨"ul", .ofList [("class", "[[c]]"), ("data-repeat", "x in Model.xs")]⟩
        (.element ⟨"li", .ofList [("data-if", "Model.xs.Count > 1")]⟩ (.text "[[*a]]" .nil) .nil)
        .nil
    let values : Entries String := .ofList [("a", "' || true [[b]]"), ("c", "x in Model.ys")]
    (∀ text ∈ document.attributeTexts "data-if", hasPlaceholder text = false) ∧
      (∀ text ∈ document.attributeTexts "data-repeat", hasPlaceholder text = false) ∧
      (r.render document values data).document.skeleton =
        (r.render document .empty data).document.skeleton ∧
      (r.render document values data).report.conditionsEvaluated = 2 ∧
      (r.render document values data).report.repeatIterations = 2 := by
  intro r data document values
  have hcondition : ∀ text ∈ document.attributeTexts "data-if", hasPlaceholder text = false := by
    decide +kernel
  have hrepeat : ∀ text ∈ document.attributeTexts "data-repeat", hasPlaceholder text = false := by
    decide +kernel
  obtain ⟨hskeleton, hevaluated, -, -, hiterations, -⟩ :=
    r.render_skeleton hcondition hrepeat values .empty data
  refine ⟨hcondition, hrepeat, hskeleton, hevaluated.trans ?_, hiterations.trans ?_⟩
  all_goals decide +kernel

/-- In the copies of a repeat a placeholder in a condition takes the field value, and the value
decides about the element. -/
example :
    let r := Renderer.default
    let data : Datum := .record [("xs", .list [.null])]
    let document : Forest :=
      .element ⟨"p", .ofList [("data-if", "[[a]]"), ("data-repeat", "x in Model.xs")]⟩ .nil .nil
    (r.render document (.ofList [("a", "true")]) data).document.size = 1 ∧
      (r.render document (.ofList [("a", "false")]) data).document.size = 0 := by
  decide +kernel

end FormLetter
