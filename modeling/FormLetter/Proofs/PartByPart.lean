import Mathlib.Data.List.Induction
import FormLetter.Proofs.Descent
import FormLetter.Proofs.Selection
import FormLetter.Proofs.Unlimited

/-!
# Letters part by part

A letter is written in three passes, and each pass goes on with what the one before has left: a
tally of the copies, a memo of the conditions, a report. Without a ceiling none of this gets from
one part of a document into another. The letter of two parts in a row is the letter of the first and
the letter of the second in a row, and the report of the whole adds up the reports of the two.

* `Report.followedBy`: what two reports say together.
* `Forest.fst_selectVisible_append`, `Forest.count_selectVisible_append`: deciding about the
  elements of two parts.
* `Renderer.render_append`, `Renderer.render_element`: the letter of two parts, and of an element
  without directives.
* `Renderer.render_part_by_part`: both together.
-/

namespace FormLetter

/-! ## Adding up reports -/

theorem shownCount_add (m n : Nat) :
    shownCount (shownCount m + shownCount n) = shownCount (m + n) := by
  unfold shownCount
  omega

section

variable {α : Type} [BEq α] [LawfulBEq α]

/-- What is picked out by a test comes first where it comes first among all. -/
theorem eraseDups_filter (keep : α → Bool) (xs : List α) :
    (xs.filter keep).eraseDups = xs.eraseDups.filter keep := by
  induction xs using List.reverseRecOn with
  | nil => rfl
  | append_singleton xs z ih =>
    rw [List.filter_append, List.eraseDups_append, List.eraseDups_append, List.filter_append, ih]
    congr 1
    by_cases hkeep : keep z = true
    · by_cases hz : z ∈ xs <;> simp [List.removeAll, List.eraseDups_cons, hkeep, hz]
    · by_cases hz : z ∈ xs <;> simp [List.removeAll, List.eraseDups_cons, hkeep, hz]

/-- The elements of two lists, each once, are those of the first and those of the second that the
first does not have. -/
theorem eraseDups_append_filter (xs ys : List α) :
    (xs ++ ys).eraseDups =
      xs.eraseDups ++ ys.eraseDups.filter fun y => !xs.eraseDups.contains y := by
  rw [List.eraseDups_append, List.removeAll, eraseDups_filter]
  congr 1
  refine List.filter_congr fun y _ => ?_
  simp [List.mem_eraseDups]

end

namespace Report

/-- What two reports say together: counters are added up as far as a report shows them, and a field
that both miss is named where the first one names it. -/
def followedBy (first second : Report) : Report where
  fieldsReplaced := shownCount (first.fieldsReplaced + second.fieldsReplaced)
  conditionsEvaluated := shownCount (first.conditionsEvaluated + second.conditionsEvaluated)
  conditionsRemoved := shownCount (first.conditionsRemoved + second.conditionsRemoved)
  repeatsExpanded := shownCount (first.repeatsExpanded + second.repeatsExpanded)
  repeatIterations := shownCount (first.repeatIterations + second.repeatIterations)
  unsupported := shownCount (first.unsupported + second.unsupported)
  missingRequired := first.missingRequired ++
    second.missingRequired.filter fun path => !first.missingRequired.contains path
  limitReached := first.limitReached || second.limitReached

/-- If each pass has done on a whole what it has done on two parts, then the reports of the parts
make up the report of the whole. -/
theorem ofPasses_add {expansion expansion₁ expansion₂ : ExpansionTally}
    {visibility visibility₁ visibility₂ : VisibilityTally}
    (hexpansion : expansion = expansion₁ + expansion₂)
    (hevaluated : visibility.evaluated = visibility₁.evaluated + visibility₂.evaluated)
    (hremoved : visibility.removed = visibility₁.removed + visibility₂.removed)
    (hunsupported : visibility.unsupported = visibility₁.unsupported + visibility₂.unsupported)
    (replaced₁ replaced₂ : Nat) (missing₁ missing₂ : List String) :
    ofPasses expansion visibility (replaced₁ + replaced₂) (missing₁ ++ missing₂) =
      (ofPasses expansion₁ visibility₁ replaced₁ missing₁).followedBy
        (ofPasses expansion₂ visibility₂ replaced₂ missing₂) := by
  subst hexpansion
  simp only [ofPasses, followedBy, ExpansionTally.add_def, hevaluated, hremoved, hunsupported,
    shownCount_add, eraseDups_append_filter, Nat.add_add_add_comm expansion₁.replaced,
    Nat.add_add_add_comm expansion₁.unsupported]

end Report

/-! ## Passes over two parts -/

namespace Forest

section

variable {job : Job} {tally : VisibilityTally}

/-- The elements of one part stay or go whatever the other part is. -/
theorem fst_selectVisible_append (f g : Forest) (h : tally.memo.Faithful) :
    ((f ++ g).selectVisible job tally).1 =
      (f.selectVisible job tally).1 ++ (g.selectVisible job tally).1 := by
  rw [selectVisible_append, fst_selectVisible g (faithful_selectVisible f h),
    fst_selectVisible g h]

theorem count_selectVisible_append {count : VisibilityTally → Nat} {kind : Tag → Bool}
    (hcount : job.Counts count kind) (hstart : count tally = 0) (f g : Forest)
    (h : tally.memo.Faithful) :
    count ((f ++ g).selectVisible job tally).2 =
      count (f.selectVisible job tally).2 + count (g.selectVisible job tally).2 := by
  rw [selectVisible_append, count_selectVisible hcount [] rfl g (faithful_selectVisible f h),
    count_selectVisible hcount [] rfl g h, hstart, Nat.zero_add]

/-- An element without a condition stays, and nothing is counted for it. -/
theorem selectVisible_of_no_condition {tag : Tag}
    (h : tag.attributes.get? job.settings.conditionAttribute = none) (children : Forest) :
    (element tag children nil).selectVisible job tally =
      (element tag (children.selectVisible job tally).1 nil,
        (children.selectVisible job tally).2) := by
  have htag : job.judgeTag tag tally = (true, tally) := by rw [Job.judgeTag, h]
  have hbare : tag.without job.settings.conditionAttribute = tag :=
    Tag.without_eq_self (by rw [Entries.contains, h]; rfl)
  rw [selectVisible, htag]
  dsimp only
  rw [hbare]
  rfl

end

theorem expand_nil (job : Job) : nil.expand job = (nil, {}) := by
  rw [expand_eq_expandOnce, expandOnce_nil]

end Forest

/-! ## Letters -/

namespace Renderer

variable {r : Renderer}

/-- The letter of two parts in a row, and its report. -/
theorem render_append (hfree : r.settings.maxIterations = none) (f g : Forest)
    (values : Entries String) (data : Datum) :
    (r.render (f ++ g) values data).document =
        (r.render f values data).document ++ (r.render g values data).document ∧
      (r.render (f ++ g) values data).report =
        (r.render f values data).report.followedBy (r.render g values data).report := by
  have hexpand : (f ++ g).expand (r.job values data) = _ := Forest.expand_append hfree f g
  unfold render renderWith
  dsimp only
  rw [hexpand]
  dsimp only
  rw [Forest.fst_selectVisible_append _ _ Memo.faithful_empty, Forest.fill_append,
    Forest.countFilled_append, Forest.missing_append]
  refine ⟨rfl, Report.ofPasses_add rfl ?_ ?_ ?_ _ _ _ _⟩
  · exact Forest.count_selectVisible_append (Job.counts_evaluated _) rfl _ _ Memo.faithful_empty
  · exact Forest.count_selectVisible_append (Job.counts_removed _) rfl _ _ Memo.faithful_empty
  · exact Forest.count_selectVisible_append (Job.counts_unsupported _) rfl _ _ Memo.faithful_empty

/-- The letter of an element without directives, and its report: that of its children, behind what
is to say of its attributes. -/
theorem render_element (hfree : r.settings.maxIterations = none) {tag : Tag}
    (hcondition : tag.attributes.get? r.settings.conditionAttribute = none)
    (hrepeat : tag.attributes.get? r.settings.repeatAttribute = none) (children : Forest)
    (values : Entries String) (data : Datum) :
    let source := FieldSource.ofValues values
    let inside := r.render children values data
    (r.render (.element tag children .nil) values data).document =
        .element (tag.fill source) inside.document .nil ∧
      (r.render (.element tag children .nil) values data).report =
        (Report.ofPasses {} { memo := .empty } (tag.countFilled source)
          (tag.missing source)).followedBy inside.report := by
  have hexpand : (Forest.element tag children .nil).expand (r.job values data) = _ :=
    Forest.expand_plain hfree hrepeat children .nil
  intro source inside
  unfold inside render renderWith
  dsimp only
  rw [hexpand, Forest.expand_nil, ExpansionTally.add_zero]
  dsimp only
  rw [Forest.selectVisible_of_no_condition hcondition]
  refine ⟨rfl, ?_⟩
  simp only [Forest.countFilled, Forest.missing, Nat.add_zero, List.append_nil]
  exact Report.ofPasses_add (ExpansionTally.zero_add _).symm (Nat.zero_add _).symm
    (Nat.zero_add _).symm (Nat.zero_add _).symm _ _ _ _

/-- Without a ceiling, the letter of two parts in a row is the letter of the first part and behind
it that of the second one. Each counter of the report adds up what the reports of the parts count,
and the missing fields are those of the first part and then those of the second that the first one
does not miss. Likewise the letter of an element without directives is the element with filled in
attributes, and in it the letter of its children. -/
theorem render_part_by_part (hfree : r.settings.maxIterations = none) (values : Entries String)
    (data : Datum) :
    (∀ f g : Forest,
      let first := r.render f values data
      let second := r.render g values data
      let whole := r.render (f ++ g) values data
      whole.document = first.document ++ second.document ∧
        whole.report = first.report.followedBy second.report) ∧
      ∀ (tag : Tag) (children : Forest),
        tag.attributes.get? r.settings.conditionAttribute = none →
        tag.attributes.get? r.settings.repeatAttribute = none →
        let source := FieldSource.ofValues values
        let inside := r.render children values data
        let whole := r.render (.element tag children .nil) values data
        whole.document = .element (tag.fill source) inside.document .nil ∧
          whole.report = (Report.ofPasses {} { memo := .empty } (tag.countFilled source)
            (tag.missing source)).followedBy inside.report :=
  ⟨fun f g => render_append hfree f g values data,
    fun _ children hcondition hrepeat =>
      render_element hfree hcondition hrepeat children values data⟩

/-- A repeated part twice in a row, and once within an element. Both halves miss the same field, and
the report names it once. -/
theorem render_part_by_part_twice :
    let values : Entries String := .ofList [("a", "1")]
    let data : Datum := .record [("xs", .list [.null, .null])]
    let part : Forest :=
      .element ⟨"p", .ofList [("data-if", "true"), ("data-repeat", "x in Model.xs")]⟩
        (.text "[[a]][[*b]]" .nil) .nil
    let letter : Forest :=
      .element ⟨"p", .empty⟩ (.text "1[[*b]]" .nil)
        (.element ⟨"p", .empty⟩ (.text "1[[*b]]" .nil) .nil)
    default.settings.maxIterations = none ∧
      (default.render (part ++ part) values data).document = letter ++ letter ∧
      (default.render (part ++ part) values data).report = ⟨4, 4, 0, 2, 4, 0, ["b"], false⟩ ∧
      (default.render (.element ⟨"div", .ofList [("class", "[[a]]")]⟩ part .nil) values
        data).document = .element ⟨"div", .ofList [("class", "1")]⟩ letter .nil := by
  intro values data part letter
  obtain ⟨htwo, helement⟩ := render_part_by_part (r := .default) rfl values data
  obtain ⟨hdocument, hreport⟩ := htwo part part
  obtain ⟨hwithin, -⟩ :=
    helement ⟨"div", .ofList [("class", "[[a]]")]⟩ part (by decide) (by decide)
  refine ⟨rfl, hdocument.trans ?_, hreport.trans ?_, hwithin.trans ?_⟩
  all_goals decide +kernel

/-- With a ceiling the copies for one part leave no room for those of the next one. -/
example :
    let r : Renderer := ⟨{ maxIterations := some 3 }⟩
    let data : Datum := .record [("xs", .list [.null, .null])]
    let part : Forest := .element ⟨"p", .ofList [("data-repeat", "x in Model.xs")]⟩ .nil .nil
    (r.render part .empty data).document.size = 2 ∧
      (r.render (part ++ part) .empty data).document.size = 2 := by
  decide +kernel

end Renderer

end FormLetter
