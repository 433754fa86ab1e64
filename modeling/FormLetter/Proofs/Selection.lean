import FormLetter.Document.Visibility
import FormLetter.Proofs.Occurrence

/-!
# Which elements stay

Deciding about the elements of a document goes through it once, with a memo of the conditions read
before and with three counters. What comes of it depends on the document and the data alone: the
elements whose condition does not hold go, with all that is in them, and of each element that is
not within one of these the counters tell what its condition was.

* `Job.judgeTag_eq`: what one decision does, to the element and to the tally.
* `Forest.fst_selectVisible`: what is left of a document.
* `Forest.count_selectVisible`: what a counter shows, from what one decision adds to it.
* `Forest.selectVisible_exact`: both together, and how the counters are related.
-/

namespace FormLetter

namespace Job

/-- The element has a condition. -/
def hasCondition (job : Job) (tag : Tag) : Bool :=
  tag.attributes.contains job.settings.conditionAttribute

/-- The element has a condition that does not hold. -/
def hides (job : Job) (tag : Tag) : Bool :=
  (tag.attributes.get? job.settings.conditionAttribute).any fun condition =>
    evaluate? condition job.data == some false

/-- The element has a condition that cannot be read. -/
def misreads (job : Job) (tag : Tag) : Bool :=
  (tag.attributes.get? job.settings.conditionAttribute).any fun condition =>
    evaluate? condition job.data == none

theorem hasCondition_of_hides {job : Job} {tag : Tag} (h : job.hides tag = true) :
    job.hasCondition tag = true := by
  rw [hides] at h
  rw [hasCondition, Entries.contains]
  cases hget : tag.attributes.get? job.settings.conditionAttribute with
  | none =>
    rw [hget] at h
    cases h
  | some condition => rfl

/-! ## One decision -/

/-- An element goes if it has a condition that does not hold, whatever conditions were read before,
and the counters tell what its condition was. -/
theorem judgeTag_eq (job : Job) (tag : Tag) {tally : VisibilityTally} (h : tally.memo.Faithful) :
    ∃ memo : Memo, memo.Faithful ∧
      job.judgeTag tag tally =
        (!job.hides tag,
          { memo
            evaluated := tally.evaluated + (job.hasCondition tag).toNat
            removed := tally.removed + (job.hides tag).toNat
            unsupported := tally.unsupported + (job.misreads tag).toNat }) := by
  unfold judgeTag hides hasCondition misreads Entries.contains
  cases tag.attributes.get? job.settings.conditionAttribute with
  | none => exact ⟨tally.memo, h, rfl⟩
  | some condition =>
    obtain ⟨hreading, hmemo⟩ := Memo.read_of_faithful h condition
    refine ⟨(tally.memo.read condition).2, hmemo, ?_⟩
    simp only [judge, hreading, evaluate?, Option.any_some]
    cases Expression.ofText? condition with
    | error fault => rfl
    | ok e =>
      cases hholds : e.holds job.data with
      | true => simp [hholds]
      | false => simp [hholds]

/-- Each decision about an element of some kind, and no other one, adds one to a counter. -/
def Counts (job : Job) (count : VisibilityTally → Nat) (kind : Tag → Bool) : Prop :=
  ∀ (tag : Tag) (tally : VisibilityTally), tally.memo.Faithful →
    count (job.judgeTag tag tally).2 = count tally + (kind tag).toNat

theorem counts_evaluated (job : Job) : job.Counts (·.evaluated) job.hasCondition := by
  intro tag tally h
  obtain ⟨memo, -, heq⟩ := job.judgeTag_eq tag h
  rw [heq]

theorem counts_removed (job : Job) : job.Counts (·.removed) job.hides := by
  intro tag tally h
  obtain ⟨memo, -, heq⟩ := job.judgeTag_eq tag h
  rw [heq]

theorem counts_unsupported (job : Job) : job.Counts (·.unsupported) job.misreads := by
  intro tag tally h
  obtain ⟨memo, -, heq⟩ := job.judgeTag_eq tag h
  rw [heq]

end Job

/-! ## All decisions -/

namespace Forest

section

variable {job : Job} {tally : VisibilityTally}

theorem selectVisible_of_hides {tag : Tag} (htag : job.hides tag = true) (children next : Forest)
    (h : tally.memo.Faithful) :
    (element tag children next).selectVisible job tally =
      next.selectVisible job (job.judgeTag tag tally).2 := by
  obtain ⟨memo, -, heq⟩ := job.judgeTag_eq tag h
  rw [selectVisible, heq, htag]
  rfl

theorem selectVisible_of_not_hides {tag : Tag} (htag : job.hides tag = false)
    (children next : Forest) (h : tally.memo.Faithful) :
    (element tag children next).selectVisible job tally =
      let inside := children.selectVisible job (job.judgeTag tag tally).2
      let behind := next.selectVisible job inside.2
      (element (tag.without job.settings.conditionAttribute) inside.1 behind.1, behind.2) := by
  obtain ⟨memo, -, heq⟩ := job.judgeTag_eq tag h
  rw [selectVisible, heq, htag]
  rfl

theorem faithful_judgeTag (job : Job) (tag : Tag) {tally : VisibilityTally}
    (h : tally.memo.Faithful) :
    (job.judgeTag tag tally).2.memo.Faithful := by
  obtain ⟨memo, hmemo, heq⟩ := job.judgeTag_eq tag h
  rw [heq]
  exact hmemo

theorem faithful_selectVisible (f : Forest) (h : tally.memo.Faithful) :
    (f.selectVisible job tally).2.memo.Faithful := by
  induction f generalizing tally with
  | nil => exact h
  | text content next ih => exact ih h
  | element tag children next ihc ihn =>
    have htag := faithful_judgeTag job tag h
    cases hhides : job.hides tag with
    | true =>
      rw [selectVisible_of_hides hhides _ _ h]
      exact ihn htag
    | false =>
      rw [selectVisible_of_not_hides hhides _ _ h]
      exact ihn (ihc htag)

/-- The elements with a condition that does not hold go, and the conditions of all others. -/
theorem fst_selectVisible (f : Forest) (h : tally.memo.Faithful) :
    (f.selectVisible job tally).1 =
      (f.dropWhere job.hides).mapTags (·.without job.settings.conditionAttribute) := by
  induction f generalizing tally with
  | nil => rfl
  | text content next ih => exact congrArg (text content) (ih h)
  | element tag children next ihc ihn =>
    have htag := faithful_judgeTag job tag h
    cases hhides : job.hides tag with
    | true =>
      rw [selectVisible_of_hides hhides _ _ h, dropWhere, if_pos hhides]
      exact ihn htag
    | false =>
      rw [selectVisible_of_not_hides hhides _ _ h, dropWhere,
        if_neg (ne_true_of_eq_false hhides), mapTags, ← ihc htag,
        ← ihn (faithful_selectVisible children htag)]

/-- A counter goes up by the number of those elements of its kind that are decided about: the
elements that are not within one with a condition that does not hold. -/
theorem count_selectVisible {count : VisibilityTally → Nat} {kind : Tag → Bool}
    (hcount : job.Counts count kind) (around : List Tag)
    (haround : around.all (fun tag => !job.hides tag) = true) (f : Forest)
    (h : tally.memo.Faithful) :
    count (f.selectVisible job tally).2 = count tally +
      ((f.occurrencesWithin around).filter (Occurrence.isReached job.hides)).countP
        (Occurrence.isElement kind) := by
  induction f generalizing around tally with
  | nil => rfl
  | text content next ih =>
    have hreached : Occurrence.isReached job.hides ⟨around, .text content⟩ = true := haround
    rw [occurrencesWithin, List.filter_cons_of_pos hreached,
      List.countP_cons_of_neg Bool.false_ne_true]
    exact ih around haround h
  | element tag children next ihc ihn =>
    have hreached : Occurrence.isReached job.hides ⟨around, .element tag⟩ = true := haround
    have htag := faithful_judgeTag job tag h
    have hfirst : (if Occurrence.isElement kind ⟨around, .element tag⟩ = true then 1 else 0) =
        (kind tag).toNat := by
      cases hkind : kind tag <;> simp [Occurrence.isElement, hkind]
    rw [occurrencesWithin, List.filter_cons_of_pos hreached, List.countP_cons, List.filter_append,
      List.countP_append, hfirst]
    cases hhides : job.hides tag with
    | true =>
      rw [selectVisible_of_hides hhides _ _ h, ihn around haround htag, hcount tag tally h,
        filter_isReached_eq_nil hhides, List.countP_nil]
      omega
    | false =>
      rw [selectVisible_of_not_hides hhides _ _ h]
      dsimp only
      rw [ihn around haround (faithful_selectVisible children htag),
        ihc (around ++ [tag]) (all_not_concat haround hhides) htag, hcount tag tally h]
      omega

end

/-- Of the elements with a condition that are decided about, those that go and those that stay are
all. -/
theorem countP_hasCondition (job : Job) (nodes : List Occurrence) :
    (nodes.filter (Occurrence.isReached job.hides)).countP (Occurrence.isElement job.hasCondition) =
      (nodes.filter (Occurrence.isReached job.hides)).countP (Occurrence.isElement job.hides) +
        (nodes.filter (Occurrence.remains job.hides)).countP
          (Occurrence.isElement job.hasCondition) := by
  have hgone : ∀ o : Occurrence, (o.isElement job.hasCondition && o.isElement job.hides) =
      o.isElement job.hides := by
    rintro ⟨around, content | tag⟩
    · rfl
    · show (job.hasCondition tag && job.hides tag) = job.hides tag
      cases hhides : job.hides tag with
      | true => rw [Job.hasCondition_of_hides hhides, Bool.and_self]
      | false => rw [Bool.and_false]
  have hremains : nodes.filter (Occurrence.remains job.hides) =
      (nodes.filter (Occurrence.isReached job.hides)).filter
        (fun o => !o.isElement job.hides) := by
    rw [List.filter_filter]
    refine List.filter_congr fun o _ => ?_
    rw [Occurrence.remains, Bool.and_comm]
  rw [List.countP_eq_countP_filter_add _ _ (Occurrence.isElement job.hides), List.countP_filter,
    hremains]
  simp [hgone]

/-- What deciding about the elements of a document leaves and what it counts. The elements with a
condition that does not hold go with all that is in them, every other node stays at its place and
loses its condition. The counters tell, of the elements that are not within one that goes, how
many have a condition, one that does not hold and one that cannot be read; of those with a
condition, the ones that are counted as gone and the ones that stay are all. -/
theorem selectVisible_exact (job : Job) (f : Forest) (tally : VisibilityTally)
    (h : tally.memo.Faithful) :
    let kept := f.dropWhere job.hides
    let visited := f.occurrences.filter (Occurrence.isReached job.hides)
    let after := (f.selectVisible job tally).2
    (f.selectVisible job tally).1 = kept.mapTags (·.without job.settings.conditionAttribute) ∧
      kept.occurrences = f.occurrences.filter (Occurrence.remains job.hides) ∧
      after.evaluated = tally.evaluated + visited.countP (Occurrence.isElement job.hasCondition) ∧
      after.removed = tally.removed + visited.countP (Occurrence.isElement job.hides) ∧
      after.unsupported = tally.unsupported + visited.countP (Occurrence.isElement job.misreads) ∧
      after.evaluated - tally.evaluated = after.removed - tally.removed +
        kept.occurrences.countP (Occurrence.isElement job.hasCondition) := by
  have hkept : (f.dropWhere job.hides).occurrences =
      f.occurrences.filter (Occurrence.remains job.hides) := occurrencesWithin_dropWhere rfl f
  have hevaluated := count_selectVisible job.counts_evaluated [] rfl f h
  have hremoved := count_selectVisible job.counts_removed [] rfl f h
  have hunsupported := count_selectVisible job.counts_unsupported [] rfl f h
  have hsum := countP_hasCondition job (f.occurrencesWithin [])
  refine ⟨fst_selectVisible f h, hkept, hevaluated, hremoved, hunsupported, ?_⟩
  show (f.selectVisible job tally).2.evaluated - _ = _
  rw [hevaluated, hremoved, hkept, occurrences, hsum]
  omega

end Forest

/-- Of four elements with a condition one stands in another that goes. Of the three others one has a
condition that does not hold and one a condition that cannot be read; one condition was read
before. -/
theorem selectVisible_exact_nested :
    let job : Job := ⟨{}, .empty, .record [("a", .bool true)]⟩
    let memo := (Memo.empty.read "Model.a").2
    let inner : Forest := .element ⟨"b", .ofList [("data-if", "true")]⟩ .nil .nil
    let document : Forest :=
      .element ⟨"div", .ofList [("class", "c"), ("data-if", "Model.a")]⟩
        (.element ⟨"p", .ofList [("data-if", "false")]⟩ inner
          (.text "t" (.element ⟨"i", .ofList [("data-if", "?")]⟩ .nil .nil))) .nil
    let result := document.selectVisible job { memo }
    memo.Faithful ∧
      result.1 = .element ⟨"div", .ofList [("class", "c")]⟩
        (.text "t" (.element ⟨"i", .empty⟩ .nil .nil)) .nil ∧
      result.2.evaluated = 3 ∧ result.2.removed = 1 ∧ result.2.unsupported = 1 := by
  intro job memo inner document result
  have hmemo : memo.Faithful := (Memo.read_of_faithful Memo.faithful_empty "Model.a").2
  obtain ⟨htree, -, hevaluated, hremoved, hunsupported, -⟩ :=
    document.selectVisible_exact job { memo } hmemo
  refine ⟨hmemo, htree.trans ?_, hevaluated.trans ?_, hremoved.trans ?_, hunsupported.trans ?_⟩
  all_goals decide +kernel

end FormLetter
