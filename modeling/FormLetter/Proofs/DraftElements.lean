import FormLetter.Proofs.Letter

/-!
# The elements of a draft

An element of an expanded document is a copy of an element of the template, with the items filled
in that the repeats around it have bound. The draft tells which copy it is.

* `Draft.copies` lists the copies in document order.
* `Draft.map_occurrence_copiesWithin`: they are the elements of the expanded draft.
* `Forest.map_occurrence_copies`: so they are the elements of the expanded document.
* `Renderer.render_exact`: what rendering makes of the expanded document.
-/

namespace FormLetter

/-- A copy of an element of a template. -/
structure ElementCopy where
  /-- The tags of the elements around it, with the items filled in. -/
  around : List Tag
  /-- What the repeats around it have bound, the outermost one first. -/
  bindings : List Binding
  /-- The tag as the template has it, without a repeat directive. -/
  tag : Tag

namespace ElementCopy

/-- The tag with the items filled in. -/
def filledTag (job : Job) (copy : ElementCopy) : Tag := copy.tag.fillThrough job copy.bindings

/-- The element of the expanded document. -/
def occurrence (job : Job) (copy : ElementCopy) : Occurrence :=
  ⟨copy.around, .element (copy.filledTag job)⟩

end ElementCopy

namespace Draft

/-- The elements of a run of siblings in document order, given the tags around them. -/
def copiesWithin (job : Job) (around : List Tag) : Draft → List ElementCopy
  | .nil => []
  | .text _ next => next.copiesWithin job around
  | .element bindings tag children next =>
    ⟨around, bindings, tag⟩ ::
      (children.copiesWithin job (around ++ [tag.fillThrough job bindings]) ++
        next.copiesWithin job around)

/-- The elements of a draft, in document order. -/
def copies (job : Job) (d : Draft) : List ElementCopy := d.copiesWithin job []

/-- The copies are the elements of the expanded draft. -/
theorem map_occurrence_copiesWithin (job : Job) (around : List Tag) (d : Draft) :
    (d.copiesWithin job around).map (ElementCopy.occurrence job) =
      ((d.expanded job).occurrencesWithin around).filter (Occurrence.isElement fun _ => true) := by
  induction d generalizing around with
  | nil => rfl
  | text place next ih =>
    rw [copiesWithin, ih, expanded, Forest.occurrencesWithin,
      List.filter_cons_of_neg Bool.false_ne_true]
  | element bindings tag children next ihc ihn =>
    rw [copiesWithin, List.map_cons, List.map_append, ihc, ihn, expanded,
      Forest.occurrencesWithin, List.filter_cons_of_pos rfl, List.filter_append]
    rfl

end Draft

namespace Forest

/-- Expansion gives the expanded draft. -/
theorem fst_expand (job : Job) (document : Forest) :
    (document.expand job).1 = (document.draft job [] {}).1.expanded job := by
  have hexpand : document.expandOnce job {} = _ := expandOnce_fillThrough job document [] {}
  have hrounds : document.expand job = document.expandOnce job {} :=
    expandRounds_eq_expandOnce (Nat.le_refl _)
  rw [hrounds, hexpand]

/-- The copies are the elements of the expanded document. -/
theorem map_occurrence_copies (job : Job) (document : Forest) :
    ((document.draft job [] {}).1.copies job).map (ElementCopy.occurrence job) =
      (document.expand job).1.occurrences.filter (Occurrence.isElement fun _ => true) := by
  rw [fst_expand]
  exact Draft.map_occurrence_copiesWithin job [] _

theorem occurrence_mem_expand {job : Job} {document : Forest} {copy : ElementCopy}
    (h : copy ∈ (document.draft job [] {}).1.copies job) :
    copy.occurrence job ∈ (document.expand job).1.occurrences := by
  have hmem := List.mem_map_of_mem (f := ElementCopy.occurrence job) h
  rw [map_occurrence_copies] at hmem
  exact List.mem_of_mem_filter hmem

end Forest

/-- A letter is what is left of the expanded document without the elements whose condition does not
hold, filled in. Of what cannot be read the report counts the repeat directives, and the conditions
of the elements that are not within such a one. -/
theorem Renderer.render_exact (r : Renderer) (document : Forest) (values : Entries String)
    (data : Datum) :
    let job := r.job values data
    let expanded := document.expand job
    let rendering := r.render document values data
    rendering.document = ((expanded.1.dropWhere job.hides).mapTags
        (·.without job.settings.conditionAttribute)).fill (.ofValues values) ∧
      rendering.report.unsupported = shownCount (expanded.2.unsupported +
        (expanded.1.occurrences.filter (Occurrence.isReached job.hides)).countP
          (Occurrence.isElement job.misreads)) := by
  intro job expanded rendering
  obtain ⟨htree, -, -, -, hunsupported, -⟩ :=
    expanded.1.selectVisible_exact job { memo := .empty } Memo.faithful_empty
  refine ⟨congrArg (Forest.fill (.ofValues values)) htree, ?_⟩
  have hcount : rendering.report.unsupported =
      shownCount (expanded.2.unsupported +
        (expanded.1.selectVisible job { memo := .empty }).2.unsupported) := rfl
  rw [hcount, hunsupported, Nat.zero_add]

end FormLetter
