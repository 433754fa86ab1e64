import Mathlib.Algebra.Order.BigOperators.Group.List
import Mathlib.Algebra.Order.Ring.Nat
import FormLetter.Proofs.Ceiling
import FormLetter.Proofs.Rounds

/-!
# How large a letter can get

Repeats within repeats multiply their copies. Still a letter is not larger than the document, and as
large again for each copy made: a round makes copies of an element that has not been expanded
before, so that none of them is larger than the document. A ceiling on the number of copies is a
bound on the size of the letter.

* `Forest.largestWith` is the size of the largest element that waits for its round.
  `Forest.largestWith_round_le`: a round does not raise it.
* `Forest.size_replaceFirst`: what a round adds to the size of the document.
* `Forest.Rounds.bounds`: what some rounds have added.
* `Renderer.size_renderWith_le`: the bound on copies and nodes that a ceiling gives.
-/

namespace FormLetter

/-! ## One repeat -/

namespace Job

/-- The copies made are counted. -/
theorem iterations_bindings (job : Job) (directive : String) (template : Forest)
    (tally : ExpansionTally) :
    (job.bindings directive template tally).2.iterations =
      tally.iterations + (job.bindings directive template tally).1.length := by
  unfold bindings
  split
  · rfl
  · split
    · rfl
    · split
      · rfl
      · rw [List.length_map]

/-- No repeat goes over a ceiling that a counter can show to be passed. -/
theorem iterations_bindings_le (job : Job) {most : Nat} (hmost : most < counterLimit)
    (directive : String) (template : Forest) {tally : ExpansionTally}
    (h : tally.iterations ≤ most) :
    ((job.withCeiling (some most)).bindings directive template tally).2.iterations ≤ most := by
  unfold bindings
  split
  · exact h
  · split
    · exact h
    · split
      · exact h
      · rename_i items _ hfits
        have hshown : ¬most < shownCount (tally.iterations + items.length) := by
          simpa [exceeds, withCeiling, Settings.withCeiling] using hfits
        dsimp only
        unfold shownCount at hshown
        omega

end Job

namespace Forest

/-! ## Elements that wait for their round -/

/-- The size of the largest element that has an attribute. -/
def largestWith (name : String) : Forest → Nat
  | .nil => 0
  | .text _ next => next.largestWith name
  | .element tag children next =>
    let others := max (children.largestWith name) (next.largestWith name)
    if tag.attributes.contains name then max (children.size + 1) others else others

theorem largestWith_le_size (name : String) (f : Forest) : f.largestWith name ≤ f.size := by
  induction f with
  | nil => exact Nat.le_refl _
  | text content next ih => exact Nat.le_succ_of_le ih
  | element tag children next ihc ihn =>
    rw [largestWith, size]
    split <;> omega

theorem largestWith_append (name : String) (f g : Forest) :
    (f ++ g).largestWith name = max (f.largestWith name) (g.largestWith name) := by
  induction f with
  | nil => exact (Nat.zero_max _).symm
  | text content next ih => exact ih
  | element tag children next _ ih =>
    rw [element_append, largestWith, largestWith, ih]
    split <;> omega

theorem largestWith_fill (name : String) (source : FieldSource) (f : Forest) :
    (f.fill source).largestWith name = f.largestWith name := by
  induction f with
  | nil => rfl
  | text content next ih => exact ih
  | element tag children next ihc ihn =>
    rw [fill, largestWith, largestWith, ihc, ihn, size_fill, Tag.fill, Entries.contains_mapValues]

theorem largestWith_join_le {name : String} {most : Nat} {forests : List Forest}
    (h : ∀ f ∈ forests, f.largestWith name ≤ most) : (join forests).largestWith name ≤ most := by
  induction forests with
  | nil => exact Nat.zero_le _
  | cons f forests ih =>
    obtain ⟨hf, hothers⟩ := List.forall_mem_cons.1 h
    show (f ++ join forests).largestWith name ≤ most
    rw [largestWith_append]
    exact Nat.max_le.2 ⟨hf, ih hothers⟩

theorem size_join (forests : List Forest) : (join forests).size = (forests.map size).sum := by
  induction forests with
  | nil => rfl
  | cons f forests ih =>
    show (f ++ join forests).size = _
    rw [size_append, ih, List.map_cons, List.sum_cons]

/-- The first repeat is one of those that wait. -/
theorem size_firstRepeat?_le {name directive : String} {f template : Forest}
    (h : f.firstRepeat? name = some (directive, template)) :
    template.size ≤ f.largestWith name := by
  induction f with
  | nil => cases h
  | text content next ih => exact ih h
  | element tag children next ihc ihn =>
    rw [firstRepeat?] at h
    rw [largestWith, Entries.contains]
    cases htag : tag.attributes.get? name with
    | some written =>
      rw [htag] at h
      cases h
      exact Nat.le_max_left _ _
    | none =>
      rw [htag] at h
      dsimp only at h
      rcases Option.or_eq_some_iff.1 h with h | ⟨-, h⟩
      · exact Nat.le_trans (ihc h) (Nat.le_max_left _ _)
      · exact Nat.le_trans (ihn h) (Nat.le_max_right _ _)

/-- Something in the place of the first repeat counts instead of it. -/
theorem size_replaceFirst {name directive : String} {f template : Forest}
    (h : f.firstRepeat? name = some (directive, template)) (other : Forest) :
    (f.replaceFirst name other).size + template.size = f.size + other.size := by
  induction f with
  | nil => cases h
  | text content next ih =>
    have hnext := ih h
    rw [replaceFirst, size, size]
    omega
  | element tag children next ihc ihn =>
    rw [firstRepeat?] at h
    rw [replaceFirst]
    cases htag : tag.attributes.get? name with
    | some written =>
      rw [htag] at h
      cases h
      dsimp only
      rw [size_append, size, size, size]
      omega
    | none =>
      rw [htag] at h
      cases hfirst : children.firstRepeat? name with
      | some r =>
        rw [hfirst] at h
        cases h
        have hchildren := ihc hfirst
        dsimp only
        rw [size, size]
        omega
      | none =>
        rw [hfirst] at h
        have hnext := ihn h
        dsimp only
        rw [size, size]
        omega

/-! ## One round -/

/-- A copy waits no longer, and the repeats within it are not larger than those within its
template. -/
theorem largestWith_round_le {job : Job} {tally tally' : ExpansionTally} {f g : Forest}
    (h : Round job tally f g tally') :
    g.largestWith job.settings.repeatAttribute ≤ f.largestWith job.settings.repeatAttribute := by
  induction h with
  | @unroll tag directive hdirective children next =>
    have hbare : (tag.without job.settings.repeatAttribute).attributes.contains
        job.settings.repeatAttribute = false := by
      rw [Tag.without, Entries.contains_erase, bne_self_eq_false, Bool.false_and]
    have hcopies : ∀ copy ∈ (job.bindings directive
        (element (tag.without job.settings.repeatAttribute) children nil) tally).1.map
          (fun b => (element (tag.without job.settings.repeatAttribute) children nil).fill
            (job.sourceOf b)),
        copy.largestWith job.settings.repeatAttribute ≤
          children.largestWith job.settings.repeatAttribute := by
      intro copy hcopy
      obtain ⟨b, -, rfl⟩ := List.mem_map.1 hcopy
      rw [largestWith_fill, largestWith, hbare, if_neg Bool.false_ne_true]
      exact Nat.max_le.2 ⟨Nat.le_refl _, Nat.zero_le _⟩
    have hjoin := largestWith_join_le hcopies
    rw [unroll_eq, largestWith_append, largestWith, Entries.contains, hdirective]
    dsimp only [Option.isSome_some]
    rw [if_pos rfl]
    omega
  | text content round ih => exact ih
  | @children tag hplain children children' _ round next ih =>
    rw [largestWith, largestWith, Entries.contains, hplain]
    exact max_le_max_right _ ih
  | @next tag hplain children hchildren next next' _ round ih =>
    rw [largestWith, largestWith, Entries.contains, hplain]
    exact max_le_max_left _ ih

/-! ## All rounds -/

/-- What some rounds can have made of a document: as many copies as are counted, none of them
larger than the document, and no more nodes than these copies have. -/
structure Bounds (job : Job) (document : Forest) (copies : List Forest) (f : Forest)
    (tally : ExpansionTally) : Prop where
  iterations_eq : tally.iterations = copies.length
  size_copy_le : ∀ copy ∈ copies, copy.size ≤ document.size
  size_le : f.size ≤ document.size + (copies.map size).sum
  largestWith_le : f.largestWith job.settings.repeatAttribute ≤ document.size

theorem Bounds.size_le_mul {job : Job} {document f : Forest} {copies : List Forest}
    {tally : ExpansionTally} (h : Bounds job document copies f tally) :
    f.size ≤ (tally.iterations + 1) * document.size := by
  have hsum : (copies.map size).sum ≤ (copies.map size).length • document.size := by
    refine List.sum_le_card_nsmul _ _ fun n hn => ?_
    obtain ⟨copy, hcopy, rfl⟩ := List.mem_map.1 hn
    exact h.size_copy_le copy hcopy
  rw [List.length_map, Nat.nsmul_eq_mul, ← h.iterations_eq] at hsum
  have hsize := h.size_le
  rw [Nat.add_mul, Nat.one_mul]
  omega

theorem Rounds.bounds {job : Job} {document f : Forest} {made : List (List Forest)}
    {tally : ExpansionTally} (h : Rounds job document made f tally) :
    Bounds job document made.flatten f tally := by
  induction h with
  | start =>
    exact ⟨rfl, List.forall_mem_nil _, Nat.le_refl _, largestWith_le_size _ document⟩
  | @next made f g tally tally' before round ih =>
    rw [expandNext?_eq_some_iff] at round
    obtain ⟨directive, template, hfirst, rfl, rfl⟩ := exists_template_of_round round
    have hcopies : f.nextCopies job tally = _ := nextCopies_of_firstRepeat? hfirst tally
    have hflatten : (made ++ [f.nextCopies job tally]).flatten =
        made.flatten ++ f.nextCopies job tally := by
      rw [List.flatten_append, List.flatten_singleton]
    rw [hflatten]
    constructor
    · rw [job.iterations_bindings, List.length_append, ih.iterations_eq, hcopies, List.length_map]
    · intro copy hcopy
      rcases List.mem_append.1 hcopy with hcopy | hcopy
      · exact ih.size_copy_le copy hcopy
      · rw [hcopies] at hcopy
        obtain ⟨b, -, rfl⟩ := List.mem_map.1 hcopy
        rw [size_fill]
        exact Nat.le_trans (size_firstRepeat?_le hfirst) ih.largestWith_le
    · have hsize := size_replaceFirst hfirst (join (f.nextCopies job tally))
      have hbefore := ih.size_le
      rw [size_join] at hsize
      rw [← hcopies, List.map_append, List.sum_append]
      omega
    · exact Nat.le_trans (largestWith_round_le round) ih.largestWith_le

/-- At no time more copies are made than the ceiling allows. -/
theorem Rounds.iterations_le {job : Job} {document f : Forest} {made : List (List Forest)}
    {tally : ExpansionTally} {most : Nat} (hmost : most < counterLimit)
    (h : Rounds (job.withCeiling (some most)) document made f tally) :
    tally.iterations ≤ most := by
  induction h with
  | start => exact Nat.zero_le _
  | next before round ih =>
    obtain ⟨directive, template, -, rfl, -⟩ :=
      exists_template_of_round (expandNext?_eq_some_iff.1 round)
    exact job.iterations_bindings_le hmost directive template ih

/-- Deciding about elements adds none. -/
theorem size_selectVisible_le (job : Job) (f : Forest) (tally : VisibilityTally) :
    (f.selectVisible job tally).1.size ≤ f.size := by
  induction f generalizing tally with
  | nil => exact Nat.le_refl _
  | text content next ih => exact Nat.succ_le_succ (ih tally)
  | element tag children next ihc ihn =>
    rw [selectVisible]
    rcases job.judgeTag tag tally with ⟨_ | _, tally'⟩
    · exact Nat.le_trans (ihn tally') (by rw [size]; omega)
    · have hchildren := ihc tally'
      have hnext := ihn (children.selectVisible job tally').2
      show (children.selectVisible job tally').1.size + _ + 1 ≤ children.size + next.size + 1
      omega

end Forest

/-! ## Letters -/

namespace Renderer

/-- A round puts copies in the place of the first repeat. With a ceiling below the largest number of
a counter, as many copies are made after every round as are counted, these are not more than the
ceiling allows, and the document has its own size once and once more for each copy at most. The
rounds end in the expanded document. The report shows the number of all copies made, and the letter
is not larger either. -/
theorem size_renderWith_le (r : Renderer) (memo : Memo) (document : Forest)
    (values : Entries String) (data : Datum) {most : Nat} (h : most < counterLimit) :
    let bounded := r.withCeiling (some most)
    let job := bounded.job values data
    let rendering := (bounded.renderWith memo document values data).1
    (∀ (f g : Forest) (tally tally' : ExpansionTally), f.expandNext? job tally = some (g, tally') →
        g = f.replaceFirst job.settings.repeatAttribute (.join (f.nextCopies job tally))) ∧
      (∀ made f tally, Forest.Rounds job document made f tally →
        tally.iterations ≤ most ∧ made.flatten.length = tally.iterations ∧
          f.size ≤ (tally.iterations + 1) * document.size) ∧
      (∃ made, Forest.Rounds job document made (document.expand job).1 (document.expand job).2 ∧
        rendering.report.repeatIterations = made.flatten.length) ∧
      rendering.report.repeatIterations ≤ most ∧
      rendering.document.size ≤ (rendering.report.repeatIterations + 1) * document.size ∧
      rendering.document.size ≤ (most + 1) * document.size := by
  intro bounded job rendering
  have hjob : job = (r.job values data).withCeiling (some most) := rfl
  have hmoment : ∀ made f tally, Forest.Rounds job document made f tally →
      tally.iterations ≤ most ∧ made.flatten.length = tally.iterations ∧
        f.size ≤ (tally.iterations + 1) * document.size := fun made f tally hrounds =>
    ⟨Forest.Rounds.iterations_le h (hjob ▸ hrounds), hrounds.bounds.iterations_eq.symm,
      hrounds.bounds.size_le_mul⟩
  obtain ⟨made, hrounds⟩ := Forest.Rounds.of_expand job document
  obtain ⟨hmost, hlength, hexpanded⟩ := hmoment _ _ _ hrounds
  have hshown : rendering.report.repeatIterations = (document.expand job).2.iterations :=
    Nat.min_eq_left (Nat.le_trans hmost (Nat.le_of_lt h))
  have hsize : rendering.document.size ≤ (document.expand job).1.size := by
    show (Forest.fill _ _).size ≤ _
    rw [Forest.size_fill]
    exact Forest.size_selectVisible_le _ _ _
  rw [hshown]
  refine ⟨fun _ _ _ _ => Forest.eq_replaceFirst_of_expandNext?, hmoment,
    ⟨made, hrounds, hlength.symm⟩, hmost, Nat.le_trans hsize hexpanded,
    Nat.le_trans (Nat.le_trans hsize hexpanded) (Nat.mul_le_mul_right _ (by omega))⟩

/-- A ceiling of six copies lets the outer repeat and both inner ones of its first copy make theirs,
and drops the others. The document has four nodes and the letter seven. -/
theorem size_renderWith_le_nested :
    let inner : Forest := .element ⟨"li", .ofList [("data-repeat", "y in Model.xs")]⟩ .nil .nil
    let document : Forest :=
      .element ⟨"ul", .ofList [("data-repeat", "x in Model.xs")]⟩ (inner ++ inner) (.text "t" .nil)
    let data : Datum := .record [("xs", .list [.null, .null])]
    let rendering := ((default.withCeiling (some 6)).renderWith .empty document .empty data).1
    6 < counterLimit ∧ document.size = 4 ∧ rendering.report.repeatIterations = 6 ∧
      rendering.report.limitReached = true ∧ rendering.document.size = 7 ∧
      rendering.document.size ≤ (6 + 1) * document.size := by
  intro inner document data rendering
  have hceiling : 6 < counterLimit := by decide
  obtain ⟨-, -, -, -, -, hsize⟩ := default.size_renderWith_le .empty document .empty data hceiling
  exact ⟨hceiling, by decide +kernel, by decide +kernel, by decide +kernel, by decide +kernel,
    hsize⟩

end Renderer

end FormLetter
