import FormLetter.Proofs.Letter
import FormLetter.Proofs.ShownTexts

/-!
# Which value a placeholder takes

Repeats fill in their copies from the outermost one inwards, and each pass has the field values at
hand beside its own item. A placeholder takes the first value that any of these passes offers. So
an outer repeat wins against an inner one of the same variable, and a field value wins against an
inner item, if there is a repeat of another variable around it.

* `Place.shown_eq`: the first offer stands in the place of a placeholder.
* `Renderer.render_first_offer`: what that means for an item that has a text for the placeholder.
* `render_outer_first`: the innermost item need not be the one that is shown.
-/

namespace FormLetter

section

variable {job : Job}

/-- Without brackets in the field values and in the data, no pass puts in a text with brackets. -/
theorem Job.givesBracketFree_sourceOf (hvalues : ∀ e ∈ job.values.toList, BracketFree e.2.toList)
    (hdata : ∀ s ∈ job.data.texts, BracketFree s.toList) {b : Binding} (hb : b.IsFrom job.data) :
    (job.sourceOf b).GivesBracketFree := by
  refine FieldSource.givesBracketFree hvalues fun b' hb' s hs => ?_
  obtain rfl : b = b' := Option.some.inj hb'
  obtain ⟨path, items, hitems, hmem⟩ := hb
  exact hdata s (Datum.texts_at?_subset hitems (Datum.texts_subset_of_mem hmem hs))

namespace Place

/-- The sources that fill in a place, the first one first: the repeats around it from the outermost
one inwards, then the field values alone. -/
def sources (job : Job) (place : Place) : List FieldSource :=
  place.bindings.map job.sourceOf ++ [.ofValues job.values]

theorem toList_expanded (place : Place) : (place.expanded job).toList =
    FieldSource.fillAll (place.bindings.map job.sourceOf) place.content.toList := by
  obtain ⟨bindings, content⟩ := place
  unfold expanded
  induction bindings generalizing content with
  | nil => rfl
  | cons b bindings ih =>
    have hstep := FieldSource.toList_fill (job.sourceOf b) content
    show (List.foldl _ ((job.sourceOf b).fill false content) bindings).toList =
      FieldSource.fillAll _ ((job.sourceOf b).fillChars content.toList)
    rw [ih, hstep]

theorem toList_shown (place : Place) : (place.shown job).toList =
    FieldSource.fillAll (place.sources job) place.content.toList := by
  rw [shown, FieldSource.toList_fill, toList_expanded, sources, FieldSource.fillAll,
    FieldSource.fillAll, List.foldl_append]
  rfl

/-- The first offer stands in the place of a placeholder, and what stands before and behind it is
shown as if it stood alone. -/
theorem shown_eq (hvalues : ∀ e ∈ job.values.toList, BracketFree e.2.toList)
    (hdata : ∀ s ∈ job.data.texts, BracketFree s.toList) {bindings : List Binding}
    (hfrom : ∀ b ∈ bindings, b.IsFrom job.data) {p : Placeholder} {first written last : String}
    (hp : p.Written written.toList) (hplace : ¬Enclosed first.toList last.toList) :
    shown job ⟨bindings, first ++ written ++ last⟩ =
      shown job ⟨bindings, first⟩ ++
        (((sources job ⟨bindings, first⟩).findSome? fun s => s.get? p.path).getD written) ++
          shown job ⟨bindings, last⟩ := by
  have hsources : ∀ s ∈ sources job ⟨bindings, first⟩, s.GivesBracketFree := by
    intro s hs
    rcases List.mem_append.1 hs with hs | hs
    · obtain ⟨b, hb, rfl⟩ := List.mem_map.1 hs
      exact job.givesBracketFree_sourceOf hvalues hdata (hfrom b hb)
    · rw [List.mem_singleton.1 hs]
      exact FieldSource.givesBracketFree_ofValues hvalues
  have hgetD : ∀ o : Option String,
      o.elim written.toList String.toList = (o.getD written).toList := by
    intro o
    cases o with
    | none => rfl
    | some value => rfl
  apply String.toList_inj.1
  simp only [toList_shown, String.toList_append, List.append_assoc, ← hgetD]
  exact FieldSource.fillAll_append_field hsources hp hplace

end Place

/-! ## Items that have a text for a placeholder -/

theorem Job.get?_sourceOf {b : Binding} {path rest : String} (h : b.pathWithin? path = some rest) :
    (job.sourceOf b).get? path = b.get? rest := FieldSource.get?_of_pathWithin? rfl h

end

namespace Renderer

/-- A letter shows the places of its draft. Where the template has a placeholder for a field of a
repeat around it, and the item has a text for the field, the letter shows the first offer of the
repeats further out, and the text of the item if these have none. -/
theorem render_first_offer (r : Renderer) (document : Forest) (values : Entries String)
    (data : Datum) (hvalues : ∀ e ∈ values.toList, BracketFree e.2.toList)
    (hdata : ∀ s ∈ data.texts, BracketFree s.toList) :
    let job := r.job values data
    (r.render document values data).document = (job.draft document).letter job ∧
      ∀ bindings first written last, ∀ p : Placeholder,
        ⟨bindings, first ++ written ++ last⟩ ∈ (job.draft document).places →
        p.Written written.toList → ¬Enclosed first.toList last.toList →
        ∀ outer b inner rest text, bindings = outer ++ b :: inner →
          b.pathWithin? p.path = some rest → b.get? rest = some text →
          Place.shown job ⟨bindings, first ++ written ++ last⟩ =
            Place.shown job ⟨bindings, first⟩ ++
              ((outer.findSome? fun o => (job.sourceOf o).get? p.path).getD text) ++
                Place.shown job ⟨bindings, last⟩ := by
  refine ⟨document_render r document values data, ?_⟩
  intro bindings first written last p hmem hp hplace outer b inner rest text hbindings hrest htext
  obtain ⟨-, hfrom⟩ := Job.isFrom_of_mem_places hmem
  rw [Place.shown_eq hvalues hdata hfrom hp hplace]
  have hoffer : (Place.sources (r.job values data) ⟨bindings, first⟩).findSome?
      (fun s => s.get? p.path) =
        some ((outer.findSome? fun o =>
          ((r.job values data).sourceOf o).get? p.path).getD text) := by
    rw [Place.sources, hbindings, List.map_append, List.append_assoc, List.findSome?_append,
      List.findSome?_map, List.map_cons, List.cons_append, List.findSome?_cons,
      Job.get?_sourceOf hrest, htext]
    show Option.or (outer.findSome? fun o => ((r.job values data).sourceOf o).get? p.path)
      (some text) = _
    cases outer.findSome? fun o => ((r.job values data).sourceOf o).get? p.path with
    | none => rfl
    | some value => rfl
  rw [hoffer]
  rfl

end Renderer

/-! ## The innermost item

A template with two repeats around two of its texts, and one around a third. -/

namespace NestedRepeats

/-- The item of the outer repeats. -/
def outerItem : Datum := .record [("n", .text "X")]

/-- The item of the inner repeats. -/
def innerItem : Datum := .record [("n", .text "Y")]

def data : Datum := .record [("xs", .list [outerItem]), ("ys", .list [innerItem])]

def values : Entries String := .ofList [("Y", "Z"), ("b.n", "V")]

/-- A repeated element. -/
def repeated (directive : String) (inside : Forest) : Forest :=
  .element ⟨"li", .ofList [("data-repeat", directive)]⟩ inside .nil

def document : Forest :=
  repeated "a in Model.xs" (repeated "b in Model.ys" (.text "[[b.n]]" .nil)) ++
    repeated "a in Model.xs" (repeated "a in Model.ys" (.text "[[a.n]]" .nil)) ++
      repeated "b in Model.ys" (.text "[[[[b.n]]]]" .nil)

def job : Job := Renderer.default.job values data

theorem places_draft : (job.draft document).places =
    [⟨[⟨"a", outerItem⟩, ⟨"b", innerItem⟩], "[[b.n]]"⟩,
      ⟨[⟨"a", outerItem⟩, ⟨"a", innerItem⟩], "[[a.n]]"⟩, ⟨[⟨"b", innerItem⟩], "[[[[b.n]]]]"⟩] := by
  with_unfolding_all rfl

theorem written (path : String) (h : Placeholder.ofContent? path.toList = some ⟨path, false⟩)
    (hfree : BracketFree path.toList) :
    (Placeholder.mk path false).Written ("[[" ++ path ++ "]]").toList := by
  refine ⟨path.toList, ?_, hfree, h⟩
  simp

end NestedRepeats

open NestedRepeats in
/-- The letter shows the field value that the outer repeat has at hand. -/
theorem render_first_offer_nested :
    (∀ e ∈ values.toList, BracketFree e.2.toList) ∧ (∀ s ∈ data.texts, BracketFree s.toList) ∧
      (Renderer.default.render document values data).document = (job.draft document).letter job ∧
      Place.shown job ⟨[⟨"a", outerItem⟩, ⟨"b", innerItem⟩], "" ++ "[[b.n]]" ++ ""⟩ =
        Place.shown job ⟨[⟨"a", outerItem⟩, ⟨"b", innerItem⟩], ""⟩ ++ "V" ++
          Place.shown job ⟨[⟨"a", outerItem⟩, ⟨"b", innerItem⟩], ""⟩ := by
  have hvalues : ∀ e ∈ values.toList, BracketFree e.2.toList := by decide +kernel
  have hdata : ∀ s ∈ data.texts, BracketFree s.toList := by decide +kernel
  obtain ⟨hletter, hplaces⟩ :=
    Renderer.default.render_first_offer document values data hvalues hdata
  have hmem : ⟨[⟨"a", outerItem⟩, ⟨"b", innerItem⟩], "" ++ "[[b.n]]" ++ ""⟩ ∈
      (job.draft document).places := by
    rw [places_draft]
    exact .head _
  have houter : [Binding.mk "a" outerItem].findSome? (fun o => (job.sourceOf o).get? "b.n") =
      some "V" := by decide +kernel
  have hshown := hplaces _ "" "[[b.n]]" "" ⟨"b.n", false⟩ hmem
    (written "b.n" (by decide) (by decide)) (by decide +kernel) [⟨"a", outerItem⟩]
    ⟨"b", innerItem⟩ [] "n" "Y" rfl (by decide) (by decide +kernel)
  refine ⟨hvalues, hdata, hletter, hshown.trans ?_⟩
  show _ ++ (([Binding.mk "a" outerItem].findSome? fun o =>
    (job.sourceOf o).get? "b.n").getD "Y") ++ _ = _
  rw [houter]
  rfl

/-- Where a place has a placeholder for the field of a variable, the item of the innermost repeat
that binds the variable is shown if it has a text for the field. -/
def Place.ShowsInnermost (job : Job) (place : Place) : Prop :=
  ∀ first written last, ∀ p : Placeholder, place.content = first ++ written ++ last →
    p.Written written.toList →
    ∀ outer b inner rest text, place.bindings = outer ++ b :: inner →
      (∀ c ∈ inner, c.name ≠ b.name) → b.pathWithin? p.path = some rest → b.get? rest = some text →
      place.shown job =
        Place.shown job ⟨place.bindings, first⟩ ++ text ++ Place.shown job ⟨place.bindings, last⟩

open NestedRepeats in
/-- None of the three places shows the text `Y` of its innermost item: the first shows a field
value that the outer repeat has at hand, the second the item of an outer repeat of the same
variable, and in the third the text becomes the path of a field value. -/
theorem render_outer_first :
    (∀ e ∈ values.toList, BracketFree e.2.toList) ∧ (∀ s ∈ data.texts, BracketFree s.toList) ∧
      (Renderer.default.render document values data).document = (job.draft document).letter job ∧
      (job.draft document).places.map (Place.shown job) = ["V", "X", "Z"] ∧
      ∀ place ∈ (job.draft document).places, ¬place.ShowsInnermost job := by
  refine ⟨by decide +kernel, by decide +kernel, Renderer.document_render _ _ _ _,
    by decide +kernel, ?_⟩
  rw [places_draft]
  intro place hmem hshows
  simp only [List.mem_cons, List.not_mem_nil, or_false] at hmem
  rcases hmem with rfl | rfl | rfl
  · have hshown := hshows "" "[[b.n]]" "" ⟨"b.n", false⟩ rfl
      (written "b.n" (by decide) (by decide)) [⟨"a", outerItem⟩] ⟨"b", innerItem⟩ [] "n" "Y" rfl
      (by decide) (by decide) (by decide +kernel)
    exact absurd hshown (by decide +kernel)
  · have hshown := hshows "" "[[a.n]]" "" ⟨"a.n", false⟩ rfl
      (written "a.n" (by decide) (by decide)) [⟨"a", outerItem⟩] ⟨"a", innerItem⟩ [] "n" "Y" rfl
      (by decide) (by decide) (by decide +kernel)
    exact absurd hshown (by decide +kernel)
  · have hshown := hshows "[[" "[[b.n]]" "]]" ⟨"b.n", false⟩ rfl
      (written "b.n" (by decide) (by decide)) [] ⟨"b", innerItem⟩ [] "n" "Y" rfl
      (by decide) (by decide) (by decide +kernel)
    exact absurd hshown (by decide +kernel)

end FormLetter
