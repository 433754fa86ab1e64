import Mathlib.Data.List.Basic
import FormLetter.Renderer
import FormLetter.Proofs.Draft
import FormLetter.Proofs.Selection

/-!
# Letters of drafts

A letter follows from its draft: the conditions are decided on the draft, and then each text is
filled in by itself, by the repeats around it and by the last pass.

* `Draft.selectVisible_expanded`: the conditions can be decided on the draft.
* `Renderer.document_render`: the letter shows the places of its draft, each by itself.
* `Renderer.missingRequired_render`: what is missing is what is missing at one of the places.
* `Job.isFrom_of_mem_places`: the places have the texts of the template, and items of the data
  around them.
-/

namespace FormLetter

/-! ## Conditions -/

/-- Whether an element with the given tag stays. One whose condition cannot be read does. -/
def Job.stays (job : Job) (tag : Tag) : Bool :=
  match tag.attributes.get? job.settings.conditionAttribute with
  | some condition => (evaluate? condition job.data).getD (conditionPolicy.apply false true)
  | none => true

theorem Job.stays_eq_not_hides (job : Job) (tag : Tag) : job.stays tag = !job.hides tag := by
  unfold stays hides
  cases tag.attributes.get? job.settings.conditionAttribute with
  | none => rfl
  | some condition =>
    rw [Option.any_some]
    dsimp only
    cases evaluate? condition job.data with
    | none => rfl
    | some holds => cases holds <;> rfl

theorem Job.judgeTag_of_faithful (job : Job) (tag : Tag) {tally : VisibilityTally}
    (h : tally.memo.Faithful) :
    (job.judgeTag tag tally).1 = job.stays tag ∧ (job.judgeTag tag tally).2.memo.Faithful := by
  obtain ⟨memo, hmemo, heq⟩ := job.judgeTag_eq tag h
  rw [heq, stays_eq_not_hides]
  exact ⟨rfl, hmemo⟩

namespace Draft

/-- Drops the elements that do not stay, and the conditions of all others. -/
def visible (job : Job) : Draft → Draft
  | .nil => .nil
  | .text place next => .text place (next.visible job)
  | .element bindings tag children next =>
    if job.stays (tag.fillThrough job bindings) then
      .element bindings (tag.without job.settings.conditionAttribute) (children.visible job)
        (next.visible job)
    else next.visible job

/-- The conditions can be decided on the draft. -/
theorem selectVisible_expanded (job : Job) (d : Draft) {tally : VisibilityTally}
    (h : tally.memo.Faithful) :
    ((d.expanded job).selectVisible job tally).1 = (d.visible job).expanded job ∧
      ((d.expanded job).selectVisible job tally).2.memo.Faithful := by
  induction d generalizing tally with
  | nil => exact ⟨rfl, h⟩
  | text place next ih =>
    obtain ⟨hnext, hmemo⟩ := ih h
    rw [expanded, Forest.selectVisible, visible, expanded]
    exact ⟨congrArg _ hnext, hmemo⟩
  | element bindings tag children next ihc ihn =>
    obtain ⟨hstays, hmemo⟩ := job.judgeTag_of_faithful (tag.fillThrough job bindings) h
    rw [expanded, Forest.selectVisible, visible, ← hstays]
    cases hj : job.judgeTag (tag.fillThrough job bindings) tally with
    | mk stays tally' =>
      rw [hj] at hmemo
      cases stays with
      | true =>
        obtain ⟨hchildren, hmemo⟩ := ihc hmemo
        obtain ⟨hnext, hmemo⟩ := ihn hmemo
        dsimp only
        rw [if_pos rfl, expanded, hchildren, hnext, Tag.without_fillThrough]
        exact ⟨rfl, hmemo⟩
      | false =>
        dsimp only
        rw [if_neg Bool.false_ne_true]
        exact ihn hmemo

/-! ## The letter of a draft -/

/-- Fills in each place by itself. -/
def letter (job : Job) : Draft → Forest
  | .nil => .nil
  | .text place next => .text (place.shown job) (next.letter job)
  | .element bindings tag children next =>
    .element
      { tag with attributes := tag.attributes.mapValues fun _ s => Place.shown job ⟨bindings, s⟩ }
      (children.letter job) (next.letter job)

/-- The texts and attributes of a draft, in document order. -/
def places : Draft → List Place
  | .nil => []
  | .text place next => place :: next.places
  | .element bindings tag children next =>
    tag.attributes.toList.map (fun a => ⟨bindings, a.2⟩) ++ children.places ++ next.places

end Draft

theorem Job.fillAttribute_of_ne (job : Job) (around : List Binding) {name : String}
    (h : name ≠ job.settings.conditionAttribute) (text : String) :
    job.fillAttribute around name text = Place.expanded job ⟨around, text⟩ := by
  have hname : (some job.settings.conditionAttribute == some name) = false :=
    beq_eq_false_iff_ne.2 fun heq => h (Option.some.inj heq).symm
  have hstep : (fun s b => (job.sourceOf b).fillAttribute name s) =
      fun s b => (job.sourceOf b).fill false s := by
    funext s b
    show (job.sourceOf b).fill (some job.settings.conditionAttribute == some name) s = _
    rw [hname]
  rw [Job.fillAttribute, hstep]
  rfl

theorem Tag.ne_of_mem_without {tag : Tag} {name : String} {a : String × String}
    (h : a ∈ (tag.without name).attributes.toList) : a.1 ≠ name := by
  simpa using (List.mem_filter.1 h).2

theorem Tag.mem_of_mem_without {tag : Tag} {name : String} {a : String × String}
    (h : a ∈ (tag.without name).attributes.toList) : a ∈ tag.attributes.toList :=
  List.mem_of_mem_filter h

/-- The attributes of an element without a condition are filled in as texts are. -/
theorem Tag.fill_fillThrough_without (job : Job) (bindings : List Binding) (tag : Tag) :
    ((tag.without job.settings.conditionAttribute).fillThrough job bindings).fill
        (FieldSource.ofValues job.values) =
      { tag.without job.settings.conditionAttribute with
        attributes := (tag.without job.settings.conditionAttribute).attributes.mapValues
          fun _ s => Place.shown job ⟨bindings, s⟩ } := by
  unfold Tag.fill Tag.fillThrough
  congr 1
  apply Entries.ext
  show List.map _ (List.map _ _) = List.map _ _
  rw [List.map_map]
  refine List.map_congr_left fun a ha => ?_
  show (a.1, (FieldSource.ofValues job.values).fill false (job.fillAttribute bindings a.1 a.2)) = _
  rw [job.fillAttribute_of_ne bindings (ne_of_mem_without ha)]
  rfl

theorem Tag.missing_fillThrough_without (job : Job) (bindings : List Binding) (tag : Tag) :
    ((tag.without job.settings.conditionAttribute).fillThrough job bindings).missing
        (FieldSource.ofValues job.values) =
      ((tag.without job.settings.conditionAttribute).attributes.toList.map fun a =>
        Place.mk bindings a.2).flatMap
          fun place => (FieldSource.ofValues job.values).missing (place.expanded job) := by
  unfold Tag.missing Tag.fillThrough
  show List.flatMap _ (List.map _ _) = _
  rw [List.flatMap_map, List.flatMap_map]
  refine List.flatMap_congr fun a ha => ?_
  rw [job.fillAttribute_of_ne bindings (ne_of_mem_without ha)]

namespace Draft

/-- Filling in the expanded draft fills in each of its places by itself. -/
theorem fill_expanded_visible (job : Job) (d : Draft) :
    ((d.visible job).expanded job).fill (FieldSource.ofValues job.values) =
      (d.visible job).letter job := by
  induction d with
  | nil => rfl
  | text place next ih =>
    rw [visible, expanded, Forest.fill, ih]
    rfl
  | element bindings tag children next ihc ihn =>
    rw [visible]
    split
    · rw [expanded, Forest.fill, ihc, ihn, Tag.fill_fillThrough_without]
      rfl
    · exact ihn

theorem missing_expanded_visible (job : Job) (d : Draft) :
    ((d.visible job).expanded job).missing (FieldSource.ofValues job.values) =
      (d.visible job).places.flatMap
        fun place => (FieldSource.ofValues job.values).missing (place.expanded job) := by
  induction d with
  | nil => rfl
  | text place next ih =>
    rw [visible, expanded, Forest.missing, ih]
    rfl
  | element bindings tag children next ihc ihn =>
    rw [visible]
    split
    · rw [expanded, Forest.missing, ihc, ihn, Tag.missing_fillThrough_without, places,
        List.flatMap_append, List.flatMap_append]
    · exact ihn

end Draft

/-- The draft of the letter that is written from a document. -/
def Job.draft (job : Job) (document : Forest) : Draft :=
  (document.draft job [] {}).1.visible job

/-! ## Where places come from -/

/-- The texts and attributes of a document, in document order. -/
def Forest.contents : Forest → List String
  | .nil => []
  | .text content next => content :: next.contents
  | .element tag children next =>
    tag.attributes.toList.map Prod.snd ++ children.contents ++ next.contents

/-- The bound item is one of a list of the data. -/
def Binding.IsFrom (data : Datum) (b : Binding) : Prop :=
  ∃ path items, data.at? path = some (.list items) ∧ b.item ∈ items

/-- The place has one of the given texts, and all that is bound around it are items of the data. -/
def Place.IsFrom (contents : List String) (data : Datum) (place : Place) : Prop :=
  place.content ∈ contents ∧ ∀ b ∈ place.bindings, b.IsFrom data

theorem Place.IsFrom.mono {contents contents' : List String} {data : Datum} {place : Place}
    (h : place.IsFrom contents data) (hsub : contents ⊆ contents') :
    place.IsFrom contents' data := ⟨hsub h.1, h.2⟩

theorem Job.isFrom_of_mem_bindings {job : Job} {directive : String} {template : Forest}
    {tally : ExpansionTally} {b : Binding} (h : b ∈ (job.bindings directive template tally).1) :
    b.IsFrom job.data := by
  unfold Job.bindings at h
  split at h
  · cases h
  · rename_i d hd
    split at h
    · cases h
    · rename_i items hitems
      obtain ⟨x, hx, hxs⟩ := Option.bind_eq_some_iff.1 hitems
      have hlist : x = .list items := Datum.items?_eq_some_iff.1 hxs
      split at h
      · cases h
      · obtain ⟨item, hitem, rfl⟩ := List.mem_map.1 h
        exact ⟨d.path, items, hlist ▸ hx, hitem⟩

namespace Draft

theorem places_append (d e : Draft) : (d.append e).places = d.places ++ e.places := by
  induction d with
  | nil => rfl
  | text place next ih => exact congrArg (place :: ·) ih
  | element bindings tag children next _ ih =>
    rw [append, places, ih, places, List.append_assoc, List.append_assoc, List.append_assoc]

theorem places_join (drafts : List Draft) : (join drafts).places = drafts.flatMap places := by
  induction drafts with
  | nil => rfl
  | cons d drafts ih =>
    show (d.append (join drafts)).places = _
    rw [places_append, ih, List.flatMap_cons]

theorem mem_places_element {bindings : List Binding} {tag : Tag} {children next : Draft}
    {place : Place} : place ∈ (element bindings tag children next).places ↔
      (∃ a ∈ tag.attributes.toList, Place.mk bindings a.2 = place) ∨ place ∈ children.places ∨
        place ∈ next.places := by
  rw [places, List.mem_append, List.mem_append, List.mem_map, or_assoc]

theorem mem_places_of_visible {job : Job} {d : Draft} {place : Place}
    (h : place ∈ (d.visible job).places) : place ∈ d.places := by
  induction d with
  | nil => exact h
  | text place' next ih =>
    rcases List.mem_cons.1 h with rfl | h
    · exact .head _
    · exact .tail _ (ih h)
  | element bindings tag children next ihc ihn =>
    rw [visible] at h
    rw [mem_places_element]
    split at h
    · rcases mem_places_element.1 h with ⟨a, ha, rfl⟩ | h | h
      · exact .inl ⟨a, Tag.mem_of_mem_without ha, rfl⟩
      · exact .inr (.inl (ihc h))
      · exact .inr (.inr (ihn h))
    · exact .inr (.inr (ihn h))

end Draft

/-- The places of a draft have the texts of its template, and items of the data around them. -/
theorem Forest.isFrom_of_mem_places (job : Job) (f : Forest) {around : List Binding}
    (haround : ∀ b ∈ around, b.IsFrom job.data) (tally : ExpansionTally) :
    ∀ place ∈ (f.draft job around tally).1.places, place.IsFrom f.contents job.data := by
  induction f generalizing around tally with
  | nil =>
    intro place h
    cases h
  | text content next ih =>
    intro place h
    rcases List.mem_cons.1 h with rfl | h
    · exact ⟨.head _, haround⟩
    · exact (ih haround _ place h).mono (List.subset_cons_self _ _)
  | element tag children next ihc ihn =>
    have htag : ∀ a ∈ tag.attributes.toList, a.2 ∈ (element tag children next).contents := by
      intro a ha
      exact List.mem_append_left _ (List.mem_append_left _ (List.mem_map_of_mem ha))
    have hchildren : children.contents ⊆ (element tag children next).contents := by
      intro s hs
      exact List.mem_append_left _ (List.mem_append_right _ hs)
    have hnext : next.contents ⊆ (element tag children next).contents :=
      List.subset_append_right _ _
    intro place h
    rw [draft] at h
    cases hwritten : tag.attributes.get? job.settings.repeatAttribute with
    | none =>
      rw [hwritten] at h
      rcases Draft.mem_places_element.1 h with ⟨a, ha, rfl⟩ | h | h
      · exact ⟨htag a ha, haround⟩
      · exact (ihc haround _ place h).mono hchildren
      · exact (ihn haround _ place h).mono hnext
    | some written =>
      rw [hwritten] at h
      dsimp only at h
      rw [Draft.places_append, Draft.places_join, List.mem_append, List.mem_flatMap] at h
      rcases h with ⟨copy, hcopy, h⟩ | h
      · obtain ⟨b, hb, tally', rfl⟩ := mem_inTurn hcopy
        have hbound : ∀ b' ∈ around ++ [b], b'.IsFrom job.data := by
          intro b' hb'
          rcases List.mem_append.1 hb' with hb' | hb'
          · exact haround b' hb'
          · rw [List.mem_singleton.1 hb']
            exact Job.isFrom_of_mem_bindings hb
        rcases Draft.mem_places_element.1 h with ⟨a, ha, rfl⟩ | h | h
        · exact ⟨htag a (Tag.mem_of_mem_without ha), hbound⟩
        · exact (ihc hbound _ place h).mono hchildren
        · cases h
      · exact (ihn haround _ place h).mono hnext

/-- The places of the draft of a letter have the texts of its template, and items of its data
around them. -/
theorem Job.isFrom_of_mem_places {job : Job} {document : Forest} {place : Place}
    (h : place ∈ (job.draft document).places) : place.IsFrom document.contents job.data :=
  document.isFrom_of_mem_places job (fun _ hb => absurd hb List.not_mem_nil) {} place
    (Draft.mem_places_of_visible h)

/-! ## Letters -/

namespace Renderer

variable (r : Renderer) (document : Forest) (values : Entries String) (data : Datum)

/-- What the conditions leave of an expanded document is the expanded draft. -/
theorem selectVisible_expand (job : Job) {memo : Memo} (h : memo.Faithful) :
    ((document.expand job).1.selectVisible job { memo }).1 =
      (job.draft document).expanded job := by
  have hexpand := Forest.expandOnce_fillThrough job document [] {}
  have hrounds : document.expand job = document.expandOnce job {} :=
    Forest.expandRounds_eq_expandOnce (Nat.le_refl _)
  have hnone : document.fillThrough job [] = document := rfl
  rw [hnone] at hexpand
  rw [hrounds, hexpand]
  exact (Draft.selectVisible_expanded job _ h).1

/-- A letter shows the places of its draft, each filled in by itself. -/
theorem document_render :
    (r.render document values data).document =
      ((r.job values data).draft document).letter (r.job values data) := by
  rw [Job.draft, ← Draft.fill_expanded_visible, ← Job.draft,
    ← selectVisible_expand document _ Memo.faithful_empty]
  rfl

/-- What is missing in a letter is missing at the places of its draft. -/
theorem missingRequired_render :
    (r.render document values data).report.missingRequired =
      (((r.job values data).draft document).places.flatMap fun place =>
        (FieldSource.ofValues values).missing (place.expanded (r.job values data))).eraseDups := by
  have hmissing := Draft.missing_expanded_visible (r.job values data)
    (document.draft (r.job values data) [] {}).1
  rw [← Job.draft, ← selectVisible_expand document _ Memo.faithful_empty] at hmissing
  exact congrArg List.eraseDups hmissing

end Renderer

end FormLetter
