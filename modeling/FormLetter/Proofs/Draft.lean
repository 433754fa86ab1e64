import FormLetter.Proofs.OnePass

/-!
# Drafts

Rendering fills a text in more than once: each repeat around it fills in its copy, and a last pass
fills in the whole letter. A draft keeps the repeats apart from these passes. It is unrolled, but
its texts are still those of the template, each with the items that the repeats around it have
bound.

* `Forest.fillThrough_concat`: filling in for several items is filling in for one after the other.
* `Forest.draft` unrolls a template.
* `Forest.expandOnce_fillThrough`: expansion gives the draft, with the items filled in.
-/

namespace FormLetter

/-! ## Places -/

/-- A text of a template, and what the repeats around it have bound, the outermost one first. -/
structure Place where
  bindings : List Binding
  content : String

namespace Place

/-- The text once the repeats around it have filled in their copies. -/
def expanded (job : Job) (place : Place) : String :=
  place.bindings.foldl (fun s b => (job.sourceOf b).fill false s) place.content

/-- The text as the letter shows it. -/
def shown (job : Job) (place : Place) : String :=
  (FieldSource.ofValues job.values).fill false (place.expanded job)

end Place

/-! ## Filling in for several items -/

namespace Job

/-- Fills in an attribute for each of the bound items, the outermost one first. -/
def fillAttribute (job : Job) (around : List Binding) (name text : String) : String :=
  around.foldl (fun s b => (job.sourceOf b).fillAttribute name s) text

end Job

/-- Fills in all attributes for each of the bound items. -/
def Tag.fillThrough (job : Job) (around : List Binding) (tag : Tag) : Tag :=
  { tag with attributes := tag.attributes.mapValues (job.fillAttribute around) }

/-- Fills in all texts and attributes for each of the bound items. -/
def Forest.fillThrough (job : Job) (around : List Binding) (f : Forest) : Forest :=
  around.foldl (fun f b => f.fill (job.sourceOf b)) f

theorem Tag.fillThrough_cons (job : Job) (b : Binding) (around : List Binding) (tag : Tag) :
    tag.fillThrough job (b :: around) = (tag.fill (job.sourceOf b)).fillThrough job around := by
  unfold Tag.fillThrough Tag.fill
  congr 1
  apply Entries.ext
  show _ = List.map _ (List.map _ _)
  rw [List.map_map]
  rfl

theorem Tag.fillThrough_nil (job : Job) (tag : Tag) : tag.fillThrough job [] = tag := by
  unfold Tag.fillThrough
  congr 1
  apply Entries.ext
  exact List.map_id _

theorem Tag.without_fillThrough (job : Job) (around : List Binding) (tag : Tag) (name : String) :
    (tag.fillThrough job around).without name = (tag.without name).fillThrough job around := by
  unfold Tag.without Tag.fillThrough
  congr 1
  apply Entries.ext
  show List.filter _ (List.map _ _) = List.map _ (List.filter _ _)
  rw [List.filter_map]
  rfl

theorem Tag.get?_fillThrough (job : Job) (around : List Binding) (tag : Tag) (name : String) :
    (tag.fillThrough job around).attributes.get? name =
      (tag.attributes.get? name).map (job.fillAttribute around name) :=
  Entries.get?_mapValues _ _ _

namespace Forest

variable {job : Job}

theorem fillThrough_nil (around : List Binding) : nil.fillThrough job around = nil := by
  induction around with
  | nil => rfl
  | cons b around ih => exact ih

theorem fillThrough_text (around : List Binding) (content : String) (next : Forest) :
    (text content next).fillThrough job around =
      text (Place.expanded job ⟨around, content⟩) (next.fillThrough job around) := by
  induction around generalizing content next with
  | nil => rfl
  | cons b around ih => exact ih _ _

theorem fillThrough_element (around : List Binding) (tag : Tag) (children next : Forest) :
    (element tag children next).fillThrough job around =
      element (tag.fillThrough job around) (children.fillThrough job around)
        (next.fillThrough job around) := by
  induction around generalizing tag children next with
  | nil =>
    rw [Tag.fillThrough_nil]
    rfl
  | cons b around ih =>
    rw [Tag.fillThrough_cons]
    exact ih _ _ _

theorem fillThrough_concat (around : List Binding) (b : Binding) (f : Forest) :
    f.fillThrough job (around ++ [b]) = (f.fillThrough job around).fill (job.sourceOf b) := by
  rw [fillThrough, List.foldl_append]
  rfl

end Forest

theorem Tag.fillThrough_concat (job : Job) (around : List Binding) (b : Binding) (tag : Tag) :
    tag.fillThrough job (around ++ [b]) = (tag.fillThrough job around).fill (job.sourceOf b) := by
  induction around generalizing tag with
  | nil =>
    rw [List.nil_append, Tag.fillThrough_cons, Tag.fillThrough_nil, Tag.fillThrough_nil]
  | cons c around ih =>
    rw [List.cons_append, Tag.fillThrough_cons, ih, Tag.fillThrough_cons]

/-! ## Drafts -/

/-- A letter in which nothing has been filled in yet. -/
inductive Draft where
  | nil
  | text (place : Place) (next : Draft)
  | element (bindings : List Binding) (tag : Tag) (children next : Draft)

namespace Draft

/-- The siblings of two drafts in a row. -/
def append : Draft → Draft → Draft
  | .nil, d => d
  | .text place next, d => .text place (next.append d)
  | .element bindings tag children next, d => .element bindings tag children (next.append d)

/-- The siblings of many drafts in a row. -/
def join (drafts : List Draft) : Draft := drafts.foldr append .nil

/-- The document once the repeats have filled in their copies. -/
def expanded (job : Job) : Draft → Forest
  | .nil => .nil
  | .text place next => .text (place.expanded job) (next.expanded job)
  | .element bindings tag children next =>
    .element (tag.fillThrough job bindings) (children.expanded job) (next.expanded job)

theorem expanded_append (job : Job) (d e : Draft) :
    (d.append e).expanded job = d.expanded job ++ e.expanded job := by
  induction d with
  | nil => rfl
  | text place next ih =>
    rw [append, expanded, ih]
    rfl
  | element bindings tag children next _ ih =>
    rw [append, expanded, ih]
    rfl

theorem expanded_join (job : Job) (drafts : List Draft) :
    (join drafts).expanded job = Forest.join (drafts.map (expanded job)) := by
  induction drafts with
  | nil => rfl
  | cons d drafts ih =>
    show (d.append (join drafts)).expanded job = _
    rw [expanded_append, ih]
    rfl

end Draft

namespace Forest

/-- Unrolls the repeats of a template with the given items bound around it. What copies are made
depends on the directive as it reads once these items are filled in. -/
def draft (job : Job) : Forest → List Binding → ExpansionTally → Draft × ExpansionTally
  | .nil, _, tally => (.nil, tally)
  | .text content next, around, tally =>
    let (next, tally) := next.draft job around tally
    (.text ⟨around, content⟩ next, tally)
  | .element tag children next, around, tally =>
    match tag.attributes.get? job.settings.repeatAttribute with
    | none =>
      let (children, tally) := children.draft job around tally
      let (next, tally) := next.draft job around tally
      (.element around tag children next, tally)
    | some written =>
      let bare := tag.without job.settings.repeatAttribute
      let directive := job.fillAttribute around job.settings.repeatAttribute written
      let template := (element bare children nil).fillThrough job around
      let (bound, tally) := job.bindings directive template tally
      let (copies, tally) := inTurn (fun b tally =>
        let (inside, tally) := children.draft job (around ++ [b]) tally
        (.element (around ++ [b]) bare inside .nil, tally)) bound tally
      let (next, tally) := next.draft job around tally
      ((Draft.join copies).append next, tally)

/-- The copy of an element for a bound item in a draft. -/
def draftCopy (job : Job) (tag : Tag) (children : Forest) (around : List Binding) (b : Binding)
    (tally : ExpansionTally) : Draft × ExpansionTally :=
  let (inside, tally) := children.draft job (around ++ [b]) tally
  (.element (around ++ [b]) tag inside .nil, tally)

/-- Expansion gives the expanded draft, and the same tally. -/
theorem expandOnce_fillThrough (job : Job) (f : Forest) (around : List Binding)
    (tally : ExpansionTally) :
    (f.fillThrough job around).expandOnce job tally =
      ((f.draft job around tally).1.expanded job, (f.draft job around tally).2) := by
  induction f generalizing around tally with
  | nil =>
    rw [fillThrough_nil, expandOnce_nil]
    rfl
  | text content next ih =>
    rw [fillThrough_text, expandOnce_text, ih]
    rfl
  | element tag children next ihc ihn =>
    rw [fillThrough_element]
    have hget := tag.get?_fillThrough job around job.settings.repeatAttribute
    cases hwritten : tag.attributes.get? job.settings.repeatAttribute with
    | none =>
      rw [hwritten] at hget
      rw [expandOnce_plain _ _ hget, ihc, draft, hwritten]
      dsimp only
      rw [ihn]
      rfl
    | some written =>
      rw [hwritten] at hget
      have hcopy : ∀ b tally,
          copyOnce job ((tag.without job.settings.repeatAttribute).fillThrough job around)
              (children.fillThrough job around) b tally =
            ((draftCopy job (tag.without job.settings.repeatAttribute) children around b
                tally).1.expanded job,
              (draftCopy job (tag.without job.settings.repeatAttribute) children around b
                tally).2) := by
        intro b tally
        rw [copyOnce, ← fillThrough_concat, ihc, ← Tag.fillThrough_concat]
        rfl
      have htemplate : (element (tag.without job.settings.repeatAttribute) children nil).fillThrough
          job around =
            element ((tag.without job.settings.repeatAttribute).fillThrough job around)
              (children.fillThrough job around) nil := by
        rw [fillThrough_element, fillThrough_nil]
      rw [expandOnce_repeat _ _ hget, Tag.without_fillThrough, draft, hwritten]
      dsimp only
      rw [htemplate, inTurn_map (Draft.expanded job) hcopy, ihn, Draft.expanded_append,
        Draft.expanded_join]
      rfl

end Forest

end FormLetter
