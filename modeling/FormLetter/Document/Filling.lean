import FormLetter.Document.Forest
import FormLetter.Field.Source

/-!
# Filling documents in

Field values are filled into every text and every attribute of a document. What a pass has done
can be told from the document that it started from: how many placeholders had a value, and which
required ones had none, in document order. In that order the attributes of an element come before
its children, sorted by name.

* `Forest.fill_append`, `Forest.countFilled_append`, `Forest.missing_append`: siblings are filled
  in one after the other and do not depend on each other.
* `Tag.names_fill`, `Tag.get?_fill`: no attribute comes or goes, and each has its own text filled
  in.
* `Forest.induction_fill`: what holds of smaller documents may be used of filled in children.
-/

namespace FormLetter

/-- The sum of some counts. -/
def total : List Nat → Nat
  | [] => 0
  | n :: rest => n + total rest

theorem total_append (ms ns : List Nat) : total (ms ++ ns) = total ms + total ns := by
  induction ms with
  | nil => rw [List.nil_append, total, Nat.zero_add]
  | cons m ms ih => rw [List.cons_append, total, total, ih, Nat.add_assoc]

namespace Tag

/-- Fills field values into all attributes. -/
def fill (source : FieldSource) (tag : Tag) : Tag :=
  { tag with attributes := tag.attributes.mapValues source.fillAttribute }

/-- The number of placeholders in attributes that have a value. -/
def countFilled (source : FieldSource) (tag : Tag) : Nat :=
  total (tag.attributes.toList.map fun a => source.countFilled a.2)

/-- The paths of the required placeholders in attributes that have no value. -/
def missing (source : FieldSource) (tag : Tag) : List String :=
  tag.attributes.toList.flatMap fun a => source.missing a.2

theorem names_fill (source : FieldSource) (tag : Tag) :
    (tag.fill source).attributes.names = tag.attributes.names :=
  Entries.names_mapValues _ _

theorem get?_fill (source : FieldSource) (tag : Tag) (name : String) :
    (tag.fill source).attributes.get? name =
      (tag.attributes.get? name).map (source.fillAttribute name) :=
  Entries.get?_mapValues _ _ _

end Tag

namespace Forest

/-- Fills field values into all texts and attributes. -/
def fill (source : FieldSource) : Forest → Forest
  | .nil => .nil
  | .text content next => .text (source.fill false content) (next.fill source)
  | .element tag children next =>
    .element (tag.fill source) (children.fill source) (next.fill source)

/-- The number of placeholders that have a value. -/
def countFilled (source : FieldSource) : Forest → Nat
  | .nil => 0
  | .text content next => source.countFilled content + next.countFilled source
  | .element tag children next =>
    tag.countFilled source + children.countFilled source + next.countFilled source

/-- The paths of the required placeholders that have no value, in document order. -/
def missing (source : FieldSource) : Forest → List String
  | .nil => []
  | .text content next => source.missing content ++ next.missing source
  | .element tag children next =>
    tag.missing source ++ children.missing source ++ next.missing source

theorem fill_append (source : FieldSource) (f g : Forest) :
    (f ++ g).fill source = f.fill source ++ g.fill source := by
  induction f with
  | nil => rfl
  | text s next ih => simp [fill, ih]
  | element tag cs next _ ih => simp [fill, ih]

theorem countFilled_append (source : FieldSource) (f g : Forest) :
    (f ++ g).countFilled source = f.countFilled source + g.countFilled source := by
  induction f with
  | nil => simp [countFilled]
  | text s next ih =>
    rw [text_append, countFilled, countFilled, ih]
    omega
  | element tag cs next _ ih =>
    rw [element_append, countFilled, countFilled, ih]
    omega

theorem missing_append (source : FieldSource) (f g : Forest) :
    (f ++ g).missing source = f.missing source ++ g.missing source := by
  induction f with
  | nil => rfl
  | text s next ih => simp [missing, ih, List.append_assoc]
  | element tag cs next _ ih => simp [missing, ih, List.append_assoc]

@[simp] theorem size_fill (source : FieldSource) (f : Forest) : (f.fill source).size = f.size := by
  induction f with
  | nil => rfl
  | text s next ih => rw [fill, size, size, ih]
  | element tag cs next ihc ihn => rw [fill, size, size, ihc, ihn]

/-- Induction for what goes from an element on to its children with values filled in. -/
@[elab_as_elim]
theorem induction_fill {motive : Forest → Prop} (nil : motive nil)
    (text : ∀ content next, motive next → motive (text content next))
    (element : ∀ tag children next, motive children → (∀ source, motive (children.fill source)) →
      motive next → motive (element tag children next)) (f : Forest) : motive f := by
  induction hn : f.size using Nat.strongRecOn generalizing f with
  | _ n ih =>
    subst hn
    cases f with
    | nil => exact nil
    | text content next => exact text content next (ih _ (by rw [size]; omega) next rfl)
    | element tag children next =>
      have hsmaller : ∀ g : Forest, g.size < (Forest.element tag children next).size → motive g :=
        fun g hg => ih g.size hg g rfl
      rw [size] at hsmaller
      refine element tag children next (hsmaller _ ?_) (fun source => hsmaller _ ?_) (hsmaller _ ?_)
      · omega
      · rw [size_fill]
        omega
      · omega

end Forest

end FormLetter
