import FormLetter.Document.Filling

/-!
# Where nodes stand

A node of a document stands within some elements. The nodes of a document, each with the tags of
the elements around it, say all that there is to say about the document, and they can be compared
one by one with the nodes of another document.

* `Forest.occurrences` lists them in document order.
* `Forest.prefix_around_of_mem`: what stands around a run of siblings stands around each node in
  it.
* `Forest.occurrencesWithin_dropWhere`: dropping elements drops them with all that stands within
  them, and leaves every other node at its place.
-/

namespace FormLetter

/-- A node without what is in it. -/
inductive Label where
  | text (content : String)
  | element (tag : Tag)
  deriving DecidableEq

/-- A node of a document, and the tags of the elements around it, the outermost one first. -/
structure Occurrence where
  around : List Tag
  label : Label
  deriving DecidableEq

namespace Occurrence

/-- Whether the node is an element with a tag of some kind. -/
def isElement (kind : Tag → Bool) (o : Occurrence) : Bool :=
  match o.label with
  | .text _ => false
  | .element tag => kind tag

/-- Whether none of the elements around the node has a tag of some kind. -/
def isReached (kind : Tag → Bool) (o : Occurrence) : Bool := o.around.all fun tag => !kind tag

/-- Whether neither the node nor any of the elements around it has a tag of some kind. -/
def remains (kind : Tag → Bool) (o : Occurrence) : Bool :=
  o.isReached kind && !o.isElement kind

end Occurrence

namespace Forest

/-- The nodes of a run of siblings in document order, given the tags around them. -/
def occurrencesWithin (around : List Tag) : Forest → List Occurrence
  | .nil => []
  | .text content next => ⟨around, .text content⟩ :: next.occurrencesWithin around
  | .element tag children next =>
    ⟨around, .element tag⟩ ::
      (children.occurrencesWithin (around ++ [tag]) ++ next.occurrencesWithin around)

/-- The nodes of a document, in document order. -/
def occurrences (f : Forest) : List Occurrence := f.occurrencesWithin []

/-- Leaves out the elements with a tag of some kind, and all that is in them. -/
def dropWhere (kind : Tag → Bool) : Forest → Forest
  | .nil => .nil
  | .text content next => .text content (next.dropWhere kind)
  | .element tag children next =>
    if kind tag then next.dropWhere kind
    else .element tag (children.dropWhere kind) (next.dropWhere kind)

/-- Changes every tag and nothing else. -/
def mapTags (change : Tag → Tag) : Forest → Forest
  | .nil => .nil
  | .text content next => .text content (next.mapTags change)
  | .element tag children next =>
    .element (change tag) (children.mapTags change) (next.mapTags change)

theorem occurrencesWithin_append (around : List Tag) (f g : Forest) :
    (f ++ g).occurrencesWithin around =
      f.occurrencesWithin around ++ g.occurrencesWithin around := by
  induction f with
  | nil => rfl
  | text content next ih => exact congrArg (_ :: ·) ih
  | element tag children next _ ih =>
    rw [element_append, occurrencesWithin, occurrencesWithin, ih, List.cons_append,
      List.append_assoc]

/-- What stands around a run of siblings stands around each node in it. -/
theorem prefix_around_of_mem {f : Forest} {around : List Tag} {o : Occurrence}
    (h : o ∈ f.occurrencesWithin around) : around <+: o.around := by
  induction f generalizing around with
  | nil => cases h
  | text content next ih =>
    rcases List.mem_cons.1 h with rfl | h
    · exact List.prefix_rfl
    · exact ih h
  | element tag children next ihc ihn =>
    rcases List.mem_cons.1 h with rfl | h
    · exact List.prefix_rfl
    · rcases List.mem_append.1 h with h | h
      · exact (List.prefix_append around [tag]).trans (ihc h)
      · exact ihn h

section

variable {kind : Tag → Bool} {around : List Tag}

theorem not_isReached_of_mem {tag : Tag} (htag : kind tag = true) {f : Forest} {o : Occurrence}
    (h : o ∈ f.occurrencesWithin (around ++ [tag])) : o.isReached kind = false := by
  have hmem : tag ∈ o.around := (prefix_around_of_mem h).subset (by simp)
  rw [Occurrence.isReached, List.all_eq_false]
  exact ⟨tag, hmem, by simp [htag]⟩

/-- Nothing within an element of the kind is reached. -/
theorem filter_isReached_eq_nil {tag : Tag} (htag : kind tag = true) (f : Forest) :
    (f.occurrencesWithin (around ++ [tag])).filter (Occurrence.isReached kind) = [] := by
  rw [List.filter_eq_nil_iff]
  intro o ho
  rw [not_isReached_of_mem htag ho]
  exact Bool.false_ne_true

theorem all_not_concat (haround : around.all (fun tag => !kind tag) = true) {tag : Tag}
    (htag : kind tag = false) : (around ++ [tag]).all (fun tag => !kind tag) = true := by
  rw [List.all_append, haround]
  simp [htag]

/-- Every node stays at its place, unless it is an element of the kind or stands within one. -/
theorem occurrencesWithin_dropWhere (haround : around.all (fun tag => !kind tag) = true)
    (f : Forest) : (f.dropWhere kind).occurrencesWithin around =
      (f.occurrencesWithin around).filter (Occurrence.remains kind) := by
  induction f generalizing around with
  | nil => rfl
  | text content next ih =>
    have hremains : Occurrence.remains kind ⟨around, .text content⟩ = true := by
      rw [Occurrence.remains, Occurrence.isReached, haround]
      rfl
    rw [dropWhere, occurrencesWithin, occurrencesWithin, List.filter_cons_of_pos hremains,
      ih haround]
  | element tag children next ihc ihn =>
    have hremains : Occurrence.remains kind ⟨around, .element tag⟩ = !kind tag := by
      rw [Occurrence.remains, Occurrence.isReached, haround]
      rfl
    rw [dropWhere, occurrencesWithin]
    cases htag : kind tag with
    | true =>
      have hwithin :
          (children.occurrencesWithin (around ++ [tag])).filter (Occurrence.remains kind) = [] := by
        rw [List.filter_eq_nil_iff]
        intro o ho
        rw [Occurrence.remains, not_isReached_of_mem htag ho]
        exact Bool.false_ne_true
      rw [if_pos rfl, List.filter_cons_of_neg (by rw [hremains, htag]; decide),
        List.filter_append, hwithin, ihn haround, List.nil_append]
    | false =>
      rw [if_neg Bool.false_ne_true, occurrencesWithin,
        List.filter_cons_of_pos (by rw [hremains, htag]; rfl), List.filter_append,
        ihc (all_not_concat haround htag), ihn haround]

end

end Forest

end FormLetter
