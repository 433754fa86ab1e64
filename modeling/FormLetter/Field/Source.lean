import FormLetter.Data.Path
import FormLetter.Field.Placeholder
import FormLetter.Text.Backslash
import FormLetter.Text.Leading

/-!
# Where field values come from

The value of a field is looked up by its path: in the item that a repeat has bound to its
variable if the path begins with that variable, else among the field values. An empty value is
none.

* `FieldSource.fill` puts the values of fields into a text. A placeholder without a value is left
  as it is written.
* `FieldSource.get?_of_pathWithin?`, `FieldSource.get?_of_forall_ne`: where a path is looked up.
* `FieldSource.fill_of_hasPlaceholder_eq_false`: a text without placeholders does not change.
-/

namespace FormLetter

/-! ## Bound items -/

/-- A variable that a repeat has bound to one item of its list. -/
structure Binding where
  name : String
  item : Datum

namespace Binding

/-- What a path names within the bound item, if it begins with the variable and a point. -/
def pathWithin? (b : Binding) (path : String) : Option String :=
  (after? (b.name ++ ".").toList path.toList).map String.ofList

/-- The text that a path has within the bound item, if there is any. -/
def get? (b : Binding) (pathWithin : String) : Option String :=
  ((b.item.at? pathWithin).bind Datum.shown?).filter fun value => !value.isEmpty

theorem pathWithin?_eq_some_iff {b : Binding} {path rest : String} :
    b.pathWithin? path = some rest ↔ path = b.name ++ "." ++ rest := by
  rw [pathWithin?, Option.map_eq_some_iff]
  constructor
  · rintro ⟨cs, hcs, rfl⟩
    rw [after?_eq_some_iff] at hcs
    rw [← String.toList_inj, hcs, String.toList_append (s := b.name ++ "."), String.toList_ofList]
  · rintro rfl
    exact ⟨rest.toList, after?_eq_some_iff.2 String.toList_append, String.ofList_toList⟩

end Binding

/-- An empty value is none. -/
theorem filter_isEmpty_eq_some_iff {found : Option String} {value : String} :
    (found.filter fun value => !value.isEmpty) = some value ↔ value ≠ "" ∧ found = some value := by
  rw [Option.filter_eq_some_iff, Bool.not_eq_true', Bool.eq_false_iff, ne_eq, String.isEmpty_iff,
    and_comm]

theorem Binding.get?_eq_some_iff {b : Binding} {path value : String} :
    b.get? path = some value ↔ value ≠ "" ∧ (b.item.at? path).bind Datum.shown? = some value :=
  filter_isEmpty_eq_some_iff

/-! ## Looking up and filling in -/

/-- Where the values of fields come from, and which attribute takes them in escaped form because
its text is a condition. -/
structure FieldSource where
  values : Entries String
  binding : Option Binding
  conditionAttribute : Option String

namespace FieldSource

/-- Field values alone. -/
def ofValues (values : Entries String) : FieldSource := ⟨values, none, none⟩

/-- The value of a field, if there is one that is not empty. A path that begins with a bound
variable is never looked up among the field values. -/
def get? (source : FieldSource) (path : String) : Option String :=
  match source.binding.bind fun b => (b.pathWithin? path).map fun rest => b.get? rest with
  | some found => found
  | none => (source.values.get? path).filter fun value => !value.isEmpty

/-- A path that begins with the bound variable is looked up in the item. -/
theorem get?_of_pathWithin? {source : FieldSource} {b : Binding} {path rest : String}
    (hbinding : source.binding = some b) (h : b.pathWithin? path = some rest) :
    source.get? path = b.get? rest := by
  rw [get?, hbinding, Option.bind_some, h]
  rfl

/-- All others are looked up among the field values. -/
theorem get?_of_forall_ne {source : FieldSource} {path : String}
    (h : ∀ b rest, source.binding = some b → path ≠ b.name ++ "." ++ rest) :
    source.get? path = (source.values.get? path).filter fun value => !value.isEmpty := by
  have hnone : (source.binding.bind fun b => (b.pathWithin? path).map fun rest => b.get? rest) =
      none := by
    refine Option.bind_eq_none_iff.2 fun b hb => Option.map_eq_none_iff.2 ?_
    exact Option.eq_none_iff_forall_ne_some.2 fun rest hrest =>
      h b rest hb (Binding.pathWithin?_eq_some_iff.1 hrest)
  rw [get?, hnone]

/-- What stands for a piece of a text once the values are filled in. -/
def fillPiece (source : FieldSource) (escaped : Bool) : Piece → List Char
  | .plain c => [c]
  | .field written p =>
    match source.get? p.path with
    | some value => if escaped then escape value.toList else value.toList
    | none => written

/-- Fills the values of fields into a text, escaped or as they are. -/
def fill (source : FieldSource) (escaped : Bool) (s : String) : String :=
  String.ofList ((pieces s.toList).flatMap (source.fillPiece escaped))

/-- The number of placeholders of a text that have a value. -/
def countFilled (source : FieldSource) (s : String) : Nat :=
  (placeholders s).countP fun p => (source.get? p.path).isSome

/-- The paths of the required placeholders of a text that have no value, from left to right. -/
def missing (source : FieldSource) (s : String) : List String :=
  ((placeholders s).filter fun p => p.required && (source.get? p.path).isNone).map
    Placeholder.path

/-- Fills the values of fields into the text of an attribute. -/
def fillAttribute (source : FieldSource) (name text : String) : String :=
  source.fill (source.conditionAttribute == some name) text

theorem flatMap_fillPiece_of_plain (source : FieldSource) (escaped : Bool) {ps : List Piece}
    (h : ps.filterMap Piece.placeholder? = []) :
    ps.flatMap (source.fillPiece escaped) = ps.flatMap Piece.source := by
  induction ps with
  | nil => rfl
  | cons p ps ih =>
    cases p with
    | plain c =>
      rw [List.filterMap_cons_none rfl] at h
      rw [List.flatMap_cons, List.flatMap_cons, ih h]
      rfl
    | field written q =>
      simp [Piece.placeholder?] at h

/-- A text without placeholders does not change. -/
theorem fill_of_hasPlaceholder_eq_false (source : FieldSource) (escaped : Bool) {s : String}
    (h : hasPlaceholder s = false) : source.fill escaped s = s := by
  have hp : (pieces s.toList).filterMap Piece.placeholder? = [] := by
    simpa [hasPlaceholder, placeholders] using h
  rw [fill, flatMap_fillPiece_of_plain source escaped hp, source_pieces, String.ofList_toList]

end FieldSource

end FormLetter
