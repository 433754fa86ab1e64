import FormLetter.Document.Forest
import FormLetter.Exchange.Json

/-!
# Documents as JSON

A document is an array of its nodes, a text is a string, and an element is a record of its name,
its attributes and its children, of which the last two may be left out.
-/

namespace FormLetter

namespace Forest

/-- The record of an element. -/
def elementToJson (tag : Tag) (children : List Json) : Json :=
  .object
    [("tag", .string tag.name), ("attributes", Exchange.toJson tag.attributes),
      ("children", .array children)]

/-- The nodes of a forest as JSON. -/
def toJsons : Forest → List Json
  | .nil => []
  | .text content next => .string content :: next.toJsons
  | .element tag children next => elementToJson tag children.toJsons :: next.toJsons

/-- Reads the name and the attributes of an element. -/
def tagOfJson? (j : Json) : Option Tag :=
  if j.isRecord 3 then
    (j.required? "tag" 0).bind fun name =>
      (j.optional? "attributes" 1 .empty).map fun attributes => ⟨name, attributes⟩
  else none

/-- The children of an element as JSON. -/
def childrenOf? (j : Json) : Option (List Json) :=
  match j.field? "children" 2 with
  | some (.array items) => some items
  | some _ => none
  | none => some []

theorem sizeOf_childrenOf?_le {j : Json} {items : List Json} (h : childrenOf? j = some items) :
    sizeOf items ≤ sizeOf j := by
  unfold childrenOf? at h
  split at h
  · rename_i hf
    have := Json.sizeOf_field?_lt hf
    cases h
    simp only [Json.array.sizeOf_spec] at this
    omega
  · cases h
  · cases h
    have : 1 ≤ sizeOf j := by cases j <;> simp only [Json.null.sizeOf_spec, Json.bool.sizeOf_spec,
      Json.integer.sizeOf_spec, Json.float.sizeOf_spec, Json.string.sizeOf_spec,
      Json.array.sizeOf_spec, Json.object.sizeOf_spec] <;> omega
    simpa using this

theorem sizeOf_rest_lt (j : Json) (rest : List Json) : sizeOf rest < sizeOf (j :: rest) := by
  simp only [List.cons.sizeOf_spec]
  omega

theorem sizeOf_children_lt {j : Json} {items : List Json} (h : childrenOf? j = some items)
    (rest : List Json) : sizeOf items < sizeOf (j :: rest) := by
  have := sizeOf_childrenOf?_le h
  simp only [List.cons.sizeOf_spec]
  omega

/-- Reads the nodes of a forest. -/
def ofJsons? : List Json → Option Forest
  | [] => some .nil
  | .string content :: rest => (ofJsons? rest).map (Forest.text content)
  | j :: rest =>
    match h : childrenOf? j with
    | none => none
    | some items =>
      have := sizeOf_children_lt h rest
      (tagOfJson? j).bind fun tag =>
        (ofJsons? items).bind fun children =>
          (ofJsons? rest).map fun next => .element tag children next
termination_by items => sizeOf items
decreasing_by
  · exact sizeOf_rest_lt _ _
  · assumption
  · exact sizeOf_rest_lt _ _

instance : Exchange Forest where
  toJson f := .array f.toJsons
  ofJson?
    | .array items => ofJsons? items
    | _ => none

end Forest

instance : Exchange Element where
  toJson e := Forest.elementToJson e.tag e.children.toJsons
  ofJson? j :=
    (Forest.tagOfJson? j).bind fun tag =>
      ((Forest.childrenOf? j).bind Forest.ofJsons?).map fun children => ⟨tag, children⟩

instance : Exchange Node where
  toJson
    | .text content => .string content
    | .element e => Exchange.toJson e
  ofJson?
    | .string content => some (.text content)
    | j => (Exchange.ofJson? j).map Node.element

end FormLetter
