import FormLetter.Data.Entries

/-!
# Documents

A document is a forest: a run of siblings, each of them a text or an element with a forest of its
own. A forest is built from its first sibling and the later ones, so that a pass over a document
is one recursion.

* `Forest.append_assoc`, `Forest.append_nil`: forests are joined as lists are.
* `Forest.ofNodes_nodes`: a forest is the list of its nodes.
* `Forest.textInto_eq`: the text of a document can be collected from left to right.
-/

namespace FormLetter

/-- What an element carries beside its children: a name and attributes. -/
structure Tag where
  name : String
  attributes : Entries String
  deriving DecidableEq

/-- The tag without one of its attributes. -/
def Tag.without (tag : Tag) (name : String) : Tag :=
  { tag with attributes := tag.attributes.erase name }

/-- A run of siblings. -/
inductive Forest where
  | nil
  | text (content : String) (next : Forest)
  | element (tag : Tag) (children next : Forest)
  deriving DecidableEq

instance : Inhabited Forest := ⟨.nil⟩

/-- An element. -/
structure Element where
  tag : Tag
  children : Forest
  deriving DecidableEq

/-- A text or an element. -/
inductive Node where
  | text (content : String)
  | element (e : Element)
  deriving DecidableEq, Inhabited

/-! ## Forests as lists of nodes -/

namespace Forest

/-- A node in front of its later siblings. -/
def cons : Node → Forest → Forest
  | .text content, next => .text content next
  | .element e, next => .element e.tag e.children next

/-- The siblings of two forests in a row. -/
def append : Forest → Forest → Forest
  | .nil, g => g
  | .text content next, g => .text content (next.append g)
  | .element tag children next, g => .element tag children (next.append g)

instance : Append Forest := ⟨append⟩

/-- The forest of a list of nodes. -/
def ofNodes (nodes : List Node) : Forest := nodes.foldr cons .nil

/-- The nodes of a forest. -/
def nodes : Forest → List Node
  | .nil => []
  | .text content next => .text content :: next.nodes
  | .element tag children next => .element ⟨tag, children⟩ :: next.nodes

/-- The siblings of many forests in a row. -/
def join (forests : List Forest) : Forest := forests.foldr append .nil

/-- The text of a forest behind a text that comes before it. -/
def textInto (before : String) : Forest → String
  | .nil => before
  | .text content next => next.textInto (before ++ content)
  | .element _ children next => next.textInto (children.textInto before)

/-- All texts of a forest in a row. -/
def textContent (f : Forest) : String := f.textInto ""

/-- The number of nodes of a forest, those within elements included. -/
def size : Forest → Nat
  | .nil => 0
  | .text _ next => next.size + 1
  | .element _ children next => children.size + next.size + 1

@[simp] theorem nil_append (g : Forest) : nil ++ g = g := rfl

@[simp] theorem text_append (s : String) (f g : Forest) : text s f ++ g = text s (f ++ g) := rfl

@[simp] theorem element_append (tag : Tag) (cs f g : Forest) :
    element tag cs f ++ g = element tag cs (f ++ g) := rfl

@[simp] theorem append_nil (f : Forest) : f ++ nil = f := by
  induction f with
  | nil => rfl
  | text s next ih => rw [text_append, ih]
  | element tag cs next _ ih => rw [element_append, ih]

theorem append_assoc (f g h : Forest) : f ++ g ++ h = f ++ (g ++ h) := by
  induction f with
  | nil => rfl
  | text s next ih => rw [text_append, text_append, text_append, ih]
  | element tag cs next _ ih => rw [element_append, element_append, element_append, ih]

@[simp] theorem nodes_append (f g : Forest) : (f ++ g).nodes = f.nodes ++ g.nodes := by
  induction f with
  | nil => rfl
  | text s next ih => simp [nodes, ih]
  | element tag cs next _ ih => simp [nodes, ih]

/-- A forest is the list of its nodes. -/
@[simp] theorem ofNodes_nodes (f : Forest) : ofNodes f.nodes = f := by
  induction f with
  | nil => rfl
  | text s next ih => exact congrArg (text s) ih
  | element tag cs next _ ih => exact congrArg (element tag cs) ih

theorem textInto_eq (before : String) (f : Forest) :
    f.textInto before = before ++ f.textContent := by
  have key : ∀ (f : Forest) (s t : String), f.textInto (s ++ t) = s ++ f.textInto t := by
    intro f
    induction f with
    | nil => intro s t; rfl
    | text c next ih => intro s t; rw [textInto, textInto, String.append_assoc, ih]
    | element tag cs next ihc ihn => intro s t; rw [textInto, textInto, ihc, ihn]
  have := key f before ""
  rwa [String.append_empty] at this

@[simp] theorem textContent_nil : nil.textContent = "" := rfl

@[simp] theorem textContent_text (s : String) (next : Forest) :
    (text s next).textContent = s ++ next.textContent := by
  rw [textContent, textInto, textInto_eq, String.empty_append]

@[simp] theorem textContent_element (tag : Tag) (cs next : Forest) :
    (element tag cs next).textContent = cs.textContent ++ next.textContent := by
  rw [textContent, textInto, textInto_eq]
  rfl

@[simp] theorem size_append (f g : Forest) : (f ++ g).size = f.size + g.size := by
  induction f with
  | nil => simp [size]
  | text s next ih =>
    rw [text_append, size, size, ih]
    omega
  | element tag cs next _ ih =>
    rw [element_append, size, size, ih]
    omega

end Forest

/-! ## Building elements -/

namespace Element

/-- An element without attributes and children. -/
def ofName (name : String) : Element := ⟨⟨name, .empty⟩, .nil⟩

/-- The element with a value for an attribute, instead of one that it had before. -/
def withAttribute (e : Element) (name value : String) : Element :=
  { e with tag := { e.tag with attributes := e.tag.attributes.insert name value } }

/-- The element with one more child behind the others. -/
def withChild (e : Element) (node : Node) : Element :=
  { e with children := e.children ++ Forest.cons node .nil }

/-- The value of an attribute. -/
def attribute? (e : Element) (name : String) : Option String := e.tag.attributes.get? name

end Element

/-- All texts of a node in a row. -/
def Node.textContent : Node → String
  | .text content => content
  | .element e => e.children.textContent

end FormLetter
