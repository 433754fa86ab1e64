import FormLetter.Renderer

/-!
# Sessions

A session holds a document, field values, data, a renderer, and the conditions read so far, and
answers requests one after the other. Only the memo carries anything over from one letter to the
next, and only requests that set a part of the session change that part.

* `Session.run_append`: a session goes on where it was left.
-/

namespace FormLetter

/-- The state of a session. -/
structure Session where
  values : Entries String := .empty
  data : Datum := .null
  document : Forest := .nil
  renderer : Renderer := .default
  memo : Memo := .empty

/-- What a session can be asked. -/
inductive Request where
  /-- Takes all field values from elsewhere. -/
  | setValues (values : Entries String)
  /-- Gives a field a value. -/
  | insertValue (path value : String)
  /-- Asks for the value of a field. -/
  | getValue (path : String)
  /-- Takes the data from elsewhere. -/
  | setData (data : Datum)
  /-- Enters a datum into the data, as into a record. -/
  | insertData (name : String) (value : Datum)
  /-- Asks for what the data has under a name. -/
  | getData (name : String)
  /-- Takes the document from elsewhere. -/
  | setDocument (document : Forest)
  /-- Puts a node behind the document's others. -/
  | pushNode (node : Node)
  /-- Asks for the text of the document. -/
  | textContent
  /-- Takes a new renderer with the given settings. -/
  | configure (settings : Settings)
  /-- Asks whether a condition holds of the data, and remembers its reading. -/
  | recall (condition : String)
  /-- Forgets all conditions read so far. -/
  | forget
  /-- Writes a letter, which may become the document. -/
  | render (store : Bool)
  /-- Writes a letter strictly, without the memo. -/
  | renderStrict
  /-- Asks whether the document has problems. -/
  | validate
  /-- Asks for the problems of the document. -/
  | problems
  /-- Asks for a text with the field values filled in. -/
  | fill (text : String)
  /-- Asks whether a condition holds of the data. -/
  | evaluate (condition : String)

/-- What a session answers. -/
inductive Reply where
  /-- How many fields have a value. -/
  | fieldCount (count : Nat)
  /-- The value of a field, which may be empty. -/
  | value (found : Option String)
  /-- Whether there are no data. -/
  | isNull (null : Bool)
  /-- The data. -/
  | data (data : Datum)
  /-- A datum of the data. -/
  | datum (found : Option Datum)
  /-- How many nodes the document has outside of elements. -/
  | rootCount (count : Nat)
  /-- A text. -/
  | text (content : String)
  /-- The settings of the renderer. -/
  | settings (settings : Settings)
  /-- Whether a condition holds, and how many conditions have been read. -/
  | recalled (result : Except Fault Bool) (conditions : Nat)
  /-- How many conditions have been read. -/
  | conditionCount (count : Nat)
  /-- A letter, and how many conditions have been read. -/
  | rendering (rendering : Rendering) (conditions : Nat)
  /-- A letter written strictly. -/
  | strictRendering (result : Except Problem Rendering)
  /-- Whether the document has problems. -/
  | validity (result : Except Problem Unit)
  /-- The problems of the document. -/
  | problems (problems : List Problem)
  /-- Whether a condition holds, if it can be read. -/
  | verdict (result : Option Bool)

namespace Session

/-- Answers one request. -/
def answer (s : Session) : Request → Reply × Session
  | .setValues values => (.fieldCount values.size, { s with values })
  | .insertValue path value =>
    let values := s.values.insert path value
    (.fieldCount values.size, { s with values })
  | .getValue path => (.value (s.values.get? path), s)
  | .setData data => (.isNull data.isNull, { s with data })
  | .insertData name value =>
    let data := s.data.insert name value
    (.data data, { s with data })
  | .getData name => (.datum (s.data.get? name), s)
  | .setDocument document => (.rootCount document.nodes.length, { s with document })
  | .pushNode node =>
    let document := s.document ++ Forest.cons node .nil
    (.rootCount document.nodes.length, { s with document })
  | .textContent => (.text s.document.textContent, s)
  | .configure settings => (.settings settings, { s with renderer := ⟨settings⟩ })
  | .recall condition =>
    let (reading, memo) := s.memo.read condition
    (.recalled (reading.map fun e => e.holds s.data) memo.size, { s with memo })
  | .forget => (.conditionCount Memo.empty.size, { s with memo := .empty })
  | .render store =>
    let (rendering, memo) := s.renderer.renderWith s.memo s.document s.values s.data
    let document := if store then rendering.document else s.document
    (.rendering rendering memo.size, { s with memo, document })
  | .renderStrict => (.strictRendering (s.renderer.renderStrict s.document s.values s.data), s)
  | .validate => (.validity (s.renderer.validate s.document), s)
  | .problems => (.problems (s.renderer.problems s.document), s)
  | .fill text => (.text ((FieldSource.ofValues s.values).fill false text), s)
  | .evaluate condition => (.verdict (evaluate? condition s.data), s)

/-- Answers requests one after the other. -/
def run (s : Session) : List Request → List Reply × Session
  | [] => ([], s)
  | request :: rest =>
    let (reply, s) := s.answer request
    let (replies, s) := s.run rest
    (reply :: replies, s)

theorem run_append (s : Session) (first second : List Request) :
    s.run (first ++ second) =
      ((s.run first).1 ++ ((s.run first).2.run second).1, ((s.run first).2.run second).2) := by
  induction first generalizing s with
  | nil => rfl
  | cons request rest ih =>
    simp [run, ih]

end Session

end FormLetter
