import FormLetter.Data.Datum
import FormLetter.Exchange.Json

/-!
# Data as JSON

Every JSON value is a datum. Its integers become numbers, and objects become records.
-/

namespace FormLetter

namespace Datum

mutual

/-- A datum as JSON. -/
def toJson : Datum → Json
  | .null => .null
  | .bool value => .bool value
  | .number value => .float value
  | .text value => .string value
  | .list items => .array (itemsToJson items)
  | .record entries => .object (entriesToJson entries)

/-- Each item of a list as JSON. -/
def itemsToJson : List Datum → List Json
  | [] => []
  | x :: xs => toJson x :: itemsToJson xs

/-- Each entry of a record as a member of an object. -/
def entriesToJson : List (String × Datum) → List (String × Json)
  | [] => []
  | (name, x) :: xs => (name, toJson x) :: entriesToJson xs

end

mutual

/-- The datum of a JSON value. -/
def ofJson : Json → Datum
  | .null => .null
  | .bool value => .bool value
  | .integer n => .number (Number.ofInt n)
  | .float value => .number value
  | .string value => .text value
  | .array items => .list (itemsOfJson items)
  | .object members => .ofEntries (entriesOfJson members)

/-- The datum of each item of an array. -/
def itemsOfJson : List Json → List Datum
  | [] => []
  | j :: js => ofJson j :: itemsOfJson js

/-- The datum of each member of an object. -/
def entriesOfJson : List (String × Json) → List (String × Datum)
  | [] => []
  | (name, j) :: js => (name, ofJson j) :: entriesOfJson js

end

instance : Exchange Datum where
  toJson := toJson
  ofJson? j := some (ofJson j)

end Datum

end FormLetter
