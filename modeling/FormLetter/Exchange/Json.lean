import FormLetter.Data.Entries
import FormLetter.Number.Basic

/-!
# JSON values

The values by which letters and what they are written from are handed over. Integers are told
apart from other numbers, since counts are integers only.

A record is handed over as an object of its fields, and is also read from an array of them in
their order. One of several variants is handed over as an object whose only member has the name
of the variant and holds its value, or the object of its fields; a variant without fields may be
its name alone.

* `Json.sizeOf_field?_lt`, `Json.sizeOf_member?_lt`, `Json.sizeOf_payload?_lt`: what is read from
  within a value is smaller than it, so that reading a nested value ends.
-/

namespace FormLetter

/-- A JSON value. Of several members of an object with one name, the last one counts. -/
inductive Json where
  | null
  | bool (value : Bool)
  | integer (value : Int)
  | float (value : Number)
  | string (value : String)
  | array (items : List Json)
  | object (members : List (String × Json))
  deriving Inhabited

/-- Types whose values can be handed over. -/
class Exchange (α : Type) where
  toJson : α → Json
  ofJson? : Json → Option α

namespace Json

/-! ## Records -/

/-- The value of the last member with a name. -/
def lastOf? (name : String) : List (String × Json) → Option Json
  | [] => none
  | (n, value) :: rest => (lastOf? name rest).or (if n = name then some value else none)

/-- Whether a value can stand for a record with the given number of fields. -/
def isRecord (width : Nat) : Json → Bool
  | .object _ => true
  | .array items => items.length ≤ width
  | _ => false

/-- A field of a record, by its name or by its place. -/
def field? (name : String) (place : Nat) : Json → Option Json
  | .object members => lastOf? name members
  | .array items => items[place]?
  | _ => none

/-- Reads a field that has to be there. -/
def required? {α : Type} [Exchange α] (j : Json) (name : String) (place : Nat) : Option α :=
  (j.field? name place).bind Exchange.ofJson?

/-- Reads a field that has a default where it is not there. -/
def optional? {α : Type} [Exchange α] (j : Json) (name : String) (place : Nat) (default : α) :
    Option α :=
  match j.field? name place with
  | some value => Exchange.ofJson? value
  | none => some default

/-! ## Variants -/

/-- A field of a variant, by its name. -/
def member? (name : String) : Json → Option Json
  | .object members => lastOf? name members
  | _ => none

/-- Reads a field of a variant, which has to be there. -/
def memberAs? {α : Type} [Exchange α] (j : Json) (name : String) : Option α :=
  (j.member? name).bind Exchange.ofJson?

/-- The name of the variant that a value stands for. -/
def variant? : Json → Option String
  | .string name => some name
  | .object [(name, _)] => some name
  | _ => none

/-- What a variant holds. -/
def payload? : Json → Option Json
  | .object [(_, payload)] => some payload
  | _ => none

/-- Whether a value can stand for a variant without fields. -/
def isBare (j : Json) : Bool :=
  match j.payload? with
  | none => true
  | some .null => true
  | some _ => false

/-- A variant and what it holds. -/
def tagged (name : String) (payload : Json) : Json := .object [(name, payload)]

/-! ## Sizes -/

theorem sizeOf_lastOf?_lt {name : String} {members : List (String × Json)} {value : Json}
    (h : lastOf? name members = some value) : sizeOf value < sizeOf members := by
  induction members with
  | nil => cases h
  | cons m rest ih =>
    obtain ⟨n, v⟩ := m
    rw [lastOf?, Option.or_eq_some_iff] at h
    simp only [List.cons.sizeOf_spec, Prod.mk.sizeOf_spec]
    rcases h with h | ⟨_, h⟩
    · have := ih h
      omega
    · split at h
      · cases h
        omega
      · cases h

theorem sizeOf_field?_lt {name : String} {place : Nat} {j value : Json}
    (h : j.field? name place = some value) : sizeOf value < sizeOf j := by
  cases j with
  | object members =>
    have := sizeOf_lastOf?_lt h
    simp only [object.sizeOf_spec]
    omega
  | array items =>
    have := List.sizeOf_lt_of_mem (List.mem_of_getElem? h)
    simp only [array.sizeOf_spec]
    omega
  | _ => cases h

theorem sizeOf_member?_lt {name : String} {j value : Json} (h : j.member? name = some value) :
    sizeOf value < sizeOf j := by
  cases j with
  | object members =>
    have := sizeOf_lastOf?_lt h
    simp only [object.sizeOf_spec]
    omega
  | _ => cases h

theorem sizeOf_payload?_lt {j payload : Json} (h : j.payload? = some payload) :
    sizeOf payload < sizeOf j := by
  unfold payload? at h
  split at h
  · cases h
    simp only [object.sizeOf_spec, List.cons.sizeOf_spec, Prod.mk.sizeOf_spec]
    omega
  · cases h

end Json

/-! ## Plain values -/

instance : Exchange String where
  toJson := .string
  ofJson?
    | .string value => some value
    | _ => none

instance : Exchange Bool where
  toJson := .bool
  ofJson?
    | .bool value => some value
    | _ => none

/-- The largest count that can be handed over: the largest one of 64 bits. -/
def maxExchanged : Nat := 18446744073709551615

instance : Exchange Nat where
  toJson n := .integer n
  ofJson?
    | .integer n => if 0 ≤ n && n.toNat ≤ maxExchanged then some n.toNat else none
    | _ => none

instance : Exchange Number where
  toJson := .float
  ofJson?
    | .integer n => some (Number.ofInt n)
    | .float value => some value
    | _ => none

/-- What may be absent is handed over as `null` where it is. -/
instance {α : Type} [Exchange α] : Exchange (Option α) where
  toJson
    | none => .null
    | some value => Exchange.toJson value
  ofJson?
    | .null => some none
    | j => (Exchange.ofJson? j).map some

instance {α : Type} [Exchange α] : Exchange (List α) where
  toJson values := .array (values.map Exchange.toJson)
  ofJson?
    | .array items => items.mapM Exchange.ofJson?
    | _ => none

instance {α : Type} [Exchange α] : Exchange (Entries α) where
  toJson entries := .object (entries.toList.map fun e => (e.1, Exchange.toJson e.2))
  ofJson?
    | .object members =>
      (members.mapM fun m => (Exchange.ofJson? m.2).map fun value => (m.1, value)).map
        Entries.ofList
    | _ => none

end FormLetter
