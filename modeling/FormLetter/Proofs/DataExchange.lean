import FormLetter.Exchange.Data
import FormLetter.Proofs.SortedEntries

/-!
# Data handed over

Every JSON value is read as a datum, and what that datum is handed over as is the value again, once
its integers are rounded and the members of its objects are put in order. The other way round a
datum is read as it was, if its records are in order, as they always are. Numbers that are not
finite have no place in a JSON text, and none come from one.

* `Json.Plain`: the values that a JSON text can write.
* `Datum.IsOrdered`, `Datum.IsFinite`: the data with records in order, and with finite numbers.
* `Datum.ofJson_toJson`: a datum is read as it was.
* `Json.settled`, `Datum.toJson_ofJson`: what is left of a JSON value that has been a datum.
-/

namespace FormLetter

/-! ## Finite numbers -/

/-- The integers that JSON texts write are not too large. -/
theorem Number.isFinite_ofInt {n : Int} (h : n.natAbs ≤ maxExchanged) :
    (ofInt n).isFinite = true := by
  have hsmall : n.natAbs < power 2 64 := Nat.lt_of_le_of_lt h (by decide)
  have hunits : n.natAbs * Magnitude.unitsPerOne / 1 < power 2 (maxExponent + 52) := by
    rw [Nat.div_one, Magnitude.unitsPerOne]
    calc n.natAbs * power 2 Magnitude.unitPlaces
      _ < power 2 64 * power 2 Magnitude.unitPlaces :=
        Nat.mul_lt_mul_of_pos_right hsmall (power_pos (by decide) _)
      _ = power 2 (64 + Magnitude.unitPlaces) := (power_add 2 64 _).symm
      _ ≤ power 2 (maxExponent + 52) := power_le_power (by decide) (by decide)
  obtain ⟨m, hm⟩ := Magnitude.exists_nearest? hunits
  have hofNat : ofNat n.natAbs = .finite false m := by
    rw [ofNat_eq]
    dsimp only
    rw [hm]
  rw [ofInt_eq]
  dsimp only
  rw [hofNat]
  rfl

/-! ## JSON values -/

namespace Json

/-- The values that a JSON text can write: their numbers are finite, and their integers are those
of 64 bits, with or without a sign. -/
inductive Plain : Json → Prop where
  | null : Plain .null
  | bool (value : Bool) : Plain (.bool value)
  | integer {value : Int} (hlow : -9223372036854775808 ≤ value) (hhigh : value ≤ maxExchanged) :
      Plain (.integer value)
  | float {value : Number} (h : value.isFinite = true) : Plain (.float value)
  | string (value : String) : Plain (.string value)
  | array {items : List Json} (h : ∀ j ∈ items, Plain j) : Plain (.array items)
  | object {members : List (String × Json)} (h : ∀ m ∈ members, Plain m.2) :
      Plain (.object members)

/-- Induction on a value and the values within it. -/
@[elab_as_elim]
theorem induction {motive : Json → Prop} (null : motive .null)
    (bool : ∀ value, motive (.bool value)) (integer : ∀ value, motive (.integer value))
    (float : ∀ value, motive (.float value)) (string : ∀ value, motive (.string value))
    (array : ∀ items, (∀ j ∈ items, motive j) → motive (.array items))
    (object : ∀ members, (∀ m ∈ members, motive m.2) → motive (.object members)) (j : Json) :
    motive j :=
  @Json.rec motive (fun items => ∀ j ∈ items, motive j) (fun members => ∀ m ∈ members, motive m.2)
    (fun m => motive m.2) null bool integer float string array object (List.forall_mem_nil _)
    (fun _ _ hj hjs => List.forall_mem_cons.2 ⟨hj, hjs⟩) (List.forall_mem_nil _)
    (fun _ _ hm hms => List.forall_mem_cons.2 ⟨hm, hms⟩) (fun _ _ hj => hj) j

mutual

/-- The value with its integers rounded to numbers, and with the members of each object in order,
the last one of each name. -/
def settled : Json → Json
  | .integer n => .float (Number.ofInt n)
  | .array items => .array (settledItems items)
  | .object members => .object (lastValues (settledMembers members))
  | j => j

/-- Each item of an array settled. -/
def settledItems : List Json → List Json
  | [] => []
  | j :: js => settled j :: settledItems js

/-- Each member of an object settled. -/
def settledMembers : List (String × Json) → List (String × Json)
  | [] => []
  | (name, j) :: js => (name, settled j) :: settledMembers js

end

theorem settled_array (items : List Json) : (array items).settled = .array (items.map settled) := by
  rw [settled]
  congr 1
  induction items with
  | nil => rfl
  | cons j js ih => rw [settledItems, ih, List.map_cons]

theorem settled_object (members : List (String × Json)) :
    (object members).settled = .object (lastValues (members.map fun m => (m.1, m.2.settled))) := by
  rw [settled]
  congr 2
  induction members with
  | nil => rfl
  | cons m js ih => rw [settledMembers, ih, List.map_cons]

end Json

/-! ## Data -/

namespace Datum

/-- The entries of each record are in ascending order of their names. -/
inductive IsOrdered : Datum → Prop where
  | null : IsOrdered .null
  | bool (value : Bool) : IsOrdered (.bool value)
  | number (value : Number) : IsOrdered (.number value)
  | text (value : String) : IsOrdered (.text value)
  | list {items : List Datum} (h : ∀ x ∈ items, IsOrdered x) : IsOrdered (.list items)
  | record {entries : List (String × Datum)} (hnames : Ascending entries)
      (h : ∀ e ∈ entries, IsOrdered e.2) : IsOrdered (.record entries)

/-- All numbers are finite. -/
inductive IsFinite : Datum → Prop where
  | null : IsFinite .null
  | bool (value : Bool) : IsFinite (.bool value)
  | number {value : Number} (h : value.isFinite = true) : IsFinite (.number value)
  | text (value : String) : IsFinite (.text value)
  | list {items : List Datum} (h : ∀ x ∈ items, IsFinite x) : IsFinite (.list items)
  | record {entries : List (String × Datum)} (h : ∀ e ∈ entries, IsFinite e.2) :
      IsFinite (.record entries)

theorem toJson_list (items : List Datum) : (list items).toJson = .array (items.map toJson) := by
  rw [toJson]
  congr 1
  induction items with
  | nil => rfl
  | cons x xs ih => rw [itemsToJson, ih, List.map_cons]

theorem toJson_record (entries : List (String × Datum)) :
    (record entries).toJson = .object (entries.map fun e => (e.1, e.2.toJson)) := by
  rw [toJson]
  congr 1
  induction entries with
  | nil => rfl
  | cons e es ih => rw [entriesToJson, ih, List.map_cons]

theorem ofJson_array (items : List Json) : ofJson (.array items) = .list (items.map ofJson) := by
  rw [ofJson]
  congr 1
  induction items with
  | nil => rfl
  | cons j js ih => rw [itemsOfJson, ih, List.map_cons]

/-- An object is read as the record of its names, each with its last value. -/
theorem ofJson_object (members : List (String × Json)) :
    ofJson (.object members) = .record (lastValues (members.map fun m => (m.1, ofJson m.2))) := by
  have hentries : entriesOfJson members = members.map fun m => (m.1, ofJson m.2) := by
    induction members with
    | nil => rfl
    | cons m js ih => rw [entriesOfJson, ih, List.map_cons]
  rw [ofJson, hentries, ← putAll_eq_lastValues]
  rfl

/-! ## From data to JSON and back -/

theorem plain_toJson {d : Datum} (h : d.IsFinite) : d.toJson.Plain := by
  induction h with
  | null => exact .null
  | bool value => exact .bool value
  | number h => exact .float h
  | text value => exact .string value
  | list _ ih =>
    rw [toJson_list]
    exact .array (List.forall_mem_map.2 ih)
  | record _ ih =>
    rw [toJson_record]
    exact .object (List.forall_mem_map.2 ih)

/-- A datum is read as it was handed over. -/
theorem ofJson_toJson {d : Datum} (h : d.IsOrdered) : ofJson d.toJson = d := by
  induction h with
  | null | bool | number | text => rfl
  | @list items _ ih =>
    have hitems : (items.map toJson).map ofJson = items := by
      rw [List.map_map]
      exact (List.map_congr_left ih).trans (List.map_id items)
    rw [toJson_list, ofJson_array, hitems]
  | @record entries hnames _ ih =>
    have hentries : (entries.map fun e => (e.1, e.2.toJson)).map (fun m => (m.1, ofJson m.2)) =
        entries := by
      rw [List.map_map]
      refine (List.map_congr_left fun e he => ?_).trans (List.map_id entries)
      exact Prod.ext rfl (ih e he)
    rw [toJson_record, ofJson_object, hentries, lastValues_of_ascending hnames]

/-! ## From JSON to data and back -/

/-- A record that has been read is in order. -/
theorem isOrdered_ofJson (j : Json) : (ofJson j).IsOrdered := by
  induction j using Json.induction with
  | null => exact .null
  | bool value => exact .bool value
  | integer n => exact .number _
  | float value => exact .number value
  | string value => exact .text value
  | array items ih =>
    rw [ofJson_array]
    exact .list (List.forall_mem_map.2 ih)
  | object members ih =>
    rw [ofJson_object]
    refine .record (ascending_lastValues _) fun e he => ?_
    obtain ⟨m, hm, rfl⟩ := List.mem_map.1 (mem_of_mem_lastValues he)
    exact ih m hm

/-- A number that has been read from a JSON text is finite. -/
theorem isFinite_ofJson {j : Json} (h : j.Plain) : (ofJson j).IsFinite := by
  induction h with
  | null => exact .null
  | bool value => exact .bool value
  | integer hlow hhigh =>
    exact .number (Number.isFinite_ofInt (by unfold maxExchanged at hhigh ⊢; omega))
  | float h => exact .number h
  | string value => exact .text value
  | array _ ih =>
    rw [ofJson_array]
    exact .list (List.forall_mem_map.2 ih)
  | object _ ih =>
    rw [ofJson_object]
    refine .record fun e he => ?_
    obtain ⟨m, hm, rfl⟩ := List.mem_map.1 (mem_of_mem_lastValues he)
    exact ih m hm

/-- A JSON value that has been a datum is settled. -/
theorem toJson_ofJson (j : Json) : (ofJson j).toJson = j.settled := by
  induction j using Json.induction with
  | null | bool | integer | float | string => rfl
  | array items ih =>
    rw [ofJson_array, toJson_list, Json.settled_array, List.map_map]
    exact congrArg Json.array (List.map_congr_left ih)
  | object members ih =>
    rw [ofJson_object, toJson_record, Json.settled_object, ← lastValues_map, List.map_map]
    exact congrArg (fun ms => Json.object (lastValues ms))
      (List.map_congr_left fun m hm => Prod.ext rfl (ih m hm))

end Datum

end FormLetter
