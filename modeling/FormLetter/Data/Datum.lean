import FormLetter.Data.Entries
import FormLetter.Number.Shortest

/-!
# Data

The nested data that conditions and repeats refer to: scalars, lists, and records of named data.

* `Datum.get?_insert`: what is entered into a record is found there.
* `Datum.alike` compares two data as far as they can be told apart in a condition: `nan` is unlike
  itself, and the two zeros are alike.
* `Datum.alike_comm`: the order of the two does not matter.
* `Datum.longestList` bounds how often any repeat over the data can repeat something.
-/

namespace FormLetter

/-- A datum. The entries of a record are held in ascending order of their names. -/
inductive Datum where
  | null
  | bool (value : Bool)
  | number (value : Number)
  | text (value : String)
  | list (items : List Datum)
  | record (entries : List (String × Datum))
  deriving Inhabited

namespace Datum

/-- A record without entries. -/
def emptyRecord : Datum := .record []

/-- Whether there is no datum. -/
def isNull : Datum → Bool
  | .null => true
  | _ => false

/-- The datum that a record has under a name. Only records have any. -/
def get? (name : String) : Datum → Option Datum
  | .record entries => valueOf? name entries
  | _ => none

/-- Enters a datum into a record under a name. What is not a record is replaced by one. -/
def insert (d : Datum) (name : String) (value : Datum) : Datum :=
  match d with
  | .record entries => .record (put name value entries)
  | _ => .record [(name, value)]

/-- The record of a list of entries. Of several for one name the last one counts. -/
def ofEntries (entries : List (String × Datum)) : Datum :=
  .record (entries.foldl (fun done e => put e.1 e.2 done) [])

/-- The items of a list. Nothing else has items. -/
def items? : Datum → Option (List Datum)
  | .list items => some items
  | _ => none

theorem items?_eq_some_iff {d : Datum} {items : List Datum} :
    d.items? = some items ↔ d = .list items := by
  cases d <;> simp [items?]

/-- How a letter shows a scalar. The absent datum, lists and records are not shown. -/
def shown? : Datum → Option String
  | .bool value => some (if value then "true" else "false")
  | .number value => some value.text
  | .text value => some value
  | .null | .list _ | .record _ => none

mutual

/-- Two data are alike if they have the same shape and the same scalars, numbers being compared by
their value. -/
def alike : Datum → Datum → Bool
  | .null, .null => true
  | .bool a, .bool b => a == b
  | .number a, .number b => a.eqv b
  | .text a, .text b => a == b
  | .list xs, .list ys => alikeItems xs ys
  | .record xs, .record ys => alikeEntries xs ys
  | _, _ => false

/-- Item by item alike. -/
def alikeItems : List Datum → List Datum → Bool
  | [], [] => true
  | x :: xs, y :: ys => alike x y && alikeItems xs ys
  | _, _ => false

/-- Entry by entry alike, under the same names. -/
def alikeEntries : List (String × Datum) → List (String × Datum) → Bool
  | [], [] => true
  | (m, x) :: xs, (n, y) :: ys => m == n && alike x y && alikeEntries xs ys
  | _, _ => false

end

mutual

/-- The length of the longest list in a datum. -/
def longestList : Datum → Nat
  | .list items => max items.length (longestInItems items)
  | .record entries => longestInEntries entries
  | _ => 0

/-- The length of the longest list within the items of a list. -/
def longestInItems : List Datum → Nat
  | [] => 0
  | x :: xs => max (longestList x) (longestInItems xs)

/-- The length of the longest list within the entries of a record. -/
def longestInEntries : List (String × Datum) → Nat
  | [] => 0
  | (_, x) :: xs => max (longestList x) (longestInEntries xs)

end

mutual

/-- Alikeness does not depend on the order of its data. -/
theorem alike_comm : ∀ a b : Datum, a.alike b = b.alike a
  | .null, b => by cases b <;> rfl
  | .bool x, b => by cases b <;> simp [alike, Bool.beq_comm]
  | .number x, b => by cases b <;> simp [alike, Number.eqv_comm x]
  | .text x, b => by cases b <;> simp [alike, Bool.beq_eq_decide_eq, eq_comm]
  | .list xs, b => by
    cases b with
    | list ys => simp [alike, alikeItems_comm xs ys]
    | _ => rfl
  | .record xs, b => by
    cases b with
    | record ys => simp [alike, alikeEntries_comm xs ys]
    | _ => rfl

theorem alikeItems_comm : ∀ xs ys : List Datum, alikeItems xs ys = alikeItems ys xs
  | [], [] => rfl
  | [], _ :: _ => rfl
  | _ :: _, [] => rfl
  | x :: xs, y :: ys => by simp [alikeItems, alike_comm x y, alikeItems_comm xs ys]

theorem alikeEntries_comm : ∀ xs ys : List (String × Datum), alikeEntries xs ys = alikeEntries ys xs
  | [], [] => rfl
  | [], _ :: _ => rfl
  | _ :: _, [] => rfl
  | (m, x) :: xs, (n, y) :: ys => by
    simp [alikeEntries, alike_comm x y, alikeEntries_comm xs ys, Bool.beq_comm (a := m)]

end

theorem get?_insert (d : Datum) (name n : String) (value : Datum) :
    (d.insert name value).get? n = if name = n then some value else d.get? n := by
  cases d with
  | record entries => exact valueOf?_put entries name n value
  | _ => rfl

theorem longestList_le_of_mem_entries {entries : List (String × Datum)} {name : String}
    {d : Datum} (h : valueOf? name entries = some d) :
    d.longestList ≤ longestInEntries entries := by
  induction entries with
  | nil => cases h
  | cons x rest ih =>
    obtain ⟨n, v⟩ := x
    rw [valueOf?] at h
    rw [longestInEntries]
    split at h
    · cases h
      exact Nat.le_max_left _ _
    · exact Nat.le_trans (ih h) (Nat.le_max_right _ _)

theorem longestList_get?_le {d x : Datum} {name : String} (h : d.get? name = some x) :
    x.longestList ≤ d.longestList := by
  cases d with
  | record entries =>
    rw [longestList]
    exact longestList_le_of_mem_entries h
  | _ => cases h

end Datum

end FormLetter
