import FormLetter.Data.Datum

/-!
# Dotted paths

A path names a datum within another one by the names to go through, separated by points. Empty
names are skipped, so the empty path and paths of points alone name the whole datum. A path goes
through records only.

* `splitDots_append`: a point separates the names before it from those after it.
* `segments_append_dot`: so the segments of two joined paths are the segments of both.
* `Datum.at?_append_dot`: a joined path is followed by its first part, then by its second.
* `Datum.length_at?_le`: no list on a path is longer than the longest list of the datum.
-/

namespace FormLetter

/-- The parts of a text between its points, empty parts included. -/
def splitDots : List Char → List (List Char)
  | [] => [[]]
  | c :: cs =>
    if c = '.' then [] :: splitDots cs
    else match splitDots cs with
      | [] => [[c]]
      | part :: parts => (c :: part) :: parts

/-- The names that a path goes through. -/
def segments (path : List Char) : List String :=
  ((splitDots path).filter fun part => !part.isEmpty).map String.ofList

theorem splitDots_ne_nil (cs : List Char) : splitDots cs ≠ [] := by
  cases cs with
  | nil => simp [splitDots]
  | cons c cs =>
    rw [splitDots]
    split
    · simp
    · split <;> simp

theorem splitDots_append (p q : List Char) :
    splitDots (p ++ '.' :: q) = splitDots p ++ splitDots q := by
  induction p with
  | nil => simp [splitDots]
  | cons c cs ih =>
    rw [List.cons_append, splitDots, ih, splitDots]
    by_cases h : c = '.'
    · simp [h]
    · cases hs : splitDots cs with
      | nil => exact absurd hs (splitDots_ne_nil cs)
      | cons part parts => simp [h]

theorem segments_append_dot (p q : List Char) :
    segments (p ++ '.' :: q) = segments p ++ segments q := by
  simp [segments, splitDots_append]

namespace Datum

/-- The datum that is reached through the given names. -/
def follow (d : Datum) (names : List String) : Option Datum :=
  names.foldlM (fun d name => d.get? name) d

/-- The datum that a path names. -/
def at? (d : Datum) (path : String) : Option Datum := d.follow (segments path.toList)

/-- The number of items of the list that a path names, and zero if it names no list. -/
def countAt (d : Datum) (path : String) : Nat :=
  match (d.at? path).bind items? with
  | some items => items.length
  | none => 0

@[simp] theorem follow_nil (d : Datum) : d.follow [] = some d := rfl

theorem follow_cons (d : Datum) (name : String) (names : List String) :
    d.follow (name :: names) = (d.get? name).bind fun x => x.follow names := rfl

theorem follow_append (d : Datum) (names more : List String) :
    d.follow (names ++ more) = (d.follow names).bind fun x => x.follow more := by
  simp [follow, List.foldlM_append]

/-- A joined path is followed by its first part, then by its second. -/
theorem at?_append_dot (d : Datum) (p q : String) :
    d.at? (p ++ "." ++ q) = (d.at? p).bind fun x => x.at? q := by
  have h : (p ++ "." ++ q).toList = p.toList ++ '.' :: q.toList := by simp
  rw [at?, h, segments_append_dot, follow_append]
  rfl

theorem longestList_follow_le {d x : Datum} {names : List String}
    (h : d.follow names = some x) : x.longestList ≤ d.longestList := by
  induction names generalizing d with
  | nil =>
    cases h
    exact Nat.le_refl _
  | cons name names ih =>
    rw [follow_cons, Option.bind_eq_some_iff] at h
    obtain ⟨y, hy, hx⟩ := h
    exact Nat.le_trans (ih hx) (longestList_get?_le hy)

/-- No list on a path is longer than the longest list of the datum. -/
theorem length_at?_le {d : Datum} {path : String} {items : List Datum}
    (h : d.at? path = some (.list items)) : items.length ≤ d.longestList := by
  have hle := longestList_follow_le h
  rw [longestList] at hle
  exact Nat.le_trans (Nat.le_max_left _ _) hle

end Datum

end FormLetter
