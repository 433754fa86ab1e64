import FormLetter.Condition.Reading
import FormLetter.Data.Entries

/-!
# Conditions read before

A memo keeps what reading has made of each condition text met so far, faults included, so that a
letter written for many data reads each distinct condition once.

* `Memo.Faithful`: the memo holds nothing but what reading gives.
* `Memo.read_of_faithful`: a faithful memo answers as reading does, and stays faithful.
-/

namespace FormLetter

/-- What reading has made of the condition texts met so far. -/
structure Memo where
  readings : List (String × Except Fault Expression)

namespace Memo

/-- No condition has been read. -/
def empty : Memo := ⟨[]⟩

instance : Inhabited Memo := ⟨empty⟩

/-- How many distinct condition texts have been met. -/
def size (m : Memo) : Nat := m.readings.length

/-- Whether no condition text has been met. -/
def isEmpty (m : Memo) : Bool := m.readings.isEmpty

/-- The reading of a condition text, and the memo with that text in it. -/
def read (m : Memo) (source : String) : Except Fault Expression × Memo :=
  match valueOf? source m.readings with
  | some reading => (reading, m)
  | none =>
    let reading := Expression.ofText? source
    (reading, ⟨m.readings ++ [(source, reading)]⟩)

/-- Every text has the reading in the memo that it has without one. -/
def Faithful (m : Memo) : Prop :=
  ∀ source reading, valueOf? source m.readings = some reading →
    reading = Expression.ofText? source

theorem faithful_empty : empty.Faithful := fun _ _ h => nomatch h

theorem valueOf?_append_singleton {α : Type} (entries : List (String × α)) (name n : String)
    (value : α) : valueOf? n (entries ++ [(name, value)]) =
      (valueOf? n entries).or (if name = n then some value else none) := by
  induction entries with
  | nil => simp [valueOf?]
  | cons x rest ih =>
    rw [List.cons_append, valueOf?, valueOf?, ih]
    split <;> rfl

theorem read_of_faithful {m : Memo} (h : m.Faithful) (source : String) :
    (m.read source).1 = Expression.ofText? source ∧ (m.read source).2.Faithful := by
  unfold read
  split
  · rename_i reading hr
    exact ⟨h source reading hr, h⟩
  · refine ⟨rfl, fun s reading hs => ?_⟩
    rw [valueOf?_append_singleton, Option.or_eq_some_iff] at hs
    rcases hs with hs | ⟨_, hs⟩
    · exact h s reading hs
    · split at hs
      · rename_i heq
        rw [← heq]
        exact (Option.some.inj hs).symm
      · cases hs

end Memo

end FormLetter
