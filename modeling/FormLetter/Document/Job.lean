import FormLetter.Document.Settings
import FormLetter.Data.Datum

/-!
# Jobs

What a letter is written from, beside the document: the settings, the field values and the data.
Every pass over a document reads them and none changes them.
-/

namespace FormLetter

/-- The settings, field values and data of one letter. -/
structure Job where
  settings : Settings
  values : Entries String
  data : Datum

/-- The largest number that a counter of a report shows: the largest one of 64 bits. -/
def counterLimit : Nat := 18446744073709551615

/-- A count as a report shows it: one beyond the limit stays at the limit. -/
def shownCount (n : Nat) : Nat := min n counterLimit

theorem shownCount_le_shownCount {m n : Nat} (h : m ≤ n) : shownCount m ≤ shownCount n := by
  unfold shownCount
  omega

theorem shownCount_eq_zero_iff {n : Nat} : shownCount n = 0 ↔ n = 0 := by
  unfold shownCount counterLimit
  omega

/-- Applies a policy to a part of a document. -/
def Policy.apply {α : Type} (dropped kept : α) : Policy → α
  | .keep => kept
  | .drop => dropped

end FormLetter
