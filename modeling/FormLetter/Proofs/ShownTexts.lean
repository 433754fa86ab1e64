import FormLetter.Data.Path
import FormLetter.Field.Source
import FormLetter.Proofs.Brackets

/-!
# Texts that data give to a letter

A letter shows scalars of its data. A number or a truth value is shown without brackets, so a
letter shows a bracket of its data only if one of their texts has it.

* `Datum.texts` lists the texts of a datum, `Datum.texts_at?_subset` those that a path leads to.
* `FieldSource.givesBracketFree`: field values and an item without brackets give none.
-/

namespace FormLetter

/-! ## Numbers -/

theorem bracketFree_digitsOf (n : Nat) : BracketFree (digitsOf n) := fun _ hc =>
  isBracket_eq_false (by decide) (by decide)
    (Nat.isDigit_of_mem_toDigits (by decide) (by decide) hc)

/-- The digits of a fraction are zeros and those of its numerator. -/
theorem Decimal.mem_fractionDigits {places n : Nat} {c : Char} (h : c ∈ fractionDigits places n) :
    c = '0' ∨ c ∈ digitsOf n := by
  unfold fractionDigits at h
  dsimp only at h
  split at h
  · cases h
  · have hmem := (List.dropWhile_sublist _).subset (List.mem_reverse.1 h)
    rcases List.mem_append.1 (List.mem_reverse.1 hmem) with hzero | hdigit
    · exact .inl (List.mem_replicate.1 hzero).2
    · exact .inr hdigit

theorem Decimal.bracketFree_fractionDigits (places n : Nat) :
    BracketFree (fractionDigits places n) := by
  intro c hc
  rcases mem_fractionDigits hc with rfl | hdigit
  · decide
  · exact bracketFree_digitsOf _ c hdigit

theorem Decimal.bracketFree_text (d : Decimal) : BracketFree d.text := by
  unfold Decimal.text
  dsimp only
  split
  · exact bracketFree_digitsOf _
  · exact (bracketFree_digitsOf _).append (.cons (by decide) (bracketFree_fractionDigits _ _))

/-- A number is shown without brackets. -/
theorem Number.bracketFree_text (n : Number) : BracketFree n.text.toList := by
  cases n with
  | nan => decide
  | infinite negative => cases negative <;> decide
  | finite negative magnitude =>
    rw [Number.text, String.toList_ofList]
    refine BracketFree.append ?_ (Decimal.bracketFree_text _)
    cases negative <;> decide

/-! ## The texts of a datum -/

namespace Datum

mutual

/-- The texts of a datum. -/
def texts : Datum → List String
  | .text value => [value]
  | .list items => textsOfItems items
  | .record entries => textsOfEntries entries
  | .null | .bool _ | .number _ => []

/-- The texts of the items of a list. -/
def textsOfItems : List Datum → List String
  | [] => []
  | x :: xs => texts x ++ textsOfItems xs

/-- The texts of the entries of a record. -/
def textsOfEntries : List (String × Datum) → List String
  | [] => []
  | (_, x) :: xs => texts x ++ textsOfEntries xs

end

theorem texts_subset_of_mem {items : List Datum} {d : Datum} (h : d ∈ items) :
    d.texts ⊆ (list items).texts := by
  rw [texts]
  induction items with
  | nil => cases h
  | cons x xs ih =>
    rw [textsOfItems]
    rcases List.mem_cons.1 h with rfl | h
    · exact List.subset_append_left _ _
    · exact List.subset_append_of_subset_right _ (ih h)

theorem texts_get?_subset {d x : Datum} {name : String} (h : d.get? name = some x) :
    x.texts ⊆ d.texts := by
  cases d with
  | record entries =>
    rw [get?] at h
    rw [texts]
    induction entries with
    | nil => cases h
    | cons e rest ih =>
      obtain ⟨n, v⟩ := e
      rw [valueOf?] at h
      rw [textsOfEntries]
      split at h
      · cases h
        exact List.subset_append_left _ _
      · exact List.subset_append_of_subset_right _ (ih h)
  | _ => cases h

theorem texts_follow_subset {d x : Datum} {names : List String} (h : d.follow names = some x) :
    x.texts ⊆ d.texts := by
  induction names generalizing d with
  | nil =>
    cases h
    exact List.Subset.refl _
  | cons name names ih =>
    rw [follow_cons, Option.bind_eq_some_iff] at h
    obtain ⟨y, hy, hx⟩ := h
    exact List.Subset.trans (ih hx) (texts_get?_subset hy)

/-- What a path leads to has no texts of its own. -/
theorem texts_at?_subset {d x : Datum} {path : String} (h : d.at? path = some x) :
    x.texts ⊆ d.texts := texts_follow_subset h

/-- A datum is shown without brackets unless it is a text with brackets. -/
theorem bracketFree_of_shown? {d : Datum} (hd : ∀ s ∈ d.texts, BracketFree s.toList) {s : String}
    (h : d.shown? = some s) : BracketFree s.toList := by
  cases d with
  | bool value =>
    cases h
    cases value <;> decide
  | number value =>
    cases h
    exact value.bracketFree_text
  | text value =>
    cases h
    exact hd _ (.head _)
  | _ => cases h

end Datum

/-! ## Where fields come from -/

/-- Field values and an item without brackets give no text with brackets. -/
theorem FieldSource.givesBracketFree {source : FieldSource}
    (hvalues : ∀ e ∈ source.values.toList, BracketFree e.2.toList)
    (hitem : ∀ b, source.binding = some b → ∀ s ∈ b.item.texts, BracketFree s.toList) :
    source.GivesBracketFree := by
  intro path value h
  unfold get? at h
  split at h
  · rename_i found hfound
    obtain ⟨b, hb, hwithin⟩ := Option.bind_eq_some_iff.1 hfound
    obtain ⟨rest, -, rfl⟩ := Option.map_eq_some_iff.1 hwithin
    obtain ⟨hshown, -⟩ := Option.filter_eq_some_iff.1 h
    obtain ⟨d, hd, hshown⟩ := Option.bind_eq_some_iff.1 hshown
    exact Datum.bracketFree_of_shown? (fun s hs => hitem b hb s (Datum.texts_at?_subset hd hs))
      hshown
  · obtain ⟨hvalue, -⟩ := Option.filter_eq_some_iff.1 h
    exact hvalues _ (mem_of_valueOf? hvalue)

theorem FieldSource.givesBracketFree_ofValues {values : Entries String}
    (hvalues : ∀ e ∈ values.toList, BracketFree e.2.toList) :
    (ofValues values).GivesBracketFree :=
  givesBracketFree hvalues fun _ hb => nomatch hb

end FormLetter
