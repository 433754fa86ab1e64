import FormLetter.Text.Blank

/-!
# What a text begins with

* `after?_eq_some_iff`: a text begins with a word exactly if it is the word and what follows it.
* `afterBlanks?_eq_some_iff`: at least one blank is needed, and all leading ones are taken.
  `afterBlanks?_append`, `exists_of_afterBlanks?`: the same, said of the blanks.
-/

namespace FormLetter

/-- What follows a word in a text that begins with it. -/
def after? : List Char → List Char → Option (List Char)
  | [], cs => some cs
  | _ :: _, [] => none
  | w :: ws, c :: cs => if w = c then after? ws cs else none

/-- What follows the leading blanks of a text that begins with one. -/
def afterBlanks? : List Char → Option (List Char)
  | [] => none
  | c :: cs => if isBlank c then some (trimStart cs) else none

theorem after?_eq_some_iff {word cs rest : List Char} :
    after? word cs = some rest ↔ cs = word ++ rest := by
  induction word generalizing cs with
  | nil => simp [after?]
  | cons w ws ih =>
    cases cs with
    | nil => simp [after?]
    | cons c cs =>
      rw [after?]
      split
      · rename_i h
        simp [ih, h]
      · rename_i h
        simp [Ne.symm h]

theorem afterBlanks?_eq_some_iff {cs rest : List Char} :
    afterBlanks? cs = some rest ↔ (cs.head?.any isBlank = true ∧ rest = trimStart cs) := by
  cases cs with
  | nil => simp [afterBlanks?]
  | cons c cs => by_cases h : isBlank c = true <;> simp [afterBlanks?, trimStart, h, eq_comm]

theorem afterBlanks?_append {blanks rest : List Char} (hne : blanks ≠ [])
    (hblanks : ∀ c ∈ blanks, isBlank c = true)
    (hrest : ∀ c, rest.head? = some c → isBlank c = false) :
    afterBlanks? (blanks ++ rest) = some rest := by
  refine afterBlanks?_eq_some_iff.2 ⟨?_, ?_⟩
  · obtain ⟨c, more, rfl⟩ := List.exists_cons_of_ne_nil hne
    exact hblanks c (.head _)
  · rw [trimStart_append hblanks, trimStart_eq_self hrest]

theorem exists_of_afterBlanks? {cs rest : List Char} (h : afterBlanks? cs = some rest) :
    ∃ blanks, blanks ≠ [] ∧ (∀ c ∈ blanks, isBlank c = true) ∧ cs = blanks ++ rest := by
  obtain ⟨hfirst, rfl⟩ := afterBlanks?_eq_some_iff.1 h
  obtain ⟨blanks, hblanks, hcs⟩ := exists_append_trimStart cs
  refine ⟨blanks, ?_, hblanks, hcs⟩
  rintro rfl
  -- Without a blank to take away the text would begin as it does after trimming.
  cases cs with
  | nil => cases hfirst
  | cons c cs =>
    have hc : isBlank c = true := hfirst
    have hlength := congrArg List.length hcs
    rw [trimStart, List.dropWhile_cons_of_pos hc, List.nil_append, List.length_cons] at hlength
    have hle := (List.dropWhile_suffix (l := cs) isBlank).length_le
    omega

end FormLetter
