import Mathlib.Data.List.Induction
import FormLetter.Condition.Lexeme

/-!
# Where a quoted text ends

Between two quotes only the characters read so far decide whether the next one is escaped, and the
first quote of the same kind that is not escaped closes the text. Escaped text closes nothing
where it begins outside of an escape. Behind a backslash that is still open it is read with its own
backslashes shifted by one, so a quote in it may come to stand alone.

* `quoteState?`: where the reading stands between two characters of a quoted text.
* `readQuoted_of_quoteState?`, `exists_of_readQuoted`: a quoted text is closed by the first quote
  that its state does not escape.
* `quoteState?_escape`, `quoteState?_open_escape`: what escaped text does to the state.
* `backslashesAtEnd_mod_two`: the state is the parity of the backslashes that stand last.
-/

namespace FormLetter

variable {q c : Char} {cs ds rest : List Char}

theorem ne_backslash_of_isQuote (h : isQuote q = true) : q ≠ backslash := by
  rintro rfl
  cases h

/-- Where the reading of a quoted text stands after some of its characters: whether an open
backslash escapes the next one. There is no state once the closing quote has come. -/
def quoteState? (quote : Char) : Bool → List Char → Option Bool
  | escaped, [] => some escaped
  | true, _ :: cs => quoteState? quote false cs
  | false, c :: cs => if c = quote then none else quoteState? quote (c == backslash) cs

theorem quoteState?_escaped (q c : Char) (cs : List Char) :
    quoteState? q true (c :: cs) = quoteState? q false cs := rfl

theorem quoteState?_quote (q : Char) (cs : List Char) : quoteState? q false (q :: cs) = none :=
  if_pos rfl

theorem quoteState?_backslash (hq : q ≠ backslash) (cs : List Char) :
    quoteState? q false (backslash :: cs) = quoteState? q true cs :=
  if_neg (Ne.symm hq)

theorem quoteState?_plain (hq : c ≠ q) (hb : c ≠ backslash) (cs : List Char) :
    quoteState? q false (c :: cs) = quoteState? q false cs := by
  rw [quoteState?, if_neg hq, beq_eq_false_iff_ne.2 hb]

theorem quoteState?_append (q : Char) (escaped : Bool) (cs ds : List Char) :
    quoteState? q escaped (cs ++ ds) =
      (quoteState? q escaped cs).bind fun escaped => quoteState? q escaped ds := by
  induction cs generalizing escaped with
  | nil => rfl
  | cons c cs ih =>
    cases escaped with
    | true => exact ih false
    | false =>
      by_cases hc : c = q
      · simp [quoteState?, hc]
      · simp [quoteState?, hc, ih]

/-- A character other than the backslash leaves nothing escaped. -/
theorem quoteState?_concat_eq_false {escaped after : Bool} (hc : c ≠ backslash)
    (h : quoteState? q escaped (cs ++ [c]) = some after) : after = false := by
  rw [quoteState?_append] at h
  obtain ⟨between, -, hlast⟩ := Option.bind_eq_some_iff.1 h
  cases between with
  | true => exact (Option.some.inj hlast).symm
  | false =>
    by_cases hq : c = q
    · rw [hq, quoteState?_quote] at hlast
      cases hlast
    · rw [quoteState?_plain hq hc] at hlast
      exact (Option.some.inj hlast).symm

/-! ## Closing quotes -/

/-- A quoted text is read up to the first quote that its state does not escape. -/
theorem readQuoted_of_quoteState? (hq : q ≠ backslash) {inner : List Char}
    (h : quoteState? q false inner = some false) :
    ∃ body, ∀ rest, readQuoted q (inner ++ q :: rest) = some (body, rest) := by
  -- Behind an open backslash the text is the one that begins with it.
  suffices key : ∀ inner escaped, quoteState? q escaped inner = some false →
      ∃ body, ∀ rest, readQuoted q ((if escaped then [backslash] else []) ++ (inner ++ q :: rest)) =
        some (body, rest) from key inner false h
  intro inner
  induction inner with
  | nil =>
    rintro escaped h
    cases h
    exact ⟨[], fun rest => readQuoted_quote q rest⟩
  | cons c inner ih =>
    intro escaped h
    cases escaped with
    | true =>
      obtain ⟨body, hbody⟩ := ih false h
      refine ⟨c :: body, fun rest => ?_⟩
      have hread := hbody rest
      simp only [Bool.false_eq_true, if_false, List.nil_append] at hread
      simp only [if_true, List.cons_append, List.nil_append]
      rw [readQuoted_backslash hq, hread]
      rfl
    | false =>
      rw [quoteState?] at h
      split at h
      · cases h
      · rename_i hcq
        obtain ⟨body, hbody⟩ := ih _ h
        by_cases hc : c = backslash
        · subst hc
          exact ⟨body, hbody⟩
        · refine ⟨c :: body, fun rest => ?_⟩
          have hread := hbody rest
          rw [beq_eq_false_iff_ne.2 hc] at hread
          simp only [Bool.false_eq_true, if_false, List.nil_append] at hread
          simp only [Bool.false_eq_true, if_false, List.cons_append, List.nil_append]
          rw [readQuoted_plain hcq hc, hread]
          rfl

/-- What has been read up to a closing quote leaves nothing escaped. -/
theorem exists_of_readQuoted {body : List Char} (h : readQuoted q cs = some (body, rest)) :
    ∃ inner, cs = inner ++ q :: rest ∧ quoteState? q false inner = some false := by
  induction cs using readQuoted.induct q generalizing body rest with
  | case1 => simp [readQuoted] at h
  | case2 =>
    rw [readQuoted, if_pos rfl] at h
    cases h
    exact ⟨[], rfl, rfl⟩
  | case3 c hc => simp [readQuoted, hc] at h
  | case4 d cs =>
    rw [readQuoted_quote] at h
    cases h
    exact ⟨[], rfl, rfl⟩
  | case5 d cs hq ih =>
    rw [readQuoted_backslash (Ne.symm hq), Option.map_eq_some_iff] at h
    obtain ⟨⟨body', rest'⟩, hread, he⟩ := h
    obtain ⟨inner, rfl, hstate⟩ := ih hread
    cases he
    refine ⟨backslash :: d :: inner, rfl, ?_⟩
    rwa [quoteState?_backslash (Ne.symm hq), quoteState?_escaped]
  | case6 c d cs hq hb ih =>
    rw [readQuoted_plain hq hb, Option.map_eq_some_iff] at h
    obtain ⟨⟨body', rest'⟩, hread, he⟩ := h
    obtain ⟨inner, hinner, hstate⟩ := ih hread
    cases he
    exact ⟨c :: inner, by rw [hinner]; rfl, by rwa [quoteState?_plain hq hb]⟩

/-! ## Escaped text -/

/-- Escaped text leaves nothing escaped where nothing was escaped before it. -/
theorem quoteState?_escape (hq : needsEscape q = true) (hb : q ≠ backslash) (cs : List Char) :
    quoteState? q false (escape cs) = some false := by
  induction cs with
  | nil => rfl
  | cons c cs ih =>
    by_cases hc : needsEscape c = true
    · rw [escape, if_pos hc, quoteState?_backslash hb, quoteState?_escaped, ih]
    · have hcq : c ≠ q := fun h => hc (h ▸ hq)
      have hcb : c ≠ backslash := fun h => hc (by simp [needsEscape, h])
      rw [escape, if_neg hc, quoteState?_plain hcq hcb, ih]

/-- Behind an open backslash each backslash that escapes is itself escaped. So the first character
other than a backslash stands alone: a quote of the kind that surrounds it closes the text. -/
theorem quoteState?_open_escape (hq : needsEscape q = true) (hb : q ≠ backslash)
    (cs : List Char) :
    quoteState? q true (escape cs) =
      match cs.find? (· != backslash) with
      | none => some true
      | some c => if c = q then none else some false := by
  induction cs with
  | nil => rfl
  | cons c cs ih =>
    by_cases hcb : c = backslash
    · rw [List.find?_cons_of_neg (by simp [hcb]), ← ih, escape, if_pos (by simp [needsEscape, hcb]),
        quoteState?_escaped, hcb, quoteState?_backslash hb]
    · have hrest := quoteState?_escape hq hb cs
      rw [List.find?_cons_of_pos (by simpa using hcb), escape]
      by_cases hcq : c = q
      · simp only [hcq, hq, if_true, quoteState?_escaped, quoteState?_quote]
      · by_cases hc : needsEscape c = true
        · rw [if_pos hc, quoteState?_escaped, quoteState?_plain hcq hcb, hrest]
          simp [hcq]
        · rw [if_neg hc, quoteState?_escaped, hrest]
          simp [hcq]

/-! ## Backslashes that stand last -/

/-- How many backslashes stand last in a text. -/
def backslashesAtEnd (cs : List Char) : Nat := (cs.reverse.takeWhile (· == backslash)).length

theorem backslashesAtEnd_concat (cs : List Char) (c : Char) :
    backslashesAtEnd (cs ++ [c]) = if c = backslash then backslashesAtEnd cs + 1 else 0 := by
  by_cases hc : c = backslash <;> simp [backslashesAtEnd, hc]

/-- The backslashes that stand last are those behind the last character of another kind. -/
theorem backslashesAtEnd_append (hc : c ≠ backslash) (cs ds : List Char) :
    backslashesAtEnd (cs ++ c :: ds) = backslashesAtEnd ds := by
  induction ds using List.reverseRecOn with
  | nil => rw [backslashesAtEnd_concat, if_neg hc]; rfl
  | append_singleton ds d ih =>
    rw [← List.cons_append, ← List.append_assoc, backslashesAtEnd_concat,
      backslashesAtEnd_concat, ih]

/-- An open backslash is the last one of an odd number of backslashes. -/
theorem backslashesAtEnd_mod_two {escaped : Bool} (hq : q ≠ backslash)
    (h : quoteState? q false cs = some escaped) :
    backslashesAtEnd cs % 2 = if escaped then 1 else 0 := by
  induction cs using List.reverseRecOn generalizing escaped with
  | nil => cases h; rfl
  | append_singleton cs c ih =>
    rw [backslashesAtEnd_concat]
    by_cases hc : c = backslash
    · subst hc
      rw [quoteState?_append] at h
      obtain ⟨before, hbefore, hlast⟩ := Option.bind_eq_some_iff.1 h
      have hmod := ih hbefore
      rw [if_pos rfl]
      cases before with
      | true =>
        cases hlast
        have hodd : backslashesAtEnd cs % 2 = 1 := hmod
        show (backslashesAtEnd cs + 1) % 2 = 0
        omega
      | false =>
        rw [quoteState?_backslash hq] at hlast
        cases hlast
        have heven : backslashesAtEnd cs % 2 = 0 := hmod
        show (backslashesAtEnd cs + 1) % 2 = 1
        omega
    · rw [quoteState?_concat_eq_false hc h, if_neg hc]
      rfl

end FormLetter
