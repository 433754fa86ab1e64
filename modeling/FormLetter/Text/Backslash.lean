/-!
# Backslash escapes

Between two quotes a backslash makes the next character stand for itself, whatever it is.
`readQuoted` reads up to the closing quote, and `escape` writes a text so that it can stand
between quotes of either kind.

* `readQuoted_quote`, `readQuoted_backslash`, `readQuoted_plain`: what the first character does.
* `readQuoted_length`: what follows the closing quote is shorter than what was read.
-/

namespace FormLetter

/-- The escape character. -/
def backslash : Char := '\\'

/-- The characters that `escape` protects: the backslash and both quotes. -/
def needsEscape (c : Char) : Bool := c == backslash || c == '\x27' || c == '\x22'

/-- Puts a backslash before every backslash and quote. -/
def escape : List Char → List Char
  | [] => []
  | c :: cs => if needsEscape c then backslash :: c :: escape cs else c :: escape cs

/-- Reads a quoted text whose opening quote has been read: the characters that stand in it, and
what follows its closing quote. There is none if the text ends before the closing quote. -/
def readQuoted (quote : Char) : List Char → Option (List Char × List Char)
  | [] => none
  | [c] => if c = quote then some ([], []) else none
  | c :: d :: cs =>
    if c = quote then some ([], d :: cs)
    else if c = backslash then (readQuoted quote cs).map fun (body, rest) => (d :: body, rest)
    else (readQuoted quote (d :: cs)).map fun (body, rest) => (c :: body, rest)

theorem readQuoted_quote (q : Char) (cs : List Char) : readQuoted q (q :: cs) = some ([], cs) := by
  cases cs <;> simp [readQuoted]

theorem readQuoted_backslash {q : Char} (h : q ≠ backslash) (d : Char) (cs : List Char) :
    readQuoted q (backslash :: d :: cs) =
      (readQuoted q cs).map fun (body, rest) => (d :: body, rest) := by
  simp [readQuoted, Ne.symm h]

theorem readQuoted_plain {q c : Char} (hq : c ≠ q) (hb : c ≠ backslash) (cs : List Char) :
    readQuoted q (c :: cs) = (readQuoted q cs).map fun (body, rest) => (c :: body, rest) := by
  cases cs <;> simp [readQuoted, hq, hb]

theorem readQuoted_length {q : Char} {cs body rest : List Char}
    (h : readQuoted q cs = some (body, rest)) : rest.length < cs.length := by
  induction cs using readQuoted.induct q generalizing body rest with
  | case1 => simp [readQuoted] at h
  | case2 => simp_all [readQuoted]
  | case3 c hc => simp [readQuoted, hc] at h
  | case4 d cs => simp_all [readQuoted]
  | case5 d cs hc ih =>
    rw [readQuoted, if_neg hc, if_pos rfl, Option.map_eq_some_iff] at h
    obtain ⟨⟨b, r⟩, hr, he⟩ := h
    have := ih hr
    simp only [Prod.mk.injEq] at he
    simp only [List.length_cons, ← he.2]
    omega
  | case6 c d cs hc hb ih =>
    rw [readQuoted, if_neg hc, if_neg hb, Option.map_eq_some_iff] at h
    obtain ⟨⟨b, r⟩, hr, he⟩ := h
    have := ih hr
    simp only [Prod.mk.injEq] at he
    simp only [List.length_cons, ← he.2] at this ⊢
    omega

end FormLetter
