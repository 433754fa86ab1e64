import FormLetter.Condition.Token
import FormLetter.Number.Numeral
import FormLetter.Text.Leading

/-!
# Lexemes of conditions

How the text of a condition divides into tokens. Blanks separate tokens and mean nothing else.
A token takes as many characters as it can: numerals and words are maximal runs of their
characters, and of two operators that begin alike the longer one is meant.

* `Operator.readFirst?_symbol`: an operator's symbol reads as that operator.
* `Token.readFirst?_length`: what follows a token is shorter than the text.
* `Token.readAll_eq`: the tokens of a text are its first token and those of what follows.
-/

namespace FormLetter

/-! ## Characters -/

/-- The characters that quote a text. -/
def isQuote (c : Char) : Bool := c == '\x27' || c == '\x22'

/-- The characters of a numeral. -/
def isNumeralChar (c : Char) : Bool := isDigit c || c == '.'

/-- The characters that a word can begin with: ASCII letters and the underscore. -/
def isWordStart (c : Char) : Bool := c.isAlpha || c == '_'

/-- The characters of a name. -/
def isNameChar (c : Char) : Bool := isWordStart c || isDigit c

/-- The characters of a word: those of names, and points. -/
def isWordChar (c : Char) : Bool := isNameChar c || c == '.'

/-! ## Kinds of lexemes -/

/-- Reads an operator at the start of a text. -/
def Operator.readFirst? : List Char → Option (Operator × List Char)
  | '&' :: '&' :: rest => some (.and, rest)
  | '|' :: '|' :: rest => some (.or, rest)
  | '=' :: '=' :: rest => some (.compare .equal, rest)
  | '!' :: '=' :: rest => some (.compare .notEqual, rest)
  | '>' :: '=' :: rest => some (.compare .greaterOrEqual, rest)
  | '<' :: '=' :: rest => some (.compare .lessOrEqual, rest)
  | '>' :: rest => some (.compare .greater, rest)
  | '<' :: rest => some (.compare .less, rest)
  | _ => none

/-- The reference of a path written after the root. A last name that asks for a number of items is
not part of the path. -/
def Reference.ofPath (path : List Char) : Reference :=
  let ending := '.' :: countName.toList
  if path = countName.toList then ⟨"", true⟩
  else if ending.isSuffixOf path then
    ⟨String.ofList (path.take (path.length - ending.length)), true⟩
  else ⟨String.ofList path, false⟩

namespace Token

/-- The token of a run of digits and points. -/
def ofNumeral (run : List Char) : Token :=
  match Number.ofText? run with
  | some value => .literal (.number value)
  | none => .unknown (String.ofList run)

/-- The token of a word: a truth value in any letter case, the root, or a path that begins at the
root. -/
def ofWord (word : List Char) : Token :=
  if lowered word = "true".toList then .literal (.bool true)
  else if lowered word = "false".toList then .literal (.bool false)
  else if word = dataRoot.toList then .reference (Reference.ofPath [])
  else match after? (dataRoot ++ ".").toList word with
    | some path => .reference (Reference.ofPath path)
    | none => .unknown (String.ofList word)

/-- Reads the token that begins with the character `c`, of which `cs` is what follows. A quoted
text without its closing quote is unknown to the very end. -/
def readAt (c : Char) (cs : List Char) : Token × List Char :=
  if c = '(' then (.openParen, cs)
  else if c = ')' then (.closeParen, cs)
  else match Operator.readFirst? (c :: cs) with
    | some (op, rest) => (.operator op, rest)
    | none =>
      if isQuote c then
        match readQuoted c cs with
        | some (body, rest) => (.literal (.text (String.ofList body)), rest)
        | none => (.unknown (String.ofList (c :: cs)), [])
      else if isDigit c then
        (ofNumeral (c :: cs.takeWhile isNumeralChar), cs.dropWhile isNumeralChar)
      else if isWordStart c then
        (ofWord (c :: cs.takeWhile isWordChar), cs.dropWhile isWordChar)
      else (.unknown (String.ofList [c]), cs)

/-- Reads the first token of a text, if the text has any. -/
def readFirst? (cs : List Char) : Option (Token × List Char) :=
  match trimStart cs with
  | [] => none
  | c :: rest => some (readAt c rest)

theorem Operator.readFirst?_symbol (op : Operator) :
    Operator.readFirst? op.symbol.toList = some (op, []) := by
  rcases op with _ | _ | (_ | _ | _ | _ | _ | _) <;> rfl

theorem Operator.readFirst?_length {cs rest : List Char} {op : Operator}
    (h : Operator.readFirst? cs = some (op, rest)) : rest.length < cs.length := by
  unfold Operator.readFirst? at h
  split at h <;> cases h <;> simp only [List.length_cons] <;> omega

theorem length_readAt_le (c : Char) (cs : List Char) : (readAt c cs).2.length ≤ cs.length := by
  unfold readAt
  split
  · exact Nat.le_refl _
  · split
    · exact Nat.le_refl _
    · split
      · rename_i h
        exact Nat.le_of_lt_succ (Operator.readFirst?_length h)
      · split
        · split
          · rename_i h
            exact Nat.le_of_lt (readQuoted_length h)
          · exact Nat.zero_le _
        · split
          · exact (List.dropWhile_suffix _).length_le
          · split
            · exact (List.dropWhile_suffix _).length_le
            · exact Nat.le_refl _

theorem readFirst?_length {cs rest : List Char} {token : Token}
    (h : readFirst? cs = some (token, rest)) : rest.length < cs.length := by
  unfold readFirst? at h
  split at h
  · cases h
  · rename_i c more hmore
    have h1 := length_readAt_le c more
    have h2 := length_trimStart_le cs
    rw [hmore, List.length_cons] at h2
    rw [Option.some.inj h] at h1
    exact Nat.lt_of_le_of_lt h1 (Nat.lt_of_lt_of_le (Nat.lt_succ_self _) h2)

/-- The tokens of a text, in order. -/
def readAll (cs : List Char) : List Token :=
  match h : readFirst? cs with
  | none => []
  | some (token, rest) =>
    have := readFirst?_length h
    token :: readAll rest
termination_by cs.length

/-- The tokens of a condition's text, in order. -/
def ofText (s : String) : List Token := readAll s.toList

theorem readAll_eq (cs : List Char) :
    readAll cs =
      match readFirst? cs with
      | none => []
      | some (token, rest) => token :: readAll rest := by
  rw [readAll]
  split <;> simp_all

end Token

end FormLetter
