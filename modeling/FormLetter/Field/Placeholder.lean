import FormLetter.Text.Blank

/-!
# Placeholders

A placeholder stands in a text for the value of a field. It is the path of the field between
double brackets, with blanks around it if one likes, and with a flag before the path if the field
is required. Brackets and blanks cannot stand in a path.

* `source_pieces`: a text is divided without loss into plain characters and placeholders.
-/

namespace FormLetter

/-- The character before a path that makes its field required. -/
def requiredFlag : Char := '*'

/-- A reference in a text to the value of a field. -/
structure Placeholder where
  path : String
  required : Bool
  deriving DecidableEq

/-- The characters that delimit placeholders. -/
def isBracket (c : Char) : Bool := c == '[' || c == ']'

/-- Whether a text without brackets is a path: it has characters, and no blanks. -/
def isFieldPath (cs : List Char) : Bool := !cs.isEmpty && cs.all fun c => !isBlank c

namespace Placeholder

/-- The placeholder with the given characters between its brackets. The flag is only a flag if a
path follows it. -/
def ofContent? (content : List Char) : Option Placeholder :=
  let bare := trim content
  let flagged :=
    match bare with
    | c :: cs => if c = requiredFlag then trimStart cs else []
    | [] => []
  if isFieldPath flagged then some ⟨String.ofList flagged, true⟩
  else if isFieldPath bare then some ⟨String.ofList bare, false⟩
  else none

-- A flag alone is a path like any other.
example : ofContent? [requiredFlag] = some ⟨"*", false⟩ := by decide

/-- Reads a placeholder at the start of a text: the characters it takes up, what it is, and what
follows. -/
def readFirst? : List Char → Option (List Char × Placeholder × List Char)
  | '[' :: '[' :: cs =>
    let content := cs.takeWhile fun c => !isBracket c
    match cs.dropWhile fun c => !isBracket c with
    | ']' :: ']' :: rest =>
      (ofContent? content).map fun p => ('[' :: '[' :: content ++ [']', ']'], p, rest)
    | _ => none
  | _ => none

theorem append_readFirst? {cs source rest : List Char} {p : Placeholder}
    (h : readFirst? cs = some (source, p, rest)) : source ++ rest = cs := by
  unfold readFirst? at h
  split at h
  · rename_i cs
    dsimp only at h
    split at h
    · rename_i rest' hrest
      obtain ⟨q, _, hq⟩ := Option.map_eq_some_iff.1 h
      simp only [Prod.mk.injEq] at hq
      obtain ⟨rfl, rfl, rfl⟩ := hq
      have := List.takeWhile_append_dropWhile (p := fun c => !isBracket c) (l := cs)
      rw [hrest] at this
      simpa using this
    · cases h
  · cases h

theorem source_ne_nil {cs source rest : List Char} {p : Placeholder}
    (h : readFirst? cs = some (source, p, rest)) : source ≠ [] := by
  unfold readFirst? at h
  split at h
  · dsimp only at h
    split at h
    · obtain ⟨q, _, hq⟩ := Option.map_eq_some_iff.1 h
      simp only [Prod.mk.injEq] at hq
      rw [← hq.1]
      simp
    · cases h
  · cases h

theorem readFirst?_length {cs source rest : List Char} {p : Placeholder}
    (h : readFirst? cs = some (source, p, rest)) : rest.length < cs.length := by
  have := List.length_pos_iff.2 (source_ne_nil h)
  rw [← append_readFirst? h, List.length_append]
  omega

end Placeholder

/-! ## The pieces of a text -/

/-- A piece of a text. -/
inductive Piece where
  /-- A character that belongs to no placeholder. -/
  | plain (c : Char)
  /-- A placeholder, with the characters it takes up. -/
  | field (source : List Char) (placeholder : Placeholder)
  deriving DecidableEq

/-- The characters that a piece takes up. -/
def Piece.source : Piece → List Char
  | .plain c => [c]
  | .field source _ => source

/-- The placeholder that a piece is. -/
def Piece.placeholder? : Piece → Option Placeholder
  | .plain _ => none
  | .field _ p => some p

/-- Divides a text into plain characters and placeholders. Of placeholders that overlap, the one
that begins first counts. -/
def pieces (cs : List Char) : List Piece :=
  match h : Placeholder.readFirst? cs with
  | some (source, p, rest) =>
    have := Placeholder.readFirst?_length h
    .field source p :: pieces rest
  | none =>
    match cs with
    | [] => []
    | c :: cs => .plain c :: pieces cs
termination_by cs.length

/-- The placeholders of a text, from left to right. -/
def placeholders (s : String) : List Placeholder :=
  (pieces s.toList).filterMap Piece.placeholder?

/-- Whether a text has a placeholder. -/
def hasPlaceholder (s : String) : Bool := !(placeholders s).isEmpty

theorem pieces_nil : pieces [] = [] := by
  rw [pieces]
  rfl

theorem pieces_of_readFirst? {cs source rest : List Char} {p : Placeholder}
    (h : Placeholder.readFirst? cs = some (source, p, rest)) :
    pieces cs = .field source p :: pieces rest := by
  rw [pieces]
  split <;> simp_all

theorem pieces_cons {c : Char} {cs : List Char} (h : Placeholder.readFirst? (c :: cs) = none) :
    pieces (c :: cs) = .plain c :: pieces cs := by
  rw [pieces]
  split <;> simp_all

/-- Nothing is lost and nothing is read twice. -/
theorem source_pieces (cs : List Char) : (pieces cs).flatMap Piece.source = cs := by
  induction hn : cs.length using Nat.strongRecOn generalizing cs with
  | _ n ih =>
    subst hn
    cases hr : Placeholder.readFirst? cs with
    | some r =>
      obtain ⟨source, p, rest⟩ := r
      rw [pieces_of_readFirst? hr, List.flatMap_cons,
        ih _ (Placeholder.readFirst?_length hr) rest rfl]
      exact Placeholder.append_readFirst? hr
    | none =>
      cases cs with
      | nil => rw [pieces_nil, List.flatMap_nil]
      | cons c cs =>
        rw [pieces_cons hr, List.flatMap_cons, ih cs.length (Nat.lt_succ_self _) cs rfl]
        rfl

end FormLetter
