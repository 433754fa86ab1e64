import FormLetter.Proofs.Lexing
import FormLetter.Proofs.Quoting
import FormLetter.Proofs.Scanning

/-!
# Where tokens and placeholders stand

The tokens of a condition and the placeholders of a text, each with its characters and with all that
stands before it. So it can be said that a placeholder stands within a token.

* `item_locatedTokens`: the located tokens of a text are its tokens.
* `Token.exists_of_readAt_isText`: a token that is a text is one between two quotes.
* `Token.text_induction`: induction on a text token by token.
* `Located.Within.strict`: a placeholder within such a token stands between its quotes.
* `exists_pieces_of_behind`, `exists_pieces_of_apart`: a text may be cut where no placeholder
  reaches over the border.
-/

namespace FormLetter

/-- A part of a text that is read as some item, with what stands before it. -/
structure Located (α : Type) where
  before : List Char
  source : List Char
  item : α
  deriving DecidableEq

namespace Located

variable {α β : Type}

/-- Where the part ends. -/
def stop (part : Located α) : Nat := part.before.length + part.source.length

/-- One part of a text lies within another one. -/
def Within (inner : Located α) (outer : Located β) : Prop :=
  outer.before.length ≤ inner.before.length ∧ inner.stop ≤ outer.stop

instance (inner : Located α) (outer : Located β) : Decidable (inner.Within outer) :=
  inferInstanceAs (Decidable (_ ∧ _))

/-- The part stands in a text. -/
def StandsIn (part : Located α) (cs : List Char) : Prop :=
  ∃ behind, cs = part.before ++ (part.source ++ behind)

end Located

/-! ## Tokens -/

/-- The tokens of a text, behind what stands before it. -/
def locatedTokens (before cs : List Char) : List (Located Token) :=
  match h : Token.readFirst? cs with
  | none => []
  | some (token, rest) =>
    have := Token.readFirst?_length h
    let start := before ++ cs.takeWhile isBlank
    let source := (trimStart cs).take ((trimStart cs).length - rest.length)
    ⟨start, source, token⟩ :: locatedTokens (start ++ source) rest
termination_by cs.length

theorem locatedTokens_eq (before cs : List Char) :
    locatedTokens before cs =
      match Token.readFirst? cs with
      | none => []
      | some (token, rest) =>
        let start := before ++ cs.takeWhile isBlank
        let source := (trimStart cs).take ((trimStart cs).length - rest.length)
        ⟨start, source, token⟩ :: locatedTokens (start ++ source) rest := by
  rw [locatedTokens]
  split <;> simp_all

/-- The located tokens of a text are its tokens. -/
theorem item_locatedTokens (before cs : List Char) :
    (locatedTokens before cs).map Located.item = Token.readAll cs := by
  induction hn : cs.length using Nat.strongRecOn generalizing before cs with
  | _ n ih =>
    subst hn
    rw [locatedTokens_eq, Token.readAll_eq]
    cases hread : Token.readFirst? cs with
    | none => rfl
    | some r =>
      obtain ⟨token, rest⟩ := r
      exact congrArg (token :: ·) (ih _ (Token.readFirst?_length hread) _ rest rfl)

namespace Token

variable {c : Char} {blanks front cs rest : List Char} {t : Token}

/-- Whether a token is a text between quotes. -/
def isText : Token → Bool
  | .literal (.text _) => true
  | _ => false

theorem isText_ofNumeral (run : List Char) : (ofNumeral run).isText = false := by
  unfold ofNumeral
  split <;> rfl

theorem isText_ofWord (word : List Char) : (ofWord word).isText = false := by
  unfold ofWord
  split_ifs
  · rfl
  · rfl
  · rfl
  · split <;> rfl

theorem isText_ofSingle (c : Char) : (ofSingle c).isText = false := by
  unfold ofSingle
  split_ifs <;> rfl

/-- Only a quote begins a text. -/
theorem isText_readAt (hquote : isQuote c = false) (cs : List Char) :
    (readAt c cs).1.isText = false := by
  rcases readAt_cases hquote cs with hdigit | hword | ⟨op, rest, hop⟩ | ⟨-, -, -, hread⟩
  · rw [readAt_digit hdigit]
    exact isText_ofNumeral _
  · rw [readAt_wordStart hword]
    exact isText_ofWord _
  · rw [readAt_operator hop]
    rfl
  · rw [hread]
    exact isText_ofSingle c

/-- A text is what stands between two quotes of a kind, up to the first that is not escaped. -/
theorem exists_of_readAt_isText (ht : t.isText = true) (h : readAt c cs = (t, rest)) :
    isQuote c = true ∧
      ∃ inner, cs = inner ++ c :: rest ∧ quoteState? c false inner = some false := by
  have hquote : isQuote c = true := by
    rw [← Bool.not_eq_false]
    intro hquote
    have hread := isText_readAt hquote cs
    rw [h, ht] at hread
    cases hread
  refine ⟨hquote, ?_⟩
  rw [readAt_quote hquote] at h
  cases hread : readQuoted c cs with
  | none =>
    rw [hread] at h
    cases h
    cases ht
  | some r =>
    rw [hread] at h
    cases h
    exact exists_of_readQuoted hread

/-- A quote without a closing one takes up the whole text. -/
theorem eq_nil_of_readAt_quote (hquote : isQuote c = true) (ht : t.isText = false)
    (h : readAt c cs = (t, rest)) : rest = [] := by
  rw [readAt_quote hquote] at h
  cases hread : readQuoted c cs with
  | none =>
    rw [hread] at h
    cases h
    rfl
  | some r =>
    rw [hread] at h
    cases h
    cases ht

/-- A token begins a text that goes on with what follows the token. -/
theorem exists_append_of_readAt (h : readAt c cs = (t, rest)) : ∃ front, cs = front ++ rest := by
  by_cases hquote : isQuote c = true
  · rw [readAt_quote hquote] at h
    cases hread : readQuoted c cs with
    | none =>
      rw [hread] at h
      cases h
      exact ⟨cs, (List.append_nil cs).symm⟩
    | some r =>
      rw [hread] at h
      cases h
      obtain ⟨inner, hinner, -⟩ := exists_of_readQuoted hread
      exact ⟨inner ++ [c], by rw [hinner, List.append_assoc]; rfl⟩
  · rw [Bool.not_eq_true] at hquote
    rcases readAt_cases hquote cs with hdigit | hword | ⟨op, behind, hop⟩ | ⟨-, -, -, hread⟩
    · rw [readAt_digit hdigit, Prod.mk.injEq] at h
      exact ⟨_, h.2 ▸ List.takeWhile_append_dropWhile.symm⟩
    · rw [readAt_wordStart hword, Prod.mk.injEq] at h
      exact ⟨_, h.2 ▸ List.takeWhile_append_dropWhile.symm⟩
    · rw [readAt_operator hop, Prod.mk.injEq] at h
      obtain ⟨hsymbol, -⟩ := Operator.readFirst?_eq_some_iff.1 hop
      obtain ⟨d, more, hfirst⟩ := op.exists_symbol_eq_cons
      rw [hfirst, List.cons_append, List.cons.injEq] at hsymbol
      exact ⟨more, h.2 ▸ hsymbol.2⟩
    · rw [hread, Prod.mk.injEq] at h
      exact ⟨[], h.2⟩

/-- Induction on a text token by token: it is blank, or its first token stands behind its leading
blanks. -/
theorem text_induction {motive : List Char → Prop}
    (blank : ∀ cs, (∀ d ∈ cs, isBlank d = true) → motive cs)
    (token : ∀ blanks c front rest t, (∀ d ∈ blanks, isBlank d = true) → isBlank c = false →
      readAt c (front ++ rest) = (t, rest) → motive rest →
      motive (blanks ++ c :: (front ++ rest)))
    (cs : List Char) : motive cs := by
  induction hn : cs.length using Nat.strongRecOn generalizing cs with
  | _ n ih =>
    subst hn
    have hsplit := List.takeWhile_append_dropWhile (p := isBlank) (l := cs)
    have hblanks : ∀ d ∈ cs.takeWhile isBlank, isBlank d = true :=
      List.all_eq_true.1 List.all_takeWhile
    cases hrest : cs.dropWhile isBlank with
    | nil =>
      rw [hrest, List.append_nil] at hsplit
      exact blank cs (hsplit ▸ hblanks)
    | cons c more =>
      have hc : isBlank c = false := by
        have hhead := List.head?_dropWhile_not isBlank cs
        rw [hrest] at hhead
        simpa using hhead
      obtain ⟨t, rest, hread⟩ : ∃ t rest, readAt c more = (t, rest) := ⟨_, _, rfl⟩
      obtain ⟨front, rfl⟩ := exists_append_of_readAt hread
      rw [hrest] at hsplit
      have hshort : rest.length < cs.length := by
        rw [← hsplit]
        simp only [List.length_append, List.length_cons]
        omega
      rw [← hsplit]
      exact token _ c front rest t hblanks hc hread (ih _ hshort rest rfl)

end Token

section

variable {before blanks front cs rest : List Char} {c : Char} {t : Token}

theorem locatedTokens_of_blanks (h : ∀ d ∈ cs, isBlank d = true) (before : List Char) :
    locatedTokens before cs = [] := by
  rw [← List.map_eq_nil_iff, item_locatedTokens, Token.readAll_of_blanks h]

theorem locatedTokens_of_readAt (hblanks : ∀ d ∈ blanks, isBlank d = true)
    (hc : isBlank c = false) (h : Token.readAt c (front ++ rest) = (t, rest))
    (before : List Char) :
    locatedTokens before (blanks ++ c :: (front ++ rest)) =
      ⟨before ++ blanks, c :: front, t⟩ ::
        locatedTokens (before ++ (blanks ++ c :: front)) rest := by
  have htrim : trimStart (blanks ++ c :: (front ++ rest)) = c :: (front ++ rest) := by
    rw [trimStart_append hblanks, trimStart, List.dropWhile_cons_of_neg (by simp [hc])]
  obtain ⟨htake, -⟩ := takeWhile_dropWhile_append hblanks
    (show ∀ d, (c :: (front ++ rest)).head? = some d → isBlank d = false from
      fun d hd => Option.some.inj hd ▸ hc)
  have hsource : (c :: (front ++ rest)).take ((c :: (front ++ rest)).length - rest.length) =
      c :: front := by
    rw [← List.cons_append, List.length_append, Nat.add_sub_cancel, List.take_left]
  rw [locatedTokens_eq, Token.readFirst?, htrim]
  simp only [h, htake, hsource, List.append_assoc]

/-- The tokens of a text stand in it, behind what stands before it, and those that are texts are
quoted. -/
theorem of_mem_locatedTokens {part : Located Token} (h : part ∈ locatedTokens before cs) :
    before.length ≤ part.before.length ∧ part.StandsIn (before ++ cs) ∧
      (part.item.isText = true →
        ∃ q inner, isQuote q = true ∧ part.source = q :: inner ++ [q]) := by
  induction cs using Token.text_induction generalizing before with
  | blank cs hblank =>
    rw [locatedTokens_of_blanks hblank] at h
    cases h
  | token blanks c front rest t hblanks hc hread ih =>
    rw [locatedTokens_of_readAt hblanks hc hread] at h
    rcases List.mem_cons.1 h with rfl | h
    · refine ⟨by simp, ⟨rest, by simp⟩, fun ht => ?_⟩
      obtain ⟨hquote, inner, hinner, -⟩ := Token.exists_of_readAt_isText ht hread
      refine ⟨c, inner, hquote, congrArg (c :: ·) ?_⟩
      rw [← List.singleton_append, ← List.append_assoc] at hinner
      exact List.append_cancel_right hinner
    · obtain ⟨hle, hstands, hquoted⟩ := ih h
      rw [List.length_append] at hle
      refine ⟨by omega, ?_, hquoted⟩
      simpa using hstands

end

/-! ## Placeholders -/

/-- The placeholders among some pieces, behind what stands before the pieces. -/
def locatedFields (before : List Char) : List Piece → List (Located Placeholder)
  | [] => []
  | .plain c :: ps => locatedFields (before ++ [c]) ps
  | .field source p :: ps => ⟨before, source, p⟩ :: locatedFields (before ++ source) ps

section

variable {before front rest : List Char} {ps qs : List Piece} {part : Located Placeholder}

theorem mem_locatedFields_cons {piece : Piece}
    (h : part ∈ locatedFields (before ++ piece.source) ps) :
    part ∈ locatedFields before (piece :: ps) := by
  cases piece with
  | plain c => exact h
  | field source p => exact .tail _ h

theorem locatedFields_append (before : List Char) (ps qs : List Piece) :
    locatedFields before (ps ++ qs) =
      locatedFields before ps ++ locatedFields (before ++ ps.flatMap Piece.source) qs := by
  induction ps generalizing before with
  | nil => simp [locatedFields]
  | cons piece ps ih => cases piece <;> simp [locatedFields, ih, Piece.source]

theorem eq_nil_of_source_eq_nil (hwritten : ∀ w p, .field w p ∈ ps → Placeholder.Written p w)
    (h : ps.flatMap Piece.source = []) : ps = [] := by
  cases ps with
  | nil => rfl
  | cons piece ps =>
    have hsource := (List.append_eq_nil_iff.1 h).1
    cases piece with
    | plain c => cases hsource
    | field w p => exact absurd hsource (hwritten w p (.head _)).ne_nil

theorem locatedFields_map_plain (before cs : List Char) :
    locatedFields before (cs.map .plain) = [] := by
  induction cs generalizing before with
  | nil => rfl
  | cons c cs ih => exact ih _

/-- The placeholders of some pieces stand in the text of the pieces, and are among the pieces. -/
theorem of_mem_locatedFields (h : part ∈ locatedFields before ps) :
    before.length ≤ part.before.length ∧
      part.stop ≤ before.length + (ps.flatMap Piece.source).length ∧
      part.StandsIn (before ++ ps.flatMap Piece.source) ∧
      .field part.source part.item ∈ ps := by
  induction ps generalizing before with
  | nil => cases h
  | cons piece ps ih =>
    cases piece with
    | plain c =>
      obtain ⟨hle, hstop, hstands, hmem⟩ := ih h
      rw [List.length_append, List.length_singleton] at hle hstop
      refine ⟨by omega, ?_, by simpa [Piece.source] using hstands, .tail _ hmem⟩
      rw [List.flatMap_cons, List.length_append]
      show part.stop ≤ before.length + (1 + _)
      omega
    | field source p =>
      rcases List.mem_cons.1 h with rfl | h
      · refine ⟨Nat.le_refl _, ?_, ⟨ps.flatMap Piece.source, rfl⟩, .head _⟩
        rw [List.flatMap_cons, List.length_append]
        exact Nat.add_le_add_left (Nat.le_add_right _ _) _
      · obtain ⟨hle, hstop, hstands, hmem⟩ := ih h
        rw [List.length_append] at hle hstop
        refine ⟨by omega, ?_, by simpa [Piece.source] using hstands, .tail _ hmem⟩
        rw [List.flatMap_cons, List.length_append]
        show part.stop ≤ before.length + (source.length + _)
        omega

/-- A placeholder within a quoted text stands between the quotes, since it begins and ends with
brackets. -/
theorem Located.Within.strict {token : Located Token} {cs : List Char} (h : part.Within token)
    (hpart : part.StandsIn cs) (hwritten : part.item.Written part.source)
    (htoken : token.StandsIn cs)
    (hquoted : ∃ q inner, isQuote q = true ∧ token.source = q :: inner ++ [q]) :
    token.before.length < part.before.length ∧ part.stop < token.stop := by
  obtain ⟨hstart, hstop⟩ := h
  obtain ⟨behind, rfl⟩ := hpart
  obtain ⟨behind', htext⟩ := htoken
  obtain ⟨content, hsource, -, -⟩ := hwritten
  obtain ⟨q, inner, hq, htsource⟩ := hquoted
  have hne : '[' ≠ q ∧ ']' ≠ q := by
    constructor
    all_goals
      rintro rfl
      cases hq
  constructor
  · refine Nat.lt_of_le_of_ne hstart fun hsame => hne.1 ?_
    have hhead := (List.append_inj htext hsame.symm).2
    rw [hsource, htsource] at hhead
    exact (List.cons.inj hhead).1
  · refine Nat.lt_of_le_of_ne hstop fun hsame => hne.2 ?_
    rw [← List.append_assoc, ← List.append_assoc] at htext
    have hends := (List.append_inj htext (by simpa [stop] using hsame)).1
    have hlast : part.before ++ '[' :: '[' :: (content ++ [']']) ++ [']'] =
        token.before ++ q :: inner ++ [q] := by
      rw [hsource, htsource] at hends
      simpa using hends
    exact (List.cons.inj (List.append_inj' hlast rfl).2).1

/-- The pieces up to a border are plain if all placeholders stand behind it. -/
theorem exists_pieces_of_behind (before : List Char)
    (h : ps.flatMap Piece.source = front ++ rest)
    (hbehind : ∀ part ∈ locatedFields before ps,
      before.length + front.length ≤ part.before.length) :
    ∃ qs, ps = front.map .plain ++ qs ∧ qs.flatMap Piece.source = rest := by
  induction front generalizing before ps with
  | nil => exact ⟨ps, rfl, h⟩
  | cons c front ih =>
    obtain _ | ⟨piece, ps⟩ := ps
    · cases h
    cases piece with
    | plain d =>
      obtain ⟨rfl, htail⟩ := List.cons.inj h
      obtain ⟨qs, rfl, hqs⟩ := ih (before ++ [d]) htail fun part hpart => by
        have := hbehind part hpart
        rw [List.length_append, List.length_singleton]
        rw [List.length_cons] at this
        omega
      exact ⟨qs, rfl, hqs⟩
    | field source p =>
      have := hbehind _ (.head _)
      rw [List.length_cons] at this
      dsimp only at this
      omega

/-- A character that belongs to no placeholder is a piece. -/
theorem exists_pieces_of_apart (before : List Char) {c : Char}
    (h : ps.flatMap Piece.source = front ++ c :: rest)
    (hapart : ∀ part ∈ locatedFields before ps,
      part.stop ≤ before.length + front.length ∨
        before.length + front.length < part.before.length) :
    ∃ qs rs, ps = qs ++ .plain c :: rs ∧ qs.flatMap Piece.source = front ∧
      rs.flatMap Piece.source = rest := by
  induction ps generalizing before front with
  | nil => simp at h
  | cons piece ps ih =>
    cases piece with
    | plain d =>
      obtain _ | ⟨e, front⟩ := front
      · obtain ⟨rfl, htail⟩ := List.cons.inj h
        exact ⟨[], ps, rfl, rfl, htail⟩
      · obtain ⟨rfl, htail⟩ := List.cons.inj h
        obtain ⟨qs, rs, rfl, hqs, hrs⟩ := ih (before ++ [d]) htail fun part hpart => by
          have := hapart part hpart
          rw [List.length_append, List.length_singleton]
          rw [List.length_cons] at this
          omega
        exact ⟨.plain d :: qs, rs, rfl, congrArg (d :: ·) hqs, hrs⟩
    | field source p =>
      have hle : source.length ≤ front.length := by
        have := hapart _ (.head _)
        simp only [Located.stop] at this
        omega
      obtain ⟨more, rfl⟩ := List.prefix_of_prefix_length_le ⟨ps.flatMap Piece.source, h⟩
        ⟨c :: rest, rfl⟩ hle
      have htail : ps.flatMap Piece.source = more ++ c :: rest := by
        rw [List.flatMap_cons, List.append_assoc] at h
        exact List.append_cancel_left h
      obtain ⟨qs, rs, rfl, hqs, hrs⟩ := ih (before ++ source) htail fun part hpart => by
        have := hapart part (.tail _ hpart)
        simp only [List.length_append, Piece.source] at this ⊢
        omega
      exact ⟨.field source p :: qs, rs, rfl, congrArg (source ++ ·) hqs, hrs⟩

end

end FormLetter
