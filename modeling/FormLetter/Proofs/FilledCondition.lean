import FormLetter.Proofs.Located
import FormLetter.Repeat.Expansion
import Mathlib.Data.List.Forall2

/-!
# Conditions with values filled in

A copy of an element takes the values of its item into the text of its condition. Escaped values
that stand between quotes stay there, so that the condition keeps its tokens but for what its
texts say. There is one exception: behind a backslash that is still open, a value that begins
with a quote closes the text around it.

* `quoteState?_fill`: values filled in between two quotes leave the state of the reading as it was.
* `FieldSource.readAll_fill_alike`: the tokens of a condition are kept, token by token.
* `Job.ofText_fillAttribute_alike`: the same of the condition of a copy.
* `Job.ofText_fillAttribute_behind_backslash`: where it fails.
-/

namespace FormLetter

/-- Two tokens are the same, or both are texts between quotes. -/
def Token.Alike (t u : Token) : Prop := t = u ∨ (t.isText = true ∧ u.isText = true)

/-- A value cannot close the quoted text that its placeholder stands in: nothing is escaped where
the placeholder begins, or the value has characters other than backslashes, and the first of them
is not the quote. -/
def FieldSource.StaysWithin (source : FieldSource) (field : Located Placeholder)
    (token : Located Token) : Prop :=
  ∀ value ∈ source.get? field.item.path, backslashesAtEnd field.before % 2 = 0 ∨
    (value.toList.find? (· != backslash)).any (fun c => token.source.head? != some c) = true

instance (source : FieldSource) (field : Located Placeholder) (token : Located Token) :
    Decidable (source.StaysWithin field token) :=
  inferInstanceAs (Decidable (∀ value ∈ source.get? field.item.path, _ ∨ _))

/-! ## Between two quotes -/

theorem needsEscape_of_isQuote {q : Char} (h : isQuote q = true) : needsEscape q = true := by
  simp only [isQuote, needsEscape, Bool.or_eq_true] at h ⊢
  exact h.elim (fun h => .inl (.inr h)) .inr

section

variable {source : FieldSource} {q : Char} {ps : List Piece}

theorem flatMap_fillPiece_map_plain (source : FieldSource) (cs : List Char) :
    (cs.map Piece.plain).flatMap (source.fillPiece true) = cs := by
  rw [List.flatMap_map]
  exact List.flatMap_singleton' cs

/-- A placeholder ends in a bracket, so nothing is escaped behind it. -/
theorem Placeholder.Written.quoteState? {p : Placeholder} {w : List Char} (h : p.Written w)
    {escaped after : Bool} (hstate : quoteState? q escaped w = some after) : after = false := by
  obtain ⟨content, rfl, -, -⟩ := h
  refine quoteState?_concat_eq_false (show ']' ≠ backslash by decide)
    (show FormLetter.quoteState? q escaped ('[' :: '[' :: (content ++ [']']) ++ [']']) = _ from ?_)
  simpa using hstate

/-- Values filled in between two quotes leave the state of the reading as it was. -/
theorem quoteState?_fill (hq : needsEscape q = true) (hb : q ≠ backslash)
    (opened : List Char) {done : List Char} {escaped after : Bool}
    (hdone : quoteState? q false done = some escaped)
    (hwritten : ∀ w p, .field w p ∈ ps → Placeholder.Written p w)
    (token : Located Token) (htoken : token.source.head? = some q)
    (hwithin : ∀ field ∈ locatedFields (opened ++ q :: done) ps, source.StaysWithin field token)
    (h : quoteState? q escaped (ps.flatMap Piece.source) = some after) :
    quoteState? q escaped (ps.flatMap (source.fillPiece true)) = some after := by
  induction ps generalizing done escaped with
  | nil => exact h
  | cons piece ps ih =>
    rw [List.flatMap_cons, quoteState?_append] at h ⊢
    obtain ⟨between, hpiece, hrest⟩ := Option.bind_eq_some_iff.1 h
    have hstep : quoteState? q false (done ++ piece.source) = some between := by
      rw [quoteState?_append, hdone]
      exact hpiece
    have hmore : ∀ field ∈ locatedFields (opened ++ q :: (done ++ piece.source)) ps,
        source.StaysWithin field token := by
      intro field hfield
      refine hwithin field (mem_locatedFields_cons ?_)
      rwa [List.append_assoc, List.cons_append]
    have hfilled : quoteState? q escaped (source.fillPiece true piece) = some between := by
      cases piece with
      | plain c => exact hpiece
      | field w p =>
        have hbetween : between = false := (hwritten w p (.head _)).quoteState? hpiece
        rw [FieldSource.fillPiece]
        cases hvalue : source.get? p.path with
        | none => exact hpiece
        | some value =>
          show quoteState? q escaped (escape value.toList) = _
          rw [hbetween]
          cases escaped with
          | false => exact quoteState?_escape hq hb _
          | true =>
            have hparity := backslashesAtEnd_mod_two hb hdone
            rcases hwithin _ (.head _) value hvalue with heven | hother
            · dsimp only at heven
              rw [backslashesAtEnd_append hb, hparity] at heven
              cases heven
            · obtain ⟨c, hc, hcq⟩ := (Option.any_eq_true _ _).1 hother
              rw [htoken] at hcq
              rw [quoteState?_open_escape hq hb, hc]
              exact if_neg fun h => by simp [h] at hcq
    rw [hfilled]
    exact ih hstep (fun w p hp => hwritten w p (.tail _ hp)) hmore hrest

end

/-! ## Whole conditions -/

namespace FieldSource

/-- A placeholder stands between the quotes of a text, and its value cannot close the text. -/
structure Enclosed (source : FieldSource) (field : Located Placeholder) (token : Located Token) :
    Prop where
  isText : token.item.isText = true
  starts : token.before.length < field.before.length
  stops : field.stop < token.stop
  staysWithin : source.StaysWithin field token

/-- What follows an operator, a word or the like goes on as before: if a placeholder stands in it,
the quote that opens its text stands before it. -/
theorem sameNext_fill (source : FieldSource) (before : List Char) {ps : List Piece}
    (hfields : ∀ field ∈ locatedFields before ps, before.length < field.before.length) :
    SameNext (ps.flatMap Piece.source) (ps.flatMap (source.fillPiece true)) := by
  cases ps with
  | nil => exact nofun
  | cons piece ps =>
    cases piece with
    | plain c => exact fun d hd => .inl hd
    | field w p => exact absurd (hfields _ (.head _)) (Nat.lt_irrefl _)

/-- The first token of a condition is kept as values are filled in: behind the same blanks a token
like it is read, and what follows that token is what the values make of what followed it. -/
def KeepsFirst (source : FieldSource) (ps : List Piece) (blanks : List Char) (c : Char)
    (front rest : List Char) (t : Token) : Prop :=
  ∃ qs rs filled u, ps = qs ++ rs ∧ qs.flatMap Piece.source = blanks ++ c :: front ∧
    rs.flatMap Piece.source = rest ∧
    qs.flatMap (source.fillPiece true) = blanks ++ c :: filled ∧
    Token.readAt c (filled ++ rs.flatMap (source.fillPiece true)) =
      (u, rs.flatMap (source.fillPiece true)) ∧
    t.Alike u

section

variable {blanks front inner rest : List Char} {c : Char} {t : Token} {ps : List Piece}

/-- A token other than a text is kept if no placeholder stands in it. -/
theorem keepsFirst_of_not_isText (source : FieldSource) (before : List Char)
    (ht : t.isText = false) (hread : Token.readAt c (front ++ rest) = (t, rest))
    (hps : ps.flatMap Piece.source = blanks ++ c :: (front ++ rest))
    (hwritten : ∀ w p, .field w p ∈ ps → Placeholder.Written p w)
    (hbehind : ∀ field ∈ locatedFields before ps,
      (before ++ (blanks ++ c :: front)).length < field.before.length) :
    source.KeepsFirst ps blanks c front rest t := by
  obtain ⟨rs, rfl, hrs⟩ := exists_pieces_of_behind before
    (show ps.flatMap Piece.source = (blanks ++ c :: front) ++ rest by rw [hps]; simp)
    fun field hfield => by
      have := hbehind field hfield
      rw [List.length_append] at this
      omega
  refine ⟨(blanks ++ c :: front).map .plain, rs, front, t, rfl, flatMap_source_map_plain _, hrs,
    flatMap_fillPiece_map_plain source _, ?_, .inl rfl⟩
  by_cases hquote : isQuote c = true
  · -- A text without a closing quote has taken up everything.
    obtain rfl := Token.eq_nil_of_readAt_quote hquote ht hread
    obtain rfl := eq_nil_of_source_eq_nil
      (fun w p hp => hwritten w p (List.mem_append_right _ hp)) hrs
    exact hread
  · refine Token.readAt_of_next (Bool.not_eq_true _ ▸ hquote) hread (hrs ▸
      source.sameNext_fill (before ++ (blanks ++ c :: front)) fun field hfield => hbehind field ?_)
    rw [locatedFields_append, flatMap_source_map_plain]
    exact List.mem_append_right _ hfield

/-- A text is still one, and still ends where it did, if all placeholders in it are enclosed. -/
theorem keepsFirst_of_isText (source : FieldSource) (before : List Char) (ht : t.isText = true)
    (hquote : isQuote c = true) (hstate : quoteState? c false inner = some false)
    (hps : ps.flatMap Piece.source = blanks ++ c :: (inner ++ c :: rest))
    (hwritten : ∀ w p, .field w p ∈ ps → Placeholder.Written p w)
    (hfields : ∀ field ∈ locatedFields before ps,
      source.Enclosed field ⟨before ++ blanks, c :: (inner ++ [c]), t⟩ ∨
        (before ++ (blanks ++ c :: (inner ++ [c]))).length < field.before.length) :
    source.KeepsFirst ps blanks c (inner ++ [c]) rest t := by
  have hplaces : ∀ field ∈ locatedFields before ps,
      (source.Enclosed field ⟨before ++ blanks, c :: (inner ++ [c]), t⟩ ∧
        before.length + blanks.length < field.before.length ∧
        field.stop < before.length + blanks.length + inner.length + 2) ∨
      before.length + blanks.length + inner.length + 2 < field.before.length := by
    intro field hfield
    rcases hfields field hfield with henclosed | hbehind
    · have hstarts := henclosed.starts
      have hstops := henclosed.stops
      simp only [Located.stop, List.length_append, List.length_cons, List.length_nil]
        at hstarts hstops
      exact .inl ⟨henclosed, hstarts, by simp only [Located.stop]; omega⟩
    · simp only [List.length_append, List.length_cons, List.length_nil] at hbehind
      exact .inr (by omega)
  obtain ⟨ps, rfl, hsource⟩ := exists_pieces_of_behind before
    (show ps.flatMap Piece.source = (blanks ++ [c]) ++ (inner ++ c :: rest) by rw [hps]; simp)
    fun field hfield => by
      have := hplaces field hfield
      rw [List.length_append, List.length_singleton]
      omega
  rw [locatedFields_append, locatedFields_map_plain, flatMap_source_map_plain, List.nil_append]
    at hplaces
  obtain ⟨qs, rs, rfl, rfl, rfl⟩ := exists_pieces_of_apart (before ++ (blanks ++ [c])) hsource
    fun field hfield => by
      have := hplaces field hfield
      simp only [List.length_append, List.length_singleton]
      omega
  have hbackslash : c ≠ backslash := ne_backslash_of_isQuote hquote
  have hfill : quoteState? c false (qs.flatMap (source.fillPiece true)) = some false := by
    refine quoteState?_fill (needsEscape_of_isQuote hquote) hbackslash (before ++ blanks)
      (rfl : quoteState? c false [] = _) (fun w p hp => hwritten w p ?_)
      ⟨before ++ blanks, c :: (qs.flatMap Piece.source ++ [c]), t⟩ rfl (fun field hfield => ?_)
      hstate
    · exact List.mem_append_right _ (List.mem_append_left _ hp)
    · rw [List.append_assoc] at hfield
      obtain ⟨-, hstop, -⟩ := of_mem_locatedFields hfield
      simp only [Located.stop, List.length_append, List.length_singleton] at hstop
      rcases hplaces field (by rw [locatedFields_append]; exact List.mem_append_left _ hfield) with
        ⟨henclosed, -⟩ | hbehind
      · exact henclosed.staysWithin
      · omega
  obtain ⟨body, hbody⟩ := readQuoted_of_quoteState? hbackslash hfill
  refine ⟨(blanks ++ [c]).map .plain ++ (qs ++ [.plain c]), rs,
    qs.flatMap (source.fillPiece true) ++ [c], .literal (.text (String.ofList body)),
    by simp, ?_, rfl, ?_, ?_, .inr ⟨ht, rfl⟩⟩
  · rw [List.flatMap_append, flatMap_source_map_plain, List.flatMap_append, List.append_assoc]
    rfl
  · rw [List.flatMap_append, flatMap_fillPiece_map_plain, List.flatMap_append, List.append_assoc]
    rfl
  · rw [List.append_assoc, List.singleton_append, Token.readAt_quote hquote, hbody]

end

/-- The tokens of a condition in which all placeholders are enclosed are kept. -/
theorem readAll_fill_alike (source : FieldSource) (before : List Char) {cs : List Char}
    {ps : List Piece} (hps : ps.flatMap Piece.source = cs)
    (hwritten : ∀ w p, .field w p ∈ ps → Placeholder.Written p w)
    (hfields : ∀ field ∈ locatedFields before ps, ∃ token ∈ locatedTokens before cs,
      source.Enclosed field token) :
    List.Forall₂ Token.Alike (Token.readAll cs)
      (Token.readAll (ps.flatMap (source.fillPiece true))) := by
  induction cs using Token.text_induction generalizing before ps with
  | blank cs hblank =>
    rw [locatedTokens_of_blanks hblank] at hfields
    obtain ⟨qs, rfl, hqs⟩ := exists_pieces_of_behind before (hps.trans (List.append_nil cs).symm)
      fun field hfield => by
        obtain ⟨token, htoken, -⟩ := hfields field hfield
        cases htoken
    obtain rfl := eq_nil_of_source_eq_nil
      (fun w p hp => hwritten w p (List.mem_append_right _ hp)) hqs
    rw [List.append_nil, flatMap_fillPiece_map_plain, Token.readAll_of_blanks hblank]
    exact .nil
  | token blanks c front rest t hblanks hc hread ih =>
    rw [locatedTokens_of_readAt hblanks hc hread] at hfields
    have hplaces : ∀ field ∈ locatedFields before ps,
        source.Enclosed field ⟨before ++ blanks, c :: front, t⟩ ∨
          (before ++ (blanks ++ c :: front)).length < field.before.length := by
      intro field hfield
      obtain ⟨token, htoken, henclosed⟩ := hfields field hfield
      rcases List.mem_cons.1 htoken with rfl | htoken
      · exact .inl henclosed
      · exact .inr (Nat.lt_of_le_of_lt (of_mem_locatedTokens htoken).1 henclosed.starts)
    have hfirst : source.KeepsFirst ps blanks c front rest t := by
      cases ht : t.isText with
      | true =>
        obtain ⟨hquote, inner, hinner, hstate⟩ := Token.exists_of_readAt_isText ht hread
        obtain rfl : front = inner ++ [c] := by
          rw [← List.singleton_append, ← List.append_assoc] at hinner
          exact List.append_cancel_right hinner
        rw [hinner] at hps
        exact source.keepsFirst_of_isText before ht hquote hstate hps hwritten hplaces
      | false =>
        refine source.keepsFirst_of_not_isText before ht hread hps hwritten fun field hfield => ?_
        rcases hplaces field hfield with henclosed | hbehind
        · exact absurd (ht.symm.trans henclosed.isText) Bool.false_ne_true
        · exact hbehind
    obtain ⟨qs, rs, filled, u, rfl, hqs, hrs, hfilled, hread', halike⟩ := hfirst
    rw [Token.readAll_of_readAt hblanks hc hread, List.flatMap_append, hfilled, List.append_assoc,
      List.cons_append, Token.readAll_of_readAt hblanks hc hread']
    refine .cons halike (ih (before ++ (blanks ++ c :: front)) hrs
      (fun w p hp => hwritten w p (List.mem_append_right _ hp)) fun field hfield => ?_)
    have hmem : field ∈ locatedFields before (qs ++ rs) := by
      rw [locatedFields_append, hqs]
      exact List.mem_append_right _ hfield
    obtain ⟨token, htoken, henclosed⟩ := hfields field hmem
    rcases List.mem_cons.1 htoken with rfl | htoken
    · -- The token that has just been read ends before the placeholder begins.
      have hstops := henclosed.stops
      obtain ⟨hstarts, -⟩ := of_mem_locatedFields hfield
      simp only [Located.stop, List.length_append, List.length_cons] at hstarts hstops
      omega
    · exact ⟨token, htoken, henclosed⟩

end FieldSource

/-- The condition of a copy keeps the tokens that it has in the template but for what its texts
say, if every placeholder of it stands within a text between quotes, and no value behind an open
backslash closes that text. -/
theorem Job.ofText_fillAttribute_alike (job : Job) (variableName : String) (item : Datum)
    (condition : String)
    (hquoted : ∀ field ∈ locatedFields [] (pieces condition.toList),
      ∃ token ∈ locatedTokens [] condition.toList,
        token.item.isText = true ∧ field.Within token)
    (hwithin : ∀ field ∈ locatedFields [] (pieces condition.toList),
      ∀ token ∈ locatedTokens [] condition.toList, field.Within token →
        (job.copySource variableName item).StaysWithin field token) :
    List.Forall₂ Token.Alike (Token.ofText condition)
      (Token.ofText ((job.copySource variableName item).fillAttribute
        job.settings.conditionAttribute condition)) := by
  have hescaped : ((job.copySource variableName item).conditionAttribute ==
      some job.settings.conditionAttribute) = true := beq_self_eq_true _
  rw [FieldSource.fillAttribute, hescaped, FieldSource.fill, Token.ofText, Token.ofText,
    String.toList_ofList]
  refine FieldSource.readAll_fill_alike _ [] (source_pieces _)
    (fun w p => written_of_mem_pieces) fun field hfield => ?_
  obtain ⟨token, htoken, htext, hinside⟩ := hquoted field hfield
  obtain ⟨-, -, hstands, hmem⟩ := of_mem_locatedFields hfield
  obtain ⟨-, hstands', hquotes⟩ := of_mem_locatedTokens htoken
  rw [source_pieces] at hstands
  obtain ⟨hstarts, hstops⟩ := hinside.strict hstands (written_of_mem_pieces hmem) hstands'
    (hquotes htext)
  exact ⟨token, htoken, htext, hstarts, hstops, hwithin field hfield token htoken hinside⟩

/-- Values with quotes in them: one behind no backslash, one behind a backslash but with a quote of
the other kind, and one without a value. -/
theorem Job.ofText_fillAttribute_alike_quotes :
    let job : Job := ⟨{}, .empty, .null⟩
    let item : Datum := .record [("m", .text "'"), ("n", .text "\\\"it's")]
    let condition := "'[[k.n]]' == \"\\[[k.m]] [[l]]\" && Model.a"
    let filled := (job.copySource "k" item).fillAttribute job.settings.conditionAttribute condition
    filled = "'\\\\\\\"it\\'s' == \"\\\\' [[l]]\" && Model.a" ∧
      List.Forall₂ Token.Alike (Token.ofText condition) (Token.ofText filled) := by
  intro job item condition filled
  have hquoted : ∀ field ∈ locatedFields [] (pieces condition.toList),
      ∃ token ∈ locatedTokens [] condition.toList,
        token.item.isText = true ∧ field.Within token := by decide +kernel
  have hwithin : ∀ field ∈ locatedFields [] (pieces condition.toList),
      ∀ token ∈ locatedTokens [] condition.toList, field.Within token →
        (job.copySource "k" item).StaysWithin field token := by decide +kernel
  exact ⟨by decide +kernel, Job.ofText_fillAttribute_alike job "k" item condition hquoted hwithin⟩

/-- Behind a backslash that is still open a quote closes the text that it is filled into, and the
condition falls apart. -/
theorem Job.ofText_fillAttribute_behind_backslash :
    let job : Job := ⟨{}, .empty, .null⟩
    let item : Datum := .record [("n", .text "'")]
    let condition := "'\\[[k.n]]' == 'x' && false"
    let filled := (job.copySource "k" item).fillAttribute job.settings.conditionAttribute condition
    (∀ field ∈ locatedFields [] (pieces condition.toList),
      ∃ token ∈ locatedTokens [] condition.toList,
        token.item.isText = true ∧ field.Within token) ∧
      filled = "'\\\\'' == 'x' && false" ∧
      ¬ List.Forall₂ Token.Alike (Token.ofText condition) (Token.ofText filled) := by
  intro job item condition filled
  refine ⟨by decide +kernel, by decide +kernel, fun halike => ?_⟩
  have hlength : (Token.ofText condition).length ≠ (Token.ofText filled).length := by
    decide +kernel
  exact hlength halike.length_eq

end FormLetter
