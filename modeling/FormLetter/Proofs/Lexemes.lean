import FormLetter.Condition.Evaluation
import FormLetter.Proofs.Located

/-!
# Texts divided into lexemes

A condition is its tokens, each written by some characters, and the blanks between them. Each token
can be read from its own characters alone, and blanks separate what stands before them from what
stands behind them. The one thing that reaches over blanks is a quoted text, so a quoted text
without its closing quote reaches to the very end.

* `Token.readAt_of_closed`: a token other than such a text is read whatever follows.
  `Token.readAt_alone`: every token is read if nothing follows.
* `Token.exists_lexemes`: every text is divided into lexemes and blanks, without a loss.
* `Token.readAll_append_blanks`: the tokens around some blanks are those of the two sides.
* `blanks_separate_tokens`: so how many blanks separate two tokens does not matter, nor whether any
  stand around a condition.
-/

namespace FormLetter

variable {c : Char} {front cs ds blanks rest rest' : List Char}

theorem SameNext.nil (rest : List Char) : SameNext rest [] := nofun

/-- What stands before some blanks does not go on behind them. -/
theorem SameNext.append_blanks (hne : blanks ≠ []) (hblanks : ∀ d ∈ blanks, isBlank d = true)
    (rest ds : List Char) : SameNext rest (rest ++ (blanks ++ ds)) := by
  intro d hd
  cases rest with
  | nil =>
    refine .inr ?_
    obtain ⟨b, more, rfl⟩ := List.exists_cons_of_ne_nil hne
    obtain rfl : b = d := Option.some.inj hd
    exact hblanks b (.head _)
  | cons e rest => exact .inl hd

namespace Token

variable {t : Token}

/-! ## Unknown tokens -/

theorem eq_of_ofNumeral_eq_unknown {run : List Char} {text : String}
    (h : ofNumeral run = .unknown text) :
    text = String.ofList run := by
  unfold ofNumeral at h
  split at h
  · cases h
  · exact (Token.unknown.inj h).symm

theorem eq_of_ofWord_eq_unknown {word : List Char} {text : String}
    (h : ofWord word = .unknown text) :
    text = String.ofList word := by
  unfold ofWord at h
  split_ifs at h
  split at h
  · cases h
  · exact (Token.unknown.inj h).symm

theorem eq_of_ofSingle_eq_unknown {text : String} (h : ofSingle c = .unknown text) :
    text = String.ofList [c] := by
  unfold ofSingle at h
  split_ifs at h
  exact (Token.unknown.inj h).symm

/-- An unknown token shows the characters that it is read from. -/
theorem eq_of_readAt_eq_unknown {text : String}
    (h : readAt c (front ++ rest) = (.unknown text, rest)) :
    text = String.ofList (c :: front) := by
  by_cases hquote : isQuote c = true
  · obtain rfl : rest = [] := eq_nil_of_readAt_quote hquote rfl h
    rw [readAt_quote hquote] at h
    split at h
    · cases h
    · rw [List.append_nil] at h
      exact (Token.unknown.inj (congrArg Prod.fst h)).symm
  · rw [Bool.not_eq_true] at hquote
    rcases readAt_cases hquote (front ++ rest) with
      hdigit | hword | ⟨op, behind, hop⟩ | ⟨-, -, -, hread⟩
    · rw [readAt_digit hdigit, Prod.mk.injEq] at h
      obtain ⟨htake, -⟩ := takeWhile_dropWhile_of_next
        (fun d => isNumeralChar_eq_false_of_isBlank) h.2 (.nil rest)
      rw [← htake]
      exact eq_of_ofNumeral_eq_unknown h.1
    · rw [readAt_wordStart hword, Prod.mk.injEq] at h
      obtain ⟨htake, -⟩ := takeWhile_dropWhile_of_next
        (fun d => isWordChar_eq_false_of_isBlank) h.2 (.nil rest)
      rw [← htake]
      exact eq_of_ofWord_eq_unknown h.1
    · rw [readAt_operator hop] at h
      cases h
    · rw [hread, Prod.mk.injEq] at h
      obtain rfl : front = [] := List.append_left_eq_self.1 h.2
      exact eq_of_ofSingle_eq_unknown h.1

/-! ## Quotes that are not closed -/

/-- Whether a token is a quoted text without its closing quote. -/
def isUnclosed : Token → Bool
  | .unknown source => source.toList.head?.any isQuote
  | _ => false

/-- Such a token is read at a quote. -/
theorem isQuote_of_isUnclosed (h : readAt c (front ++ rest) = (t, rest))
    (ht : t.isUnclosed = true) : isQuote c = true := by
  cases t with
  | unknown text =>
    rw [eq_of_readAt_eq_unknown h, isUnclosed, String.toList_ofList] at ht
    exact ht
  | _ => cases ht

theorem isText_eq_false_of_isUnclosed (ht : t.isUnclosed = true) : t.isText = false := by
  cases t with
  | unknown text => rfl
  | _ => cases ht

/-- It takes up the whole text. -/
theorem eq_nil_of_isUnclosed (h : readAt c (front ++ rest) = (t, rest))
    (ht : t.isUnclosed = true) : rest = [] :=
  eq_nil_of_readAt_quote (isQuote_of_isUnclosed h ht) (isText_eq_false_of_isUnclosed ht) h

/-- What is read at a quote is a text between two quotes, or the closing quote is missing. -/
theorem isText_or_isUnclosed (hquote : isQuote c = true) (h : readAt c cs = (t, rest)) :
    t.isText = true ∨ t.isUnclosed = true := by
  rw [readAt_quote hquote] at h
  split at h <;> cases h
  · exact .inl rfl
  · refine .inr ?_
    rw [isUnclosed, String.toList_ofList]
    exact hquote

/-- A quoted text is read whatever follows. -/
theorem readAt_of_isText (ht : t.isText = true) (h : readAt c (front ++ rest) = (t, rest))
    (rest' : List Char) : readAt c (front ++ rest') = (t, rest') := by
  obtain ⟨hquote, inner, hinner, hstate⟩ := exists_of_readAt_isText ht h
  obtain ⟨body, hbody⟩ := readQuoted_of_quoteState? (ne_backslash_of_isQuote hquote) hstate
  obtain rfl : front = inner ++ [c] := by
    rw [← List.singleton_append, ← List.append_assoc] at hinner
    exact List.append_cancel_right hinner
  rw [hinner, readAt_quote hquote, hbody, Prod.mk.injEq] at h
  rw [List.append_assoc, List.singleton_append, readAt_quote hquote, hbody, ← h.1]

/-- A token is read whatever follows, unless it is a quoted text without its closing quote. -/
theorem readAt_of_closed (ht : t.isUnclosed = false) (h : readAt c (front ++ rest) = (t, rest))
    (hnext : SameNext rest rest') : readAt c (front ++ rest') = (t, rest') := by
  by_cases hquote : isQuote c = true
  · have htext : t.isText = true :=
      (isText_or_isUnclosed hquote h).resolve_right (by simp [ht])
    exact readAt_of_isText htext h rest'
  · exact readAt_of_next (Bool.not_eq_true _ ▸ hquote) h hnext

/-- A token is read from its own characters alone. -/
theorem readAt_alone (h : readAt c (front ++ rest) = (t, rest)) : readAt c front = (t, []) := by
  rw [← List.append_nil front]
  cases ht : t.isUnclosed with
  | false => exact readAt_of_closed ht h (.nil rest)
  | true =>
    obtain rfl := eq_nil_of_isUnclosed h ht
    exact h

/-! ## Lexemes -/

end Token

/-- A token with the characters that it is read from, and the blanks behind them. -/
structure Lexeme where
  token : Token
  source : String
  behind : String
  /-- The characters begin with one that is not blank. -/
  starts : ∃ c, source.toList.head? = some c ∧ isBlank c = false
  /-- They are read as the token by themselves. -/
  alone : Token.ofText source = [token]
  /-- An unknown token shows them. -/
  shown : ∀ unknown, token = .unknown unknown → unknown = source
  isBlank_behind : ∀ c ∈ behind.toList, isBlank c = true

/-- The characters of a lexeme and the blanks behind them. -/
def Lexeme.text (lexeme : Lexeme) : String := lexeme.source ++ lexeme.behind

/-- The lexeme of a token that is read at some place, with the blanks that follow it. -/
def Lexeme.ofReadAt {t : Token} (hc : isBlank c = false)
    (h : Token.readAt c (front ++ rest) = (t, rest)) (behind : String)
    (hbehind : ∀ d ∈ behind.toList, isBlank d = true) : Lexeme where
  token := t
  source := String.ofList (c :: front)
  behind := behind
  starts := ⟨c, by rw [String.toList_ofList]; rfl, hc⟩
  alone := by
    have hnone : ∀ d ∈ ([] : List Char), isBlank d = true := List.forall_mem_nil _
    have halone := Token.readAll_of_readAt hnone hc (Token.readAt_alone h)
    rw [Token.readAll_of_blanks hnone] at halone
    rwa [Token.ofText, String.toList_ofList]
  shown := fun unknown ht => Token.eq_of_readAt_eq_unknown (ht ▸ h)
  isBlank_behind := hbehind

/-- Every text is divided into lexemes behind some blanks, and its tokens are those of the
lexemes. -/
theorem Token.exists_lexemes (s : String) :
    ∃ (before : String) (lexemes : List Lexeme), (∀ c ∈ before.toList, isBlank c = true) ∧
      s = before ++ String.join (lexemes.map Lexeme.text) ∧
      ofText s = lexemes.map Lexeme.token := by
  generalize hs : s.toList = cs
  induction cs using text_induction generalizing s with
  | blank cs hblank =>
    refine ⟨s, [], hs ▸ hblank, ?_, ?_⟩
    · rw [List.map_nil, String.join_nil, String.append_empty]
    · rw [ofText, hs, readAll_of_blanks hblank]
      rfl
  | token blanks c front rest t hblanks hc hread ih =>
    obtain ⟨between, lexemes, hbetween, hrest, htokens⟩ :=
      ih (String.ofList rest) String.toList_ofList
    rw [← String.toList_inj, String.toList_ofList] at hrest
    rw [ofText, String.toList_ofList] at htokens
    refine ⟨String.ofList blanks, .ofReadAt hc hread between hbetween :: lexemes, ?_, ?_, ?_⟩
    · rwa [String.toList_ofList]
    · have htext : (Lexeme.ofReadAt hc hread between hbetween).text =
          String.ofList (c :: front) ++ between := rfl
      rw [← String.toList_inj, hs, List.map_cons, String.join_cons, htext]
      simp [hrest]
    · rw [ofText, hs, readAll_of_readAt hblanks hc hread, htokens]
      rfl

/-! ## Blanks between tokens -/

/-- A closing quote is not found among some blanks. -/
theorem readQuoted_append_blanks (hquote : isQuote c = true)
    (hblanks : ∀ d ∈ blanks, isBlank d = true) (h : readQuoted c cs = none) :
    readQuoted c (cs ++ blanks) = none := by
  have hmem : c ∉ blanks := fun hc => absurd (hblanks c hc) (by
    simp only [isQuote, Bool.or_eq_true, beq_iff_eq] at hquote
    rcases hquote with rfl | rfl <;> decide)
  rw [Option.eq_none_iff_forall_ne_some]
  intro r hr
  obtain ⟨inner, hinner, hstate⟩ := exists_of_readQuoted hr
  rcases List.append_eq_append_iff.1 hinner with ⟨more, rfl, hmore⟩ | ⟨more, rfl, hmore⟩
  · exact hmem (hmore ▸ by simp)
  · cases more with
    | nil => exact hmem (by rw [← List.nil_append blanks, ← hmore]; exact .head _)
    | cons d more =>
      obtain ⟨rfl, -⟩ := List.cons.inj hmore
      obtain ⟨body, hbody⟩ := readQuoted_of_quoteState? (ne_backslash_of_isQuote hquote) hstate
      rw [hbody] at h
      cases h

namespace Token

theorem readAll_blanks_append (hblanks : ∀ d ∈ blanks, isBlank d = true) (cs : List Char) :
    readAll (blanks ++ cs) = readAll cs := by
  rw [readAll_eq, readAll_eq cs, readFirst?, readFirst?, trimStart_append hblanks]

/-- The tokens around some blanks are those before them and those behind them, if every quoted text
before them has its closing quote. -/
theorem readAll_append_blanks (hne : blanks ≠ []) (hblanks : ∀ d ∈ blanks, isBlank d = true)
    (hclosed : ∀ t ∈ readAll cs, t.isUnclosed = false) (ds : List Char) :
    readAll (cs ++ (blanks ++ ds)) = readAll cs ++ readAll ds := by
  induction cs using text_induction with
  | blank cs hcs =>
    rw [readAll_blanks_append hcs, readAll_blanks_append hblanks, readAll_of_blanks hcs,
      List.nil_append]
  | token before c front rest t hbefore hc hread ih =>
    rw [readAll_of_readAt hbefore hc hread] at hclosed ⊢
    obtain ⟨ht, hrest⟩ := List.forall_mem_cons.1 hclosed
    have hread' := readAt_of_closed ht hread (.append_blanks hne hblanks rest ds)
    rw [List.append_assoc, List.cons_append, List.append_assoc,
      readAll_of_readAt hbefore hc hread', ih hrest, List.cons_append]

/-- A closing quote that is missing is missing before blanks, too. -/
theorem exists_readAt_append_blanks (hblanks : ∀ d ∈ blanks, isBlank d = true)
    (h : readAt c cs = (t, [])) (ht : t.isUnclosed = true) :
    ∃ u, readAt c (cs ++ blanks) = (u, []) ∧ u.isUnclosed = true := by
  rw [← List.append_nil cs] at h
  have hquote : isQuote c = true := isQuote_of_isUnclosed h ht
  rw [List.append_nil, readAt_quote hquote] at h
  split at h
  · cases h
    cases ht
  · rename_i hnone
    refine ⟨.unknown (String.ofList (c :: (cs ++ blanks))), ?_, ?_⟩
    · rw [readAt_quote hquote, readQuoted_append_blanks hquote hblanks hnone]
    · rw [isUnclosed, String.toList_ofList]
      exact hquote

theorem any_isUnclosed_append_blanks (hne : blanks ≠ [])
    (hblanks : ∀ d ∈ blanks, isBlank d = true) (cs : List Char) :
    (readAll (cs ++ blanks)).any isUnclosed = (readAll cs).any isUnclosed := by
  induction cs using text_induction with
  | blank cs hcs =>
    rw [readAll_blanks_append hcs, readAll_of_blanks hcs, readAll_of_blanks hblanks]
  | token before c front rest t hbefore hc hread ih =>
    rw [readAll_of_readAt hbefore hc hread, List.append_assoc, List.cons_append,
      List.append_assoc]
    cases ht : t.isUnclosed with
    | true =>
      obtain rfl := eq_nil_of_isUnclosed hread ht
      rw [List.append_nil] at hread
      obtain ⟨u, hread', hu⟩ := exists_readAt_append_blanks hblanks hread ht
      rw [List.nil_append, readAll_of_readAt hbefore hc hread', List.any_cons, List.any_cons, hu,
        ht]
    | false =>
      have hnext := SameNext.append_blanks hne hblanks rest []
      rw [List.append_nil] at hnext
      rw [readAll_of_readAt hbefore hc (readAt_of_closed ht hread hnext), List.any_cons,
        List.any_cons, ih]

end Token

/-! ## Blanks in conditions -/

/-- A condition with a quoted text that is not closed has no answer. -/
theorem evaluate?_eq_none_of_unclosed {s : String}
    (h : (Token.ofText s).any Token.isUnclosed = true) (data : Datum) :
    evaluate? s data = none := by
  obtain ⟨t, ht, hunclosed⟩ := List.any_eq_true.1 h
  cases t with
  | unknown source => exact evaluate?_eq_none_of_mem ht data
  | _ => cases hunclosed

theorem evaluate?_congr {s s' : String} (h : Token.ofText s = Token.ofText s') (data : Datum) :
    evaluate? s data = evaluate? s' data := by
  rw [evaluate?, evaluate?, Expression.ofText?, Expression.ofText?, h]

section

variable {w : String} (hne : w ≠ "") (hblank : ∀ c ∈ w.toList, isBlank c = true)

include hne hblank

theorem Token.ofText_append_blanks {first : String}
    (hclosed : ∀ t ∈ ofText first, t.isUnclosed = false) (second : String) :
    ofText (first ++ w ++ second) = ofText first ++ ofText second := by
  have hne' : w.toList ≠ [] := fun hnil => hne (String.toList_eq_nil_iff.1 hnil)
  rw [ofText, String.toList_append, String.toList_append, List.append_assoc]
  exact readAll_append_blanks hne' hblank hclosed second.toList

/-- Blanks behind a condition do not change it, whether or not it can be read. -/
theorem evaluate?_append_blanks (s : String) (data : Datum) :
    evaluate? (s ++ w) data = evaluate? s data := by
  have hne' : w.toList ≠ [] := fun hnil => hne (String.toList_eq_nil_iff.1 hnil)
  cases hunclosed : (Token.ofText s).any Token.isUnclosed with
  | true =>
    have hunclosed' := Token.any_isUnclosed_append_blanks hne' hblank s.toList
    rw [← String.toList_append] at hunclosed'
    rw [evaluate?_eq_none_of_unclosed hunclosed,
      evaluate?_eq_none_of_unclosed (hunclosed'.trans hunclosed)]
  | false =>
    have hclosed : ∀ t ∈ Token.ofText s, t.isUnclosed = false := by simpa using hunclosed
    have htokens := Token.ofText_append_blanks hne hblank hclosed ""
    refine evaluate?_congr ?_ data
    simpa [Token.ofText, Token.readAll_of_blanks] using htokens

end

/-- Blanks before a condition do not change it. -/
theorem evaluate?_blanks_append {w : String} (hblank : ∀ c ∈ w.toList, isBlank c = true)
    (s : String) (data : Datum) : evaluate? (w ++ s) data = evaluate? s data := by
  refine evaluate?_congr ?_ data
  rw [Token.ofText, String.toList_append]
  exact Token.readAll_blanks_append hblank s.toList

/-- Blanks separate: the tokens of a text with blanks in it are those before the blanks and those
behind them, if every quoted text before them has its closing quote. And they do nothing else: which
blanks stand at such a place and how many, and whether any stand around a condition, does not change
what it says. -/
theorem blanks_separate_tokens {w : String} (hne : w ≠ "")
    (hblank : ∀ c ∈ w.toList, isBlank c = true) :
    (∀ first second, (∀ t ∈ Token.ofText first, t.isUnclosed = false) →
      Token.ofText (first ++ w ++ second) = Token.ofText first ++ Token.ofText second ∧
        ∀ other : String, other ≠ "" → (∀ c ∈ other.toList, isBlank c = true) → ∀ data,
          evaluate? (first ++ other ++ second) data = evaluate? (first ++ w ++ second) data) ∧
      ∀ s data, evaluate? (w ++ s) data = evaluate? s data ∧
        evaluate? (s ++ w) data = evaluate? s data := by
  refine ⟨fun first second hclosed => ?_, fun s data => ?_⟩
  · have htokens := Token.ofText_append_blanks hne hblank hclosed second
    refine ⟨htokens, fun other hne' hblank' data => evaluate?_congr ?_ data⟩
    rw [htokens, Token.ofText_append_blanks hne' hblank' hclosed]
  · exact ⟨evaluate?_blanks_append hblank s data, evaluate?_append_blanks hne hblank s data⟩

/-- Two wide blanks, or one more in the middle, behind a text with blanks and a quote in it. -/
theorem blanks_separate_tokens_quoted :
    let first := "Model.a=='it\\'s  \"'&&"
    let w := "\u2003\n"
    let other := "\u2003 \n"
    let second := "Model.b<'4 '"
    let data : Datum := .record [("a", .text "it's  \""), ("b", .number (.ofNat 3))]
    (w ≠ "" ∧ (∀ c ∈ w.toList, isBlank c = true) ∧
        (∀ t ∈ Token.ofText first, t.isUnclosed = false) ∧
        other ≠ "" ∧ ∀ c ∈ other.toList, isBlank c = true) ∧
      Token.ofText (first ++ w ++ second) =
        [.reference ⟨"a", false⟩, .operator (.compare .equal), .literal (.text "it's  \""),
          .operator .and, .reference ⟨"b", false⟩, .operator (.compare .less),
          .literal (.text "4 ")] ∧
      evaluate? (first ++ other ++ second) data = some true := by
  intro first w other second data
  have hne : w ≠ "" ∧ other ≠ "" := by decide
  have hblank : ∀ c ∈ w.toList, isBlank c = true :=
    List.all_eq_true.1 (by decide : w.toList.all isBlank = true)
  have hblank' : ∀ c ∈ other.toList, isBlank c = true :=
    List.all_eq_true.1 (by decide : other.toList.all isBlank = true)
  have hclosed : ∀ t ∈ Token.ofText first, t.isUnclosed = false := by decide +kernel
  obtain ⟨htokens, hsame⟩ := (blanks_separate_tokens hne.1 hblank).1 first second hclosed
  refine ⟨⟨hne.1, hblank, hclosed, hne.2, hblank'⟩, ?_, ?_⟩
  · rw [htokens]
    decide +kernel
  · rw [hsame other hne.2 hblank' data]
    decide +kernel

end FormLetter
