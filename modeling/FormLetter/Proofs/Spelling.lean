import FormLetter.Proofs.Grammar
import FormLetter.Proofs.Lexing

/-!
# Spelling conditions

An expression has many texts: quotes of either kind around its texts, any numeral of its numbers,
its truth values in any letter case, and any blanks between its tokens. All of them are read as
that expression.

* `Token.Spelled`: the ways to spell a token.
* `Token.Spelled.readFrom`: a spelled token before a blank is read as that token.
* `Token.Writes`: spelled tokens with blanks between them. `Token.readAll_of_writes` reads them.
* `Expression.ofText?_of_writes`: so a text that spells the tokens of an expression is read as it.
-/

namespace FormLetter

/-! ## Spelling tokens -/

/-- Puts a backslash before every backslash and before every quote of one kind. -/
def escapeFor (quote : Char) : List Char → List Char
  | [] => []
  | c :: cs =>
    if c = quote ∨ c = backslash then backslash :: c :: escapeFor quote cs
    else c :: escapeFor quote cs

/-- The reference is one that a word can spell: its path has only the characters of words, and a
path that counts no items does not end in the name that would count them. -/
structure Reference.Nameable (r : Reference) : Prop where
  isWordChar : ∀ c ∈ r.path.toList, isWordChar c = true
  not_counted : r.counted = false →
    r.path ≠ countName ∧ ¬ ('.' :: countName.toList) <:+ r.path.toList

namespace Token

/-- The ways to spell a token. -/
inductive Spelled : Token → List Char → Prop where
  | openParen : Spelled .openParen ['(']
  | closeParen : Spelled .closeParen [')']
  | operator (op : Operator) : Spelled (.operator op) op.symbol.toList
  /-- A text between quotes of either kind. -/
  | text {quote : Char} (h : isQuote quote = true) (value : String) :
      Spelled (.literal (.text value)) (quote :: (escapeFor quote value.toList ++ [quote]))
  /-- A numeral of digits and points that begins with a digit. More than one point is no number. -/
  | number {first : Char} {more : List Char} {value : Number} (hfirst : isDigit first = true)
      (hmore : ∀ c ∈ more, isNumeralChar c = true)
      (hvalue : Number.ofText? (first :: more) = some value) :
      Spelled (.literal (.number value)) (first :: more)
  /-- A truth value in any letter case. -/
  | bool {word : List Char} {value : Bool}
      (h : lowered word = if value then "true".toList else "false".toList) :
      Spelled (.literal (.bool value)) word
  | root : Spelled (.reference ⟨"", false⟩) dataRoot.toList
  | rootCount : Spelled (.reference ⟨"", true⟩) (dataRoot ++ "." ++ countName).toList
  | path (path : String) : Spelled (.reference ⟨path, false⟩) (dataRoot ++ "." ++ path).toList
  | pathCount (path : String) :
      Spelled (.reference ⟨path, true⟩) (dataRoot ++ "." ++ path ++ "." ++ countName).toList

/-- Some tokens are spelled one behind the other: there is a blank between each two, and there may
be more of them everywhere but within a token. -/
inductive Writes : List Token → List Char → Prop where
  | nil {blanks : List Char} (h : ∀ c ∈ blanks, isBlank c = true) : Writes [] blanks
  | cons {t : Token} {ts : List Token} {blanks lexeme rest : List Char}
      (hblanks : ∀ c ∈ blanks, isBlank c = true) (hlexeme : t.Spelled lexeme)
      (hnext : ∀ c, rest.head? = some c → isBlank c = true) (hrest : Writes ts rest) :
      Writes (t :: ts) (blanks ++ (lexeme ++ rest))

end Token

theorem readQuoted_escapeFor {q : Char} (hq : q ≠ backslash) (cs rest : List Char) :
    readQuoted q (escapeFor q cs ++ q :: rest) = some (cs, rest) := by
  induction cs with
  | nil => exact readQuoted_quote q rest
  | cons c cs ih =>
    by_cases hc : c = q ∨ c = backslash
    · simp [escapeFor, hc, readQuoted_backslash hq, ih]
    · obtain ⟨hcq, hcb⟩ := not_or.1 hc
      simp [escapeFor, hc, readQuoted_plain hcq hcb, ih]

/-! ## Reading words -/

namespace Token

variable {c : Char} {word more : List Char}

theorem readAt_word (hc : isWordStart c = true) (hmore : ∀ d ∈ more, isWordChar d = true) :
    readAt c more = (ofWord (c :: more), []) := by
  obtain ⟨htake, hdrop⟩ := takeWhile_dropWhile_append hmore
    (show ∀ d, ([] : List Char).head? = some d → isWordChar d = false from nofun)
  rw [List.append_nil] at htake hdrop
  rw [readAt_wordStart hc, htake, hdrop]

theorem readAt_numeral (hc : isDigit c = true) (hmore : ∀ d ∈ more, isNumeralChar d = true) :
    readAt c more = (ofNumeral (c :: more), []) := by
  obtain ⟨htake, hdrop⟩ := takeWhile_dropWhile_append hmore
    (show ∀ d, ([] : List Char).head? = some d → isNumeralChar d = false from nofun)
  rw [List.append_nil] at htake hdrop
  rw [readAt_digit hc, htake, hdrop]

theorem ofWord_of_lowered {value : Bool}
    (h : lowered word = if value then "true".toList else "false".toList) :
    ofWord word = .literal (.bool value) := by
  cases value with
  | true => exact if_pos h
  | false =>
    have hfalse : lowered word = "false".toList := h
    rw [ofWord, if_neg (by rw [hfalse]; decide), if_pos hfalse]

/-- A path behind the root and a point. -/
theorem ofWord_path (path : List Char) :
    ofWord ((dataRoot ++ ".").toList ++ path) = .reference (Reference.ofPath path) := by
  have hlowered : ∀ value : List Char, value.head? ≠ some 'm' →
      lowered ((dataRoot ++ ".").toList ++ path) ≠ value := by
    rintro _ hvalue rfl
    exact hvalue rfl
  have hroot : (dataRoot ++ ".").toList ++ path ≠ dataRoot.toList := by
    intro h
    have := congrArg List.length h
    simp [dataRoot] at this
  rw [ofWord, if_neg (hlowered _ (by decide)), if_neg (hlowered _ (by decide)), if_neg hroot,
    after?_eq_some_iff.2 rfl]

end Token

namespace Reference

theorem ofPath_of_nameable {path : String} (h : Nameable ⟨path, false⟩) :
    ofPath path.toList = ⟨path, false⟩ := by
  obtain ⟨hcount, hending⟩ := h.not_counted rfl
  have hcount' : path.toList ≠ countName.toList := fun h => hcount (String.toList_inj.1 h)
  rw [ofPath, if_neg hcount']
  simp only [List.isSuffixOf_iff_suffix]
  rw [if_neg hending, String.ofList_toList]

theorem ofPath_count : ofPath countName.toList = ⟨"", true⟩ := by
  rw [ofPath, if_pos rfl]

theorem ofPath_append_count (path : List Char) :
    ofPath (path ++ '.' :: countName.toList) = ⟨String.ofList path, true⟩ := by
  have hlong : path ++ '.' :: countName.toList ≠ countName.toList := by
    intro h
    have := congrArg List.length h
    simp [countName] at this
  have hending : ('.' :: countName.toList).isSuffixOf (path ++ '.' :: countName.toList) = true :=
    List.isSuffixOf_iff_suffix.2 (List.suffix_append _ _)
  have htake : (path ++ '.' :: countName.toList).take
      ((path ++ '.' :: countName.toList).length - ('.' :: countName.toList).length) = path := by
    rw [List.length_append, Nat.add_sub_cancel, List.take_left]
  rw [ofPath, if_neg hlong]
  simp only [hending, htake]
  rfl

end Reference

/-! ## Reading what is spelled -/

namespace Token

variable {t : Token} {ts : List Token} {lexeme cs : List Char}

/-- Before a blank or the end of a text the token is read from the lexeme. -/
def ReadFrom (t : Token) (lexeme : List Char) : Prop :=
  ∃ c more, lexeme = c :: more ∧ isBlank c = false ∧
    ∀ rest, (∀ d, rest.head? = some d → isBlank d = true) → readAt c (more ++ rest) = (t, rest)

/-- A token other than a quoted text is read before a blank as it is read by itself. -/
theorem ReadFrom.of_alone {c : Char} {more : List Char} (hblank : isBlank c = false)
    (hquote : isQuote c = false) (h : readAt c more = (t, [])) : ReadFrom t (c :: more) := by
  refine ⟨c, more, rfl, hblank, fun rest hrest => ?_⟩
  rw [← List.append_nil more] at h
  exact readAt_of_next hquote h fun d hd => .inr (hrest d hd)

theorem ReadFrom.of_word (hstart : ∃ c, lexeme.head? = some c ∧ isWordStart c = true)
    (hall : ∀ c ∈ lexeme, isWordChar c = true) : ReadFrom (ofWord lexeme) lexeme := by
  obtain ⟨c, hc, hstart⟩ := hstart
  obtain ⟨more, rfl⟩ := List.head?_eq_some_iff.1 hc
  exact .of_alone (isBlank_eq_false_of_isWordStart hstart) (isQuote_eq_false (by decide) hstart)
    (readAt_word hstart fun d hd => hall d (.tail _ hd))

theorem ReadFrom.of_path {path : List Char} (hall : ∀ c ∈ path, isWordChar c = true) :
    ReadFrom (.reference (Reference.ofPath path)) ((dataRoot ++ ".").toList ++ path) := by
  rw [← ofWord_path]
  refine .of_word ⟨'M', rfl, by decide⟩ fun c hc => ?_
  rcases List.mem_append.1 hc with hc | hc
  · exact List.all_eq_true.1 (by decide : (dataRoot ++ ".").toList.all isWordChar = true) c hc
  · exact hall c hc

theorem isWordChar_of_mem_countName : ∀ c ∈ countName.toList, isWordChar c = true :=
  List.all_eq_true.1 (by decide : countName.toList.all isWordChar = true)

theorem isAlpha_of_isAlpha_toLower {c : Char} (h : c.toLower.isAlpha = true) :
    c.isAlpha = true := by
  by_cases hupper : 'A'.val ≤ c.val ∧ c.val ≤ 'Z'.val
  · have hisUpper : c.isUpper = true := decide_eq_true hupper
    exact Bool.or_eq_true_iff.2 (.inl hisUpper)
  · have hsame : c.toLower = c := dif_neg hupper
    rwa [hsame] at h

/-- What is spelled is read, whatever blank follows. -/
theorem Spelled.readFrom (h : t.Spelled lexeme) (hname : ∀ r, t = .reference r → r.Nameable) :
    ReadFrom t lexeme := by
  cases h with
  | openParen => exact .of_alone (by decide) (by decide) rfl
  | closeParen => exact .of_alone (by decide) (by decide) rfl
  | operator op =>
    have hread := Operator.readFirst?_symbol op
    obtain ⟨c, more, hsymbol⟩ := op.exists_symbol_eq_cons
    rw [hsymbol] at hread ⊢
    have hfirst := Operator.mem_firstChars_of_readFirst? hread
    have hblank :=
      List.any_eq_false.1 (by decide : Operator.firstChars.any isBlank = false) c hfirst
    have hquote :=
      List.any_eq_false.1 (by decide : Operator.firstChars.any isQuote = false) c hfirst
    exact .of_alone (Bool.not_eq_true _ ▸ hblank) (Bool.not_eq_true _ ▸ hquote)
      (readAt_operator hread)
  | @text quote hquote value =>
    have hq : quote = '\x27' ∨ quote = '\x22' := by simpa [isQuote] using hquote
    refine ⟨quote, _, rfl, ?_, fun rest _ => ?_⟩
    · rcases hq with rfl | rfl <;> decide
    · have hne : quote ≠ backslash := by rcases hq with rfl | rfl <;> decide
      rw [readAt_quote hquote, List.append_assoc, List.singleton_append,
        readQuoted_escapeFor hne]
      simp
  | @number first more value hfirst hmore hvalue =>
    refine .of_alone (isBlank_eq_false_of_isDigit hfirst) (isQuote_eq_false (by decide) hfirst) ?_
    rw [readAt_numeral hfirst hmore, ofNumeral, hvalue]
  | @bool _ value hlowered =>
    rw [← ofWord_of_lowered hlowered]
    have halpha : ∀ c ∈ lexeme, isWordStart c = true := by
      intro c hc
      have hmem : c.toLower ∈ lowered lexeme := List.mem_map_of_mem hc
      have hlower : c.toLower.isAlpha = true := by
        rw [hlowered] at hmem
        cases value
        · exact List.all_eq_true.1 (by decide : "false".toList.all Char.isAlpha = true) _ hmem
        · exact List.all_eq_true.1 (by decide : "true".toList.all Char.isAlpha = true) _ hmem
      rw [isWordStart, isAlpha_of_isAlpha_toLower hlower, Bool.true_or]
    refine .of_word ?_ fun c hc => ?_
    · obtain _ | ⟨c, more⟩ := lexeme
      · cases value <;> cases hlowered
      · exact ⟨c, rfl, halpha c (.head _)⟩
    · rw [isWordChar, isNameChar, halpha c hc]
      rfl
  | root =>
    show ReadFrom (ofWord dataRoot.toList) _
    exact .of_word ⟨'M', rfl, by decide⟩
      (List.all_eq_true.1 (by decide : dataRoot.toList.all isWordChar = true))
  | rootCount =>
    rw [String.toList_append, ← Reference.ofPath_count]
    exact .of_path isWordChar_of_mem_countName
  | path path =>
    have hpath := hname _ rfl
    rw [String.toList_append, ← Reference.ofPath_of_nameable hpath]
    exact .of_path hpath.isWordChar
  | pathCount path =>
    have hpath := hname _ rfl
    have hspell : (dataRoot ++ "." ++ path ++ "." ++ countName).toList =
        (dataRoot ++ ".").toList ++ (path.toList ++ '.' :: countName.toList) := by
      simp
    have htarget := Reference.ofPath_append_count path.toList
    rw [String.ofList_toList] at htarget
    rw [hspell, ← htarget]
    refine .of_path fun c hc => ?_
    rcases List.mem_append.1 hc with hc | hc
    · exact hpath.isWordChar c hc
    · rcases List.mem_cons.1 hc with rfl | hc
      · decide
      · exact isWordChar_of_mem_countName c hc

/-- Reading all tokens of a text gives the tokens that it spells. -/
theorem readAll_of_writes (h : Writes ts cs) (hname : ∀ r, .reference r ∈ ts → r.Nameable) :
    readAll cs = ts := by
  induction h with
  | nil hblanks => exact readAll_of_blanks hblanks
  | @cons t ts blanks lexeme rest hblanks hlexeme hnext _ ih =>
    obtain ⟨c, more, rfl, hblank, hread⟩ :=
      hlexeme.readFrom fun r hr => hname r (hr ▸ .head _)
    rw [List.cons_append, readAll_of_readAt hblanks hblank (hread rest hnext),
      ih fun r hr => hname r (.tail _ hr)]

end Token

/-! ## Whole conditions -/

namespace Expression

open Token (Writes)

/-- A text that spells the tokens of an expression is read as that expression. -/
theorem ofText?_of_writes {e : Expression} (hshape : Derives .disjunction e)
    (hdepth : e.depth ≤ 64) (hops : e.operators ≤ 256)
    (hname : ∀ r, .reference r ∈ e.tokens → r.Nameable) {s : String}
    (hs : Writes e.tokens s.toList) : ofText? s = .ok e := by
  rw [ofText?, Token.ofText, Token.readAll_of_writes hs hname]
  exact ofTokens?_of_writtenBy ⟨rfl, hshape, hdepth, hops⟩

/-- Blanks beyond ASCII, a numeral that ends in a point, an escaped quote and a truth value in mixed
case. -/
theorem ofText?_of_writes_blanks :
    ofText? "(\u2003Model.a.Count >= 2. ) || 'it\\'s' == Model && tRUE" =
      .ok (.binary .or
        (.group (.binary (.compare .greaterOrEqual) (.reference ⟨"a", true⟩)
          (.literal (.number (.ofNat 2)))))
        (.binary .and
          (.binary (.compare .equal) (.literal (.text "it's")) (.reference ⟨"", false⟩))
          (.literal (.bool true)))) := by
  have hnone : ∀ c ∈ ([] : List Char), isBlank c = true := fun _ h => absurd h List.not_mem_nil
  have hspace : ∀ c ∈ [' '], isBlank c = true := List.forall_mem_singleton.2 (by decide)
  have hwide : ∀ c ∈ ['\u2003'], isBlank c = true := List.forall_mem_singleton.2 (by decide)
  have hstart (blank : Char) (h : isBlank blank = true) (more : List Char) :
      ∀ c, ([blank] ++ more).head? = some c → isBlank c = true := by
    intro c hc
    rwa [← Option.some.inj hc]
  have hspaceStart := hstart ' ' (by decide)
  have hquote : isQuote '\x27' = true := by decide
  have hpoint : ∀ c ∈ ['.'], isNumeralChar c = true := List.forall_mem_singleton.2 (by decide)
  have htwo : Number.ofText? ['2', '.'] = some (.ofNat 2) := by decide +kernel
  have htrue : lowered ['t', 'R', 'U', 'E'] =
      if true then "true".toList else "false".toList := rfl
  have hwritten :=
    Writes.cons hnone .openParen (hstart '\u2003' (by decide) _) <|
    .cons hwide (.pathCount "a") (hspaceStart _) <|
    .cons hspace (.operator (.compare .greaterOrEqual)) (hspaceStart _) <|
    .cons hspace (.number (by decide) hpoint htwo) (hspaceStart _) <|
    .cons hspace .closeParen (hspaceStart _) <|
    .cons hspace (.operator .or) (hspaceStart _) <|
    .cons hspace (.text hquote "it's") (hspaceStart _) <|
    .cons hspace (.operator (.compare .equal)) (hspaceStart _) <|
    .cons hspace .root (hspaceStart _) <|
    .cons hspace (.operator .and) (hspaceStart _) <|
    .cons hspace (.bool htrue) (by simp) (.nil hnone)
  refine ofText?_of_writes ?_ (by decide) (by decide) ?_ hwritten
  · exact .or
      ((Derives.group (.conjunction (.comparison
        (.compare _ (.reference _) (.literal _))))).ofOperand _)
      (.and (.comparison (.compare _ (.literal _) (.reference _))) (.operand (.literal _)))
  · intro r hr
    have hr : r = ⟨"a", true⟩ ∨ r = ⟨"", false⟩ := by simpa [tokens] using hr
    rcases hr with rfl | rfl
    · exact ⟨List.all_eq_true.1 (by decide : "a".toList.all isWordChar = true),
        fun h => absurd h (by decide)⟩
    · exact ⟨List.all_eq_true.1 (by decide : "".toList.all isWordChar = true), by decide⟩

end Expression

end FormLetter
