import FormLetter.Condition.Lexeme

/-!
# How far a token reaches

A token ends where its own characters say so, or where the next character cannot belong to it.
So what is read at some place depends on what comes behind the token only through the next
character, and for a quoted text not at all.

* `Operator.readFirst?_eq_some_iff`: an operator is read where its symbol stands, unless a longer
  one stands there.
* `Token.readAt_of_next`: a token other than a quoted text is read whatever follows, if the next
  character is the same one or a blank.
* `Token.readAll_of_readAt`: the tokens of a text are the one read behind its leading blanks and
  those of what is left. `Token.readAll_word`: so it is with a word.
-/

namespace FormLetter

variable {c : Char} {front rest rest' : List Char}

/-- Where a text has been exchanged for another, its first character is as before, or a blank, or
there is none. -/
def SameNext (rest rest' : List Char) : Prop :=
  ∀ d, rest'.head? = some d → rest.head? = some d ∨ isBlank d = true

theorem SameNext.append (h : SameNext rest rest') (front : List Char) :
    SameNext (front ++ rest) (front ++ rest') := by
  cases front with
  | nil => exact h
  | cons c front => exact fun d hd => .inl hd

/-! ## Kinds of characters -/

theorem isDigit_iff : isDigit c = true ↔ 48 ≤ c.toNat ∧ c.toNat ≤ 57 := by
  simp only [isDigit, Bool.and_eq_true, decide_eq_true_eq, Char.le_def, UInt32.le_iff_toNat_le]
  exact Iff.rfl

theorem isWordStart_iff :
    isWordStart c = true ↔
      (65 ≤ c.toNat ∧ c.toNat ≤ 90) ∨ (97 ≤ c.toNat ∧ c.toNat ≤ 122) ∨ c.toNat = 95 := by
  have halpha : c.isAlpha = (decide ('A'.val ≤ c.val ∧ c.val ≤ 'Z'.val) ||
      decide ('a'.val ≤ c.val) && decide (c.val ≤ 'z'.val)) := rfl
  simp only [isWordStart, halpha, Bool.or_eq_true, beq_iff_eq, Bool.and_eq_true,
    decide_eq_true_eq, UInt32.le_iff_toNat_le, Char.ext_iff, ← UInt32.toNat_inj]
  rw [or_assoc]
  exact Iff.rfl

theorem isDigit_eq_false_of_isWordStart (h : isWordStart c = true) : isDigit c = false := by
  rw [Bool.eq_false_iff, ne_eq, isDigit_iff]
  have := isWordStart_iff.1 h
  omega

/-- No character of a word is blank. -/
theorem isWordChar_eq_false_of_isBlank (h : isBlank c = true) : isWordChar c = false := by
  rw [Bool.eq_false_iff]
  intro hword
  simp only [isWordChar, isNameChar, Bool.or_eq_true, beq_iff_eq, isWordStart_iff, isDigit_iff]
    at hword
  simp only [isBlank, isBlankCode, Bool.or_eq_true, Bool.and_eq_true, decide_eq_true_eq,
    beq_iff_eq] at h
  rcases hword with hword | rfl
  · omega
  · exact absurd h (by decide)

theorem isNameChar_eq_false_of_isBlank (h : isBlank c = true) : isNameChar c = false :=
  (Bool.or_eq_false_iff.1 (isWordChar_eq_false_of_isBlank h)).1

theorem isBlank_eq_false_of_isWordStart (h : isWordStart c = true) : isBlank c = false := by
  rw [Bool.eq_false_iff]
  intro hblank
  rw [(Bool.or_eq_false_iff.1 (isNameChar_eq_false_of_isBlank hblank)).1] at h
  cases h

theorem isBlank_eq_false_of_isDigit (h : isDigit c = true) : isBlank c = false := by
  rw [Bool.eq_false_iff]
  intro hblank
  rw [(Bool.or_eq_false_iff.1 (isNameChar_eq_false_of_isBlank hblank)).2] at h
  cases h

theorem isNumeralChar_eq_false_of_isBlank (h : isBlank c = true) : isNumeralChar c = false := by
  have hword := isWordChar_eq_false_of_isBlank h
  simp only [isWordChar, isNameChar, Bool.or_eq_false_iff] at hword
  rw [isNumeralChar, hword.1.2, hword.2]
  rfl

theorem isBlank_eq_false_of_isNumeralChar (h : isNumeralChar c = true) : isBlank c = false := by
  rw [Bool.eq_false_iff]
  intro hblank
  rw [isNumeralChar_eq_false_of_isBlank hblank] at h
  cases h

/-- A quote is of no other kind. -/
theorem isQuote_eq_false {p : Char → Bool} (hp : p '\x27' = false ∧ p '\x22' = false)
    (h : p c = true) : isQuote c = false := by
  rw [Bool.eq_false_iff]
  intro hq
  simp only [isQuote, Bool.or_eq_true, beq_iff_eq] at hq
  rcases hq with rfl | rfl
  · exact Bool.noConfusion (hp.1.symm.trans h)
  · exact Bool.noConfusion (hp.2.symm.trans h)

/-! ## Runs of characters -/

section

variable {p : Char → Bool}

/-- A run of characters ends before a character that is none of them. -/
theorem takeWhile_dropWhile_append (hall : ∀ d ∈ front, p d = true)
    (hstop : ∀ d, rest.head? = some d → p d = false) :
    (front ++ rest).takeWhile p = front ∧ (front ++ rest).dropWhile p = rest := by
  rw [List.takeWhile_append_of_pos hall, List.dropWhile_append_of_pos hall]
  cases rest with
  | nil => simp
  | cons d rest => simp [hstop d rfl]

/-- A run of characters and what follows it are found in a text in one way only. -/
theorem append_inj_of_run {front' : List Char} (h : front ++ rest = front' ++ rest')
    (hall : ∀ d ∈ front, p d = true) (hstop : ∀ d, rest.head? = some d → p d = false)
    (hall' : ∀ d ∈ front', p d = true) (hstop' : ∀ d, rest'.head? = some d → p d = false) :
    front = front' ∧ rest = rest' := by
  obtain ⟨htake, hdrop⟩ := takeWhile_dropWhile_append hall hstop
  obtain ⟨htake', hdrop'⟩ := takeWhile_dropWhile_append hall' hstop'
  exact ⟨by rw [← htake, h, htake'], by rw [← hdrop, h, hdrop']⟩

/-- A text that begins with a blank begins with no character of a kind that blanks are not of. -/
theorem head?_append_of_blanks (hblank : ∀ d, isBlank d = true → p d = false)
    {blanks : List Char} (hne : blanks ≠ []) (hblanks : ∀ d ∈ blanks, isBlank d = true)
    (rest : List Char) : ∀ d, (blanks ++ rest).head? = some d → p d = false := by
  intro d hd
  obtain ⟨b, blanks, rfl⟩ := List.exists_cons_of_ne_nil hne
  obtain rfl : b = d := Option.some.inj hd
  exact hblank b (hblanks b (.head _))

/-- A run of characters other than blanks ends where it has ended, whatever follows. -/
theorem takeWhile_dropWhile_of_next (hblank : ∀ d, isBlank d = true → p d = false)
    (hrun : (front ++ rest).dropWhile p = rest) (hnext : SameNext rest rest') :
    (front ++ rest).takeWhile p = front ∧ (front ++ rest').takeWhile p = front ∧
      (front ++ rest').dropWhile p = rest' := by
  have hfront : (front ++ rest).takeWhile p = front := by
    have hsplit := List.takeWhile_append_dropWhile (p := p) (l := front ++ rest)
    rw [hrun] at hsplit
    exact List.append_cancel_right hsplit
  refine ⟨hfront, takeWhile_dropWhile_append (fun d hd => ?_) fun d hd => ?_⟩
  · rw [← hfront] at hd
    exact List.all_eq_true.1 List.all_takeWhile d hd
  · rcases hnext d hd with hsame | hd
    · have hhead := List.head?_dropWhile_not p (front ++ rest)
      rw [hrun, hsame] at hhead
      simpa using hhead
    · exact hblank d hd

end

/-! ## Operators -/

namespace Operator

variable {op : Operator} {cs : List Char}

theorem exists_symbol_eq_cons (op : Operator) : ∃ d more, op.symbol.toList = d :: more := by
  rcases op with _ | _ | (_ | _ | _ | _ | _ | _) <;> exact ⟨_, _, rfl⟩

/-- An operator is read where its symbol stands, unless a longer operator begins with it there. -/
theorem readFirst?_eq_some_iff :
    readFirst? cs = some (op, rest) ↔
      cs = op.symbol.toList ++ rest ∧
        (op = .compare .greater ∨ op = .compare .less → rest.head? ≠ some '=') := by
  constructor
  · intro h
    unfold readFirst? at h
    split at h <;> cases h
    case h_7 more hlonger | h_8 more hlonger =>
      refine ⟨rfl, fun _ hhead => ?_⟩
      obtain ⟨behind, hbehind⟩ := List.head?_eq_some_iff.1 hhead
      exact hlonger behind hbehind
    all_goals exact ⟨rfl, by simp⟩
  · rintro ⟨rfl, hlonger⟩
    rcases op with _ | _ | (_ | _ | _ | _ | _ | _)
    case compare.greater | compare.less =>
      obtain _ | ⟨d, rest⟩ := rest
      · rfl
      · have hd : d ≠ '=' := fun hd => hlonger (by decide) (congrArg some hd)
        simp [readFirst?, symbol, Comparison.symbol, hd]
    all_goals rfl

/-- An operator is read whatever follows. -/
theorem readFirst?_of_next (h : readFirst? (c :: (front ++ rest)) = some (op, rest))
    (hnext : SameNext rest rest') : readFirst? (c :: (front ++ rest')) = some (op, rest') := by
  obtain ⟨hsymbol, hlonger⟩ := readFirst?_eq_some_iff.1 h
  have hfront : c :: front = op.symbol.toList := List.append_cancel_right hsymbol
  refine readFirst?_eq_some_iff.2 ⟨congrArg (· ++ rest') hfront, fun hop hhead => ?_⟩
  rcases hnext _ hhead with hsame | hblank
  · exact hlonger hop hsame
  · exact absurd hblank (by decide)

/-- Where no operator is read, none is read whatever follows. -/
theorem readFirst?_eq_none_of_next (h : readFirst? (c :: rest) = none)
    (hnext : SameNext rest rest') : readFirst? (c :: rest') = none := by
  have hsecond : ∀ d, rest'.head? = some d → isBlank d = false → ∃ more, rest = d :: more := by
    intro d hd hblank
    rcases hnext d hd with hsame | hd
    · exact List.head?_eq_some_iff.1 hsame
    · rw [hblank] at hd
      cases hd
  unfold readFirst?
  split
  case h_9 => rfl
  case h_7 heq | h_8 heq =>
    -- These two are read whatever follows, if only as the longer operator.
    obtain ⟨rfl, -⟩ := List.cons.inj heq
    unfold readFirst? at h
    split at h <;> simp_all
  all_goals
    rename_i heq
    obtain ⟨rfl, hrest⟩ := List.cons.inj heq
    obtain ⟨more, rfl⟩ := hsecond _ (congrArg List.head? hrest) (by decide)
    cases h

/-- The characters that operators begin with. -/
def firstChars : List Char := ['&', '|', '=', '!', '>', '<']

theorem mem_firstChars_of_readFirst? (h : readFirst? (c :: cs) = some (op, rest)) :
    c ∈ firstChars := by
  have hc := congrArg List.head? (readFirst?_eq_some_iff.1 h).1
  rcases op with _ | _ | (_ | _ | _ | _ | _ | _) <;>
    exact Option.some.inj hc ▸ (by decide : _ ∈ firstChars)

/-- No operator begins with a character of another kind. -/
theorem readFirst?_eq_none {p : Char → Bool} (hp : firstChars.any p = false) (hc : p c = true)
    (cs : List Char) : readFirst? (c :: cs) = none := by
  rw [Option.eq_none_iff_forall_ne_some]
  intro r h
  exact List.any_eq_false.1 hp c (mem_firstChars_of_readFirst? h) hc

end Operator

/-! ## The first token of a text -/

namespace Token

variable {t : Token} {cs : List Char}

theorem readAt_operator {op : Operator} (h : Operator.readFirst? (c :: cs) = some (op, rest)) :
    readAt c cs = (.operator op, rest) := by
  have hc := Operator.mem_firstChars_of_readFirst? h
  rw [readAt, if_neg (fun heq => absurd (heq ▸ hc) (by decide)),
    if_neg (fun heq => absurd (heq ▸ hc) (by decide)), h]

theorem readAt_quote (h : isQuote c = true) (cs : List Char) :
    readAt c cs =
      match readQuoted c cs with
      | some (body, rest) => (.literal (.text (String.ofList body)), rest)
      | none => (.unknown (String.ofList (c :: cs)), []) := by
  rw [readAt, if_neg (fun heq => absurd (heq ▸ h) (by decide)),
    if_neg (fun heq => absurd (heq ▸ h) (by decide)),
    Operator.readFirst?_eq_none (by decide) h cs]
  exact if_pos h

theorem readAt_digit (h : isDigit c = true) (cs : List Char) :
    readAt c cs = (ofNumeral (c :: cs.takeWhile isNumeralChar), cs.dropWhile isNumeralChar) := by
  have hq : isQuote c = false := isQuote_eq_false (by decide) h
  rw [readAt, if_neg (fun heq => absurd (heq ▸ h) (by decide)),
    if_neg (fun heq => absurd (heq ▸ h) (by decide)),
    Operator.readFirst?_eq_none (by decide) h cs]
  simp [hq, h]

theorem readAt_wordStart (h : isWordStart c = true) (cs : List Char) :
    readAt c cs = (ofWord (c :: cs.takeWhile isWordChar), cs.dropWhile isWordChar) := by
  have hq : isQuote c = false := isQuote_eq_false (by decide) h
  have hd : isDigit c = false := isDigit_eq_false_of_isWordStart h
  rw [readAt, if_neg (fun heq => absurd (heq ▸ h) (by decide)),
    if_neg (fun heq => absurd (heq ▸ h) (by decide)),
    Operator.readFirst?_eq_none (by decide) h cs]
  simp [hq, hd, h]

/-- The token of a character that belongs to no longer token. -/
def ofSingle (c : Char) : Token :=
  if c = '(' then .openParen else if c = ')' then .closeParen else .unknown (String.ofList [c])

theorem readAt_single (hquote : isQuote c = false) (hdigit : isDigit c = false)
    (hword : isWordStart c = false) (hop : Operator.readFirst? (c :: cs) = none) :
    readAt c cs = (ofSingle c, cs) := by
  rw [readAt, ofSingle, hop, hquote, hdigit, hword]
  by_cases hopen : c = '('
  · rw [if_pos hopen, if_pos hopen]
  · rw [if_neg hopen, if_neg hopen]
    by_cases hclose : c = ')'
    · rw [if_pos hclose, if_pos hclose]
    · rw [if_neg hclose, if_neg hclose]
      rfl

/-- What is read at a character other than a quote: a numeral, a word, an operator or the character
alone. -/
theorem readAt_cases (hquote : isQuote c = false) (cs : List Char) :
    isDigit c = true ∨ isWordStart c = true ∨
      (∃ op rest, Operator.readFirst? (c :: cs) = some (op, rest)) ∨
      (isDigit c = false ∧ isWordStart c = false ∧ Operator.readFirst? (c :: cs) = none ∧
        readAt c cs = (ofSingle c, cs)) := by
  cases hdigit : isDigit c with
  | true => exact .inl rfl
  | false =>
    cases hword : isWordStart c with
    | true => exact .inr (.inl rfl)
    | false =>
      cases hop : Operator.readFirst? (c :: cs) with
      | some r => exact .inr (.inr (.inl ⟨r.1, r.2, rfl⟩))
      | none => exact .inr (.inr (.inr ⟨rfl, rfl, rfl, readAt_single hquote hdigit hword hop⟩))

/-- A token other than a quoted text is read whatever follows. -/
theorem readAt_of_next (hquote : isQuote c = false) (h : readAt c (front ++ rest) = (t, rest))
    (hnext : SameNext rest rest') : readAt c (front ++ rest') = (t, rest') := by
  rcases readAt_cases hquote (front ++ rest) with
    hdigit | hword | ⟨op, rest₁, hop⟩ | ⟨hdigit, hword, hop, hread⟩
  · rw [readAt_digit hdigit, Prod.mk.injEq] at h
    obtain ⟨htake, htake', hdrop'⟩ := takeWhile_dropWhile_of_next
      (fun d => isNumeralChar_eq_false_of_isBlank) h.2 hnext
    rw [readAt_digit hdigit, htake', hdrop', ← h.1, htake]
  · rw [readAt_wordStart hword, Prod.mk.injEq] at h
    obtain ⟨htake, htake', hdrop'⟩ := takeWhile_dropWhile_of_next
      (fun d => isWordChar_eq_false_of_isBlank) h.2 hnext
    rw [readAt_wordStart hword, htake', hdrop', ← h.1, htake]
  · rw [readAt_operator hop, Prod.mk.injEq] at h
    obtain ⟨rfl, rfl⟩ := h
    exact readAt_operator (Operator.readFirst?_of_next hop hnext)
  · rw [hread, Prod.mk.injEq] at h
    obtain rfl : front = [] := List.append_left_eq_self.1 h.2
    rw [← h.1]
    exact readAt_single hquote hdigit hword (Operator.readFirst?_eq_none_of_next hop hnext)

/-! ## All tokens of a text -/

theorem readAll_of_blanks (h : ∀ d ∈ cs, isBlank d = true) : readAll cs = [] := by
  have htrim := trimStart_append h []
  rw [List.append_nil, trimStart, trimStart, List.dropWhile_nil] at htrim
  rw [readAll_eq, readFirst?, trimStart, htrim]

/-- The first token of a text stands behind its leading blanks, and the others behind it. -/
theorem readAll_of_readAt {blanks : List Char} (hblanks : ∀ d ∈ blanks, isBlank d = true)
    (hc : isBlank c = false) (h : readAt c cs = (t, rest)) :
    readAll (blanks ++ c :: cs) = t :: readAll rest := by
  have htrim : trimStart (blanks ++ c :: cs) = c :: cs := by
    rw [trimStart_append hblanks, trimStart, List.dropWhile_cons_of_neg (by simp [hc])]
  rw [readAll_eq, readFirst?, htrim]
  simp only [h]

/-- A word ends before a character that is none of a word. -/
theorem readAll_word {blanks more : List Char} (hblanks : ∀ d ∈ blanks, isBlank d = true)
    (hc : isWordStart c = true) (hmore : ∀ d ∈ more, isWordChar d = true)
    (hrest : ∀ d, rest.head? = some d → isWordChar d = false) :
    readAll (blanks ++ (c :: more ++ rest)) = ofWord (c :: more) :: readAll rest := by
  obtain ⟨htake, hdrop⟩ := takeWhile_dropWhile_append hmore hrest
  have hread : readAt c (more ++ rest) = (ofWord (c :: more), rest) := by
    rw [readAt_wordStart hc, htake, hdrop]
  rw [List.cons_append, readAll_of_readAt hblanks (isBlank_eq_false_of_isWordStart hc) hread]

end Token

end FormLetter
