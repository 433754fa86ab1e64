import FormLetter.Proofs.Lexemes
import FormLetter.Proofs.NumberCondition

/-!
# Operands in parentheses

An expression need not be one that the grammar derives: an operator may stand where another one
binds tighter, and zero may have a sign, which no numeral has. But every expression can be written:
with every operand of a binary operator in parentheses, and zero without its sign, it is read as an
expression that says the same about all data.

* `Token.WritesClosely`: some tokens spelled one behind the other, with blanks where none of two
  tokens is a parenthesis. `Token.readAll_of_writesClosely` reads them.
* `Reference.nameable_iff`: the references that can be read at all.
* `Expression.Encloses`: how an expression is put into parentheses.
  `Expression.Encloses.holds_eq`: what it says does not change.
* `Expression.source`: a text of an expression. `Expression.writesClosely_source`: it spells the
  expression with its operands in parentheses.
* `Expression.enclosed_means_same`: all such texts are read, and mean what the expression means.
-/

namespace FormLetter

/-! ## Tokens before a separator -/

/-- The characters that end every token other than a text: blanks and parentheses. -/
def isSeparator (c : Char) : Bool := isBlank c || c == '(' || c == ')'

/-- A separator is of no kind that neither blanks nor parentheses are of. -/
theorem eq_false_of_isSeparator {kind : Char → Bool} {c : Char}
    (hblank : ∀ d, isBlank d = true → kind d = false) (hparens : ['(', ')'].any kind = false)
    (h : isSeparator c = true) : kind c = false := by
  simp only [isSeparator, Bool.or_eq_true, beq_iff_eq] at h
  simp only [List.any_cons, List.any_nil, Bool.or_false, Bool.or_eq_false_iff] at hparens
  rcases h with (h | rfl) | rfl
  · exact hblank c h
  · exact hparens.1
  · exact hparens.2

/-- A run of characters ends before a separator. -/
theorem takeWhile_dropWhile_before_separator {kind : Char → Bool} {run rest : List Char}
    (hblank : ∀ d, isBlank d = true → kind d = false) (hparens : ['(', ')'].any kind = false)
    (hrun : run.dropWhile kind = [])
    (hrest : ∀ d, rest.head? = some d → isSeparator d = true) :
    (run ++ rest).takeWhile kind = run.takeWhile kind ∧ (run ++ rest).dropWhile kind = rest := by
  have hall : ∀ d ∈ run, kind d = true := by simpa using hrun
  rw [List.takeWhile_eq_self_iff.2 hall]
  exact takeWhile_dropWhile_append hall fun d hd =>
    eq_false_of_isSeparator hblank hparens (hrest d hd)

namespace Token

variable {c : Char} {t : Token} {ts : List Token} {more rest cs lexeme : List Char}

/-- Whether a token is a parenthesis. -/
def isParen : Token → Bool
  | .openParen | .closeParen => true
  | _ => false

/-- A known token is read before a separator as it is read by itself. -/
theorem readAt_before_separator (ht : t.unknown? = none) (h : readAt c more = (t, []))
    (hrest : ∀ d, rest.head? = some d → isSeparator d = true) :
    readAt c (more ++ rest) = (t, rest) := by
  by_cases hquote : isQuote c = true
  · have htext : t.isText = true := by
      refine (isText_or_isUnclosed hquote h).resolve_right fun hunclosed => ?_
      cases t with
      | unknown source => cases ht
      | _ => cases hunclosed
    rw [← List.append_nil more] at h
    exact readAt_of_isText htext h rest
  rcases readAt_cases (Bool.not_eq_true _ ▸ hquote) more with
    hdigit | hword | ⟨op, behind, hop⟩ | ⟨-, -, -, hsingle⟩
  · rw [readAt_digit hdigit, Prod.mk.injEq] at h
    obtain ⟨htake, hdrop⟩ := takeWhile_dropWhile_before_separator
      (fun _ => isNumeralChar_eq_false_of_isBlank) (by decide) h.2 hrest
    rw [readAt_digit hdigit, htake, hdrop, ← h.1]
  · rw [readAt_wordStart hword, Prod.mk.injEq] at h
    obtain ⟨htake, hdrop⟩ := takeWhile_dropWhile_before_separator
      (fun _ => isWordChar_eq_false_of_isBlank) (by decide) h.2 hrest
    rw [readAt_wordStart hword, htake, hdrop, ← h.1]
  · rw [readAt_operator hop, Prod.mk.injEq] at h
    obtain ⟨rfl, rfl⟩ := h
    obtain ⟨hsymbol, -⟩ := Operator.readFirst?_eq_some_iff.1 hop
    refine readAt_operator (Operator.readFirst?_eq_some_iff.2 ⟨?_, fun _ hhead => ?_⟩)
    · rw [← List.cons_append, hsymbol, List.append_nil]
    · exact absurd (hrest _ hhead) (by decide)
  · rw [hsingle, Prod.mk.injEq] at h
    obtain ⟨rfl, rfl⟩ := h
    -- Known tokens of one character that is no operator are the parentheses.
    unfold ofSingle at ht ⊢
    split_ifs at ht ⊢ with hopen hclose
    · rw [hopen]
      rfl
    · rw [hclose]
      rfl
    · cases ht

/-- Some tokens are spelled one behind the other. Between two of them is a blank, unless one of them
is a parenthesis, and there may be blanks everywhere but within a token. -/
inductive WritesClosely : List Token → List Char → Prop where
  | nil {blanks : List Char} (h : ∀ c ∈ blanks, isBlank c = true) : WritesClosely [] blanks
  | cons {t : Token} {ts : List Token} {blanks lexeme rest : List Char}
      (hblanks : ∀ c ∈ blanks, isBlank c = true) (hlexeme : t.Spelled lexeme)
      (hnext : t.isParen = true ∨ ∀ c, rest.head? = some c → isSeparator c = true)
      (hrest : WritesClosely ts rest) :
      WritesClosely (t :: ts) (blanks ++ (lexeme ++ rest))

/-- No unknown token is spelled. -/
theorem Spelled.unknown? (h : t.Spelled lexeme) : t.unknown? = none := by
  cases h <;> rfl

/-- A spelled token is read before a separator, and a parenthesis whatever follows. -/
theorem Spelled.readAt_next (h : t.Spelled lexeme) (hname : ∀ r, t = .reference r → r.Nameable)
    (hnext : t.isParen = true ∨ ∀ c, rest.head? = some c → isSeparator c = true) :
    ∃ c more, lexeme = c :: more ∧ isBlank c = false ∧ readAt c (more ++ rest) = (t, rest) := by
  obtain ⟨c, more, hlexeme, hblank, hread⟩ := h.readFrom hname
  refine ⟨c, more, hlexeme, hblank, ?_⟩
  rcases hnext with hparen | hrest
  · cases h with
    | openParen | closeParen =>
      obtain ⟨rfl, rfl⟩ := List.cons.inj hlexeme
      rfl
    | _ => cases hparen
  · have halone := hread [] nofun
    rw [List.append_nil] at halone
    exact readAt_before_separator h.unknown? halone hrest

/-- Reading all tokens of a text gives the tokens that it spells. -/
theorem readAll_of_writesClosely (h : WritesClosely ts cs)
    (hname : ∀ r, .reference r ∈ ts → r.Nameable) : readAll cs = ts := by
  induction h with
  | nil hblanks => exact readAll_of_blanks hblanks
  | cons hblanks hlexeme hnext _ ih =>
    obtain ⟨c, more, rfl, hblank, hread⟩ :=
      hlexeme.readAt_next (fun r hr => hname r (hr ▸ .head _)) hnext
    rw [List.cons_append, readAll_of_readAt hblanks hblank hread,
      ih fun r hr => hname r (.tail _ hr)]

end Token

/-! ## References that can be read -/

/-- A path of characters of words is one that can be named. -/
theorem Reference.nameable_ofPath {path : List Char} (h : ∀ c ∈ path, isWordChar c = true) :
    (ofPath path).Nameable := by
  rw [ofPath]
  split_ifs with hcount hending
  · exact ⟨fun _ hc => absurd hc List.not_mem_nil, fun hfalse => Bool.noConfusion hfalse⟩
  · refine ⟨fun c hc => h c ?_, fun hfalse => Bool.noConfusion hfalse⟩
    rw [String.toList_ofList] at hc
    exact List.mem_of_mem_take hc
  · rw [List.isSuffixOf_iff_suffix] at hending
    refine ⟨fun c hc => h c ?_, fun _ => ⟨fun hpath => hcount ?_, ?_⟩⟩
    · rwa [String.toList_ofList] at hc
    · rw [← hpath, String.toList_ofList]
    · rwa [String.toList_ofList]

namespace Token

variable {c : Char} {word cs rest : List Char} {r : Reference}

theorem nameable_of_ofWord (h : ofWord word = .reference r)
    (hword : ∀ c ∈ word, isWordChar c = true) : r.Nameable := by
  unfold ofWord at h
  split_ifs at h
  · cases h
    exact Reference.nameable_ofPath (List.forall_mem_nil _)
  · split at h
    · rename_i path hpath
      cases h
      rw [after?_eq_some_iff] at hpath
      exact Reference.nameable_ofPath fun c hc => hword c (hpath ▸ List.mem_append_right _ hc)
    · cases h

/-- Only words are read as references. -/
theorem nameable_of_readAt (h : readAt c cs = (.reference r, rest)) : r.Nameable := by
  have ht := congrArg Prod.fst h
  by_cases hquote : isQuote c = true
  · rw [readAt_quote hquote] at ht
    split at ht <;> cases ht
  rcases readAt_cases (Bool.not_eq_true _ ▸ hquote) cs with
    hdigit | hword | ⟨op, behind, hop⟩ | ⟨-, -, -, hsingle⟩
  · rw [readAt_digit hdigit] at ht
    unfold ofNumeral at ht
    split at ht <;> cases ht
  · rw [readAt_wordStart hword] at ht
    refine nameable_of_ofWord ht (List.forall_mem_cons.2 ⟨?_, fun d hd => ?_⟩)
    · rw [isWordChar, isNameChar, hword]
      rfl
    · exact List.all_eq_true.1 List.all_takeWhile d hd
  · rw [readAt_operator hop] at ht
    cases ht
  · rw [hsingle] at ht
    unfold ofSingle at ht
    split_ifs at ht

end Token

/-- A text of a reference. -/
def Reference.source (r : Reference) : String :=
  if r.counted then dataRoot ++ "." ++ r.path ++ "." ++ countName else dataRoot ++ "." ++ r.path

theorem Reference.spelled_source (r : Reference) :
    (Token.reference r).Spelled r.source.toList := by
  rcases r with ⟨path, _ | _⟩
  · exact .path path
  · exact .pathCount path

/-- The references that can be named are those that some text is read as. -/
theorem Reference.nameable_iff {r : Reference} :
    r.Nameable ↔ ∃ s, Token.ofText s = [.reference r] := by
  constructor
  · intro h
    have hwritten := Token.WritesClosely.cons (List.forall_mem_nil _) r.spelled_source
      (.inr (fun c hc => absurd hc (by simp))) (.nil (List.forall_mem_nil _))
    rw [List.nil_append, List.append_nil] at hwritten
    refine ⟨r.source, Token.readAll_of_writesClosely hwritten fun r' hr' => ?_⟩
    cases List.mem_singleton.1 hr'
    exact h
  · rintro ⟨s, hs⟩
    rw [Token.ofText, Token.readAll_eq] at hs
    split at hs
    · cases hs
    · rename_i t rest hfirst
      cases (List.cons.inj hs).1
      unfold Token.readFirst? at hfirst
      split at hfirst
      · cases hfirst
      · exact Token.nameable_of_readAt (Option.some.inj hfirst)

/-! ## Zero without its sign -/

/-- The number, where zero has no sign. -/
def Number.unsignZero (n : Number) : Number := if n.rank? = some 0 then .zero else n

/-- A number that is not below zero has no sign then. -/
theorem Number.exists_unsignZero_eq {n : Number} (hfinite : n.isFinite = true)
    (hle : Number.zero.le n = true) : ∃ m, n.unsignZero = .finite false m := by
  unfold unsignZero
  split
  · exact ⟨.zero, rfl⟩
  · rename_i hrank
    obtain ⟨x, y, hx, hy, hxy⟩ := le_iff.1 hle
    obtain rfl : x = 0 := (Option.some.inj hx).symm
    cases n with
    | finite negative m =>
      cases negative with
      | false => exact ⟨m, rfl⟩
      | true =>
        refine absurd (hy.trans (congrArg some ?_)) hrank
        have hunits : y = -(m.units : Int) := (Option.some.inj hy).symm
        omega
    | _ => cases hfinite

/-- The literal, where zero has no sign. -/
def Literal.unsignZero : Literal → Literal
  | .number value => .number value.unsignZero
  | value => value

/-- A text of a literal. -/
def Literal.source : Literal → String
  | .text value => String.ofList ('\x22' :: (escapeFor '\x22' value.toList ++ ['\x22']))
  | .number value => value.text
  | .bool value => if value then "true" else "false"

theorem Literal.spelled_source {v : Literal}
    (h : ∀ n, v = .number n → n.isFinite = true ∧ Number.zero.le n = true) :
    (Token.literal v.unsignZero).Spelled v.unsignZero.source.toList := by
  cases v with
  | text value =>
    show (Token.literal (.text value)).Spelled (source (.text value)).toList
    rw [source, String.toList_ofList]
    exact .text (by decide) value
  | number value =>
    obtain ⟨m, hm⟩ := Number.exists_unsignZero_eq (h value rfl).1 (h value rfl).2
    rw [unsignZero, source, hm]
    exact Number.spelled_text m
  | bool value =>
    cases value with
    | true => exact .bool (by decide)
    | false => exact .bool (by decide)

/-! ## Operands that no condition tells apart -/

namespace Datum

variable {a a' : Datum}

/-- Two operands are the same, or each of them is a zero. -/
inductive SameOperand : Datum → Datum → Prop where
  | refl (a : Datum) : SameOperand a a
  | zeros {m n : Number} (hm : m.rank? = some 0) (hn : n.rank? = some 0) :
      SameOperand (.number m) (.number n)

theorem SameOperand.isTrue_eq (h : SameOperand a a') : a.isTrue = a'.isTrue := by
  cases h with
  | refl => rfl
  | zeros hm hn => rw [isTrue, isTrue, Number.isNonzero, Number.isNonzero, hm, hn]

theorem equalsByValue_congr (h : a.equalsByValue a' = true) (b : Datum) :
    a.equalsByValue b = a'.equalsByValue b := by
  rw [Bool.eq_iff_iff]
  exact ⟨equalsByValue_trans (equalsByValue_comm a a' ▸ h), equalsByValue_trans h⟩

theorem SameOperand.looselyEquals_eq (h : SameOperand a a') (b : Datum) :
    a.looselyEquals b = a'.looselyEquals b := by
  cases h with
  | refl => rfl
  | @zeros m n hm hn =>
    have hsame : (number m).equalsByValue (number n) = true := by
      simp [equalsByValue, asNumber?, Number.isNaN, Number.eqv, hm, hn]
    cases b with
    | bool value => exact congrArg (· == value) (SameOperand.zeros hm hn).isTrue_eq
    | _ => exact equalsByValue_congr hsame _

theorem SameOperand.ordered_eq {related : Number → Number → Bool} (h : SameOperand a a')
    (hrelated : ∀ {m m' : Number} (n : Number), m.rank? = m'.rank? → related m n = related m' n)
    (b : Datum) : a.ordered related b = a'.ordered related b := by
  cases h with
  | refl => rfl
  | @zeros m m' hm hm' =>
    have hx : (number m).asNumber? = some m := by simp [asNumber?, Number.isNaN, hm]
    have hx' : (number m').asNumber? = some m' := by simp [asNumber?, Number.isNaN, hm']
    rw [ordered, ordered, hx, hx']
    cases b.asNumber? with
    | none => rfl
    | some n => exact hrelated n (hm.trans hm'.symm)

/-- A comparison with either zero says the same. -/
theorem SameOperand.holds_eq (h : SameOperand a a') (c : Comparison) (b : Datum) :
    c.holds a b = c.holds a' b := by
  cases c with
  | equal => exact h.looselyEquals_eq b
  | notEqual => exact congrArg not (h.looselyEquals_eq b)
  | greater | less => exact h.ordered_eq (fun n hm => by simp only [Number.lt, hm]) b
  | greaterOrEqual | lessOrEqual => exact h.ordered_eq (fun n hm => by simp only [Number.le, hm]) b

end Datum

theorem Comparison.holds_congr {a a' b b' : Datum} (ha : a.SameOperand a')
    (hb : b.SameOperand b') (c : Comparison) : c.holds a b = c.holds a' b' :=
  calc c.holds a b
    _ = c.holds a' b := ha.holds_eq c b
    _ = c.reverse.holds b a' := (c.holds_reverse b a').symm
    _ = c.reverse.holds b' a' := hb.holds_eq c.reverse a'
    _ = c.holds a' b' := c.holds_reverse b' a'

/-! ## Operands put in parentheses -/

namespace Expression

variable {e e' : Expression}

/-- The second expression is the first one with each operand of a binary operator in parentheses,
and with zeros without a sign. There may be more parentheses around any part. -/
inductive Encloses : Expression → Expression → Prop where
  | literal (value : Literal) : Encloses (.literal value) (.literal value.unsignZero)
  | reference (target : Reference) : Encloses (.reference target) (.reference target)
  | group {inner inner' : Expression} (h : Encloses inner inner') :
      Encloses (.group inner) (.group inner')
  | binary (op : Operator) {left left' right right' : Expression}
      (hleft : Encloses left (.group left')) (hright : Encloses right (.group right')) :
      Encloses (.binary op left right) (.binary op (.group left') (.group right'))
  /-- Parentheses around a part. -/
  | around {e e' : Expression} (h : Encloses e e') : Encloses e (.group e')

/-- The expression with each operand of a binary operator in one more pair of parentheses. -/
def enclosed : Expression → Expression
  | .binary op left right => .binary op (.group left.enclosed) (.group right.enclosed)
  | .literal value => .literal value.unsignZero
  | .reference target => .reference target
  | .group inner => .group inner.enclosed

theorem encloses_enclosed (e : Expression) : e.Encloses e.enclosed := by
  induction e with
  | binary op left right ihl ihr => exact .binary op ihl.around ihr.around
  | literal value => exact .literal value
  | reference target => exact .reference target
  | group inner ih => exact .group ih

namespace Encloses

/-- Between parentheses every operator may stand. -/
theorem fits (h : Encloses e e') : Fits 0 e' := by
  induction h with
  | literal value => trivial
  | reference target => trivial
  | group _ ih | around _ ih => exact ih
  | binary op _ _ ihl ihr => exact ⟨Nat.zero_le _, ihl, ihr⟩

theorem operators_eq (h : Encloses e e') : e'.operators = e.operators := by
  induction h with
  | literal value => rfl
  | reference target => rfl
  | group _ ih | around _ ih => exact ih
  | binary op _ _ ihl ihr =>
    rw [operators] at ihl ihr
    simp only [operators, ihl, ihr]

theorem mem_tokens (h : Encloses e e') {r : Reference} (hr : .reference r ∈ e'.tokens) :
    .reference r ∈ e.tokens := by
  induction h with
  | literal value => simp [tokens] at hr
  | reference target => exact hr
  | group _ ih | around _ ih => simp_all [tokens]
  | binary op _ _ ihl ihr =>
    simp only [tokens, List.mem_append, List.mem_cons, List.cons_append] at hr ihl ihr ⊢
    tauto

/-- Each part has the same value, or a zero instead of another. -/
theorem sameOperand (h : Encloses e e') (data : Datum) :
    (e.value data).SameOperand (e'.value data) := by
  induction h with
  | literal value =>
    cases value with
    | number n =>
      show Datum.SameOperand (.number n) (.number n.unsignZero)
      unfold Number.unsignZero
      split
      · exact .zeros ‹_› rfl
      · exact .refl _
    | _ => exact .refl _
  | reference target => exact .refl _
  | group _ ih | around _ ih => exact ih
  | binary op _ _ ihl ihr =>
    rw [value_group] at ihl ihr
    cases op with
    | and => simp only [value, ihl.isTrue_eq, ihr.isTrue_eq, Datum.SameOperand.refl]
    | or => simp only [value, ihl.isTrue_eq, ihr.isTrue_eq, Datum.SameOperand.refl]
    | compare c => simp only [value, c.holds_congr ihl ihr, Datum.SameOperand.refl]

/-- An expression holds of the same data when its operands are in parentheses. -/
theorem holds_eq (h : Encloses e e') (data : Datum) : e'.holds data = e.holds data :=
  (h.sameOperand data).isTrue_eq.symm

end Encloses

/-! ## A text of an expression -/

/-- The text of an expression with each operand of a binary operator in parentheses. -/
def source : Expression → String
  | .binary op left right => "(" ++ left.source ++ ")" ++ op.symbol ++ "(" ++ right.source ++ ")"
  | .literal value => value.unsignZero.source
  | .reference target => target.source
  | .group inner => "(" ++ inner.source ++ ")"

end Expression

namespace Token.WritesClosely

variable {ts us : List Token} {cs rest : List Char}

/-- A token is spelled without a blank before it. -/
theorem cons_nil {t : Token} {lexeme : List Char} (hlexeme : t.Spelled lexeme)
    (hnext : t.isParen = true ∨ ∀ c, rest.head? = some c → isSeparator c = true)
    (hrest : WritesClosely ts rest) : WritesClosely (t :: ts) (lexeme ++ rest) :=
  .cons (List.forall_mem_nil _) hlexeme hnext hrest

/-- What is spelled before a closing parenthesis is spelled between two parentheses, whatever
follows. -/
theorem group (h : ∀ ts rest, (∀ c, rest.head? = some c → isSeparator c = true) →
      WritesClosely ts rest → WritesClosely (us ++ ts) (cs ++ rest))
    (hrest : WritesClosely ts rest) :
    WritesClosely (.openParen :: us ++ [.closeParen] ++ ts) ('(' :: cs ++ [')'] ++ rest) := by
  have hclosed := cons_nil .closeParen (.inl rfl) hrest
  have hinner := h _ _ (by simp [isSeparator]) hclosed
  simpa using cons_nil .openParen (.inl rfl) hinner

end Token.WritesClosely

namespace Expression

/-- The text of an expression spells it with its operands in parentheses, if its numbers have a
numeral, and more tokens may be spelled behind it. -/
theorem writesClosely_source_append (e : Expression)
    (hnumbers : ∀ n, .literal (.number n) ∈ e.tokens →
      n.isFinite = true ∧ Number.zero.le n = true) :
    ∀ ts rest, (∀ c, rest.head? = some c → isSeparator c = true) →
      Token.WritesClosely ts rest →
      Token.WritesClosely (e.enclosed.tokens ++ ts) (e.source.toList ++ rest) := by
  -- Operands stand between parentheses, so no token of a part goes on into what is behind it.
  induction e with
  | literal value =>
    intro ts rest hnext hrest
    exact .cons_nil (Literal.spelled_source fun n hn => hnumbers n (hn ▸ .head _)) (.inr hnext)
      hrest
  | reference target =>
    intro ts rest hnext hrest
    exact .cons_nil target.spelled_source (.inr hnext) hrest
  | group inner ih =>
    intro ts rest hnext hrest
    have hinner := ih fun n hn => hnumbers n (.tail _ (List.mem_append_left _ hn))
    simpa [source, enclosed, tokens] using Token.WritesClosely.group hinner hrest
  | binary op left right ihl ihr =>
    intro ts rest hnext hrest
    have hleft := ihl fun n hn => hnumbers n (List.mem_append_left _ hn)
    have hright := ihr fun n hn => hnumbers n (List.mem_append_right _ (.tail _ hn))
    have hbehind := Token.WritesClosely.group hright hrest
    have hop := Token.WritesClosely.cons_nil (.operator op)
      (.inr (by simp [isSeparator])) hbehind
    simpa [source, enclosed, tokens] using Token.WritesClosely.group hleft hop

theorem writesClosely_source {e : Expression}
    (hnumbers : ∀ n, .literal (.number n) ∈ e.tokens →
      n.isFinite = true ∧ Number.zero.le n = true) :
    Token.WritesClosely e.enclosed.tokens e.source.toList := by
  have h := e.writesClosely_source_append hnumbers [] [] nofun (.nil (List.forall_mem_nil _))
  rwa [List.append_nil, List.append_nil] at h

/-! ## Reading such a text -/

/-- A text that spells an expression with its operands in parentheses is read as such. -/
theorem ofText?_of_encloses {e e' : Expression} (h : e.Encloses e') (hdepth : e'.depth ≤ 64)
    (hops : e.operators ≤ 256)
    (hnames : ∀ r, .reference r ∈ e.tokens → ∃ s, Token.ofText s = [.reference r]) {s : String}
    (hs : Token.WritesClosely e'.tokens s.toList) : ofText? s = .ok e' := by
  have hread : Token.ofText s = e'.tokens := Token.readAll_of_writesClosely hs fun r hr =>
    Reference.nameable_iff.2 (hnames r (h.mem_tokens hr))
  have hderives : Derives .disjunction e' := derives_iff_fits.2 h.fits
  rw [ofText?, hread]
  exact ofTokens?_of_writtenBy ⟨rfl, hderives, hdepth, h.operators_eq.trans_le hops⟩

/-- Every expression has a text that means the same. With each operand of a binary operator in
parentheses, and with any more parentheses and blanks, an expression is read, if it has numerals for
its numbers and names for its references and keeps to the limits on conditions. What is read holds
of the same data as the expression. One such text is its `source`. -/
theorem enclosed_means_same (e : Expression)
    (hnumbers : ∀ n, .literal (.number n) ∈ e.tokens →
      n.isFinite = true ∧ Number.zero.le n = true)
    (hnames : ∀ r, .reference r ∈ e.tokens → ∃ s, Token.ofText s = [.reference r])
    (hops : e.operators ≤ 256) :
    (∀ e' s, e.Encloses e' → e'.depth ≤ 64 → Token.WritesClosely e'.tokens s.toList →
      ofText? s = .ok e' ∧ ∀ data, e'.holds data = e.holds data) ∧
    e.Encloses e.enclosed ∧ Token.WritesClosely e.enclosed.tokens e.source.toList :=
  ⟨fun _ _ h hdepth hs =>
      ⟨ofText?_of_encloses h hdepth hops hnames hs, h.holds_eq⟩,
    e.encloses_enclosed, writesClosely_source hnumbers⟩

/-- A comparison of a comparison with a disjunction, and in it a zero with a sign. -/
theorem enclosed_means_same_nested :
    let e : Expression := .binary (.compare .equal)
      (.binary (.compare .greater) (.reference ⟨"a", false⟩) (.literal (.number (.ofNat 1))))
      (.binary .or (.literal (.number (.finite true .zero))) (.literal (.text "x")))
    let s := "((Model.a)>(1))==((0)||(\x22x\x22))"
    let data : Datum := .record [("a", .text "2")]
    (∀ n, .literal (.number n) ∈ e.tokens → n.isFinite = true ∧ Number.zero.le n = true) ∧
      (∀ r, .reference r ∈ e.tokens → ∃ s, Token.ofText s = [.reference r]) ∧
      e.operators ≤ 256 ∧ e.Encloses e.enclosed ∧ e.enclosed.depth ≤ 64 ∧
      Token.WritesClosely e.enclosed.tokens s.toList ∧
      ofText? s = .ok e.enclosed ∧ e.enclosed.holds data = true := by
  intro e s data
  have hnumbers : ∀ n, .literal (.number n) ∈ e.tokens →
      n.isFinite = true ∧ Number.zero.le n = true := by
    intro n hn
    have hn : n = .ofNat 1 ∨ n = .finite true .zero := by simpa [e, tokens] using hn
    rcases hn with hn | hn <;> rw [hn] <;> decide +kernel
  have hnames : ∀ r, .reference r ∈ e.tokens → ∃ s, Token.ofText s = [.reference r] := by
    intro r hr
    obtain rfl : r = ⟨"a", false⟩ := by simpa [e, tokens] using hr
    exact ⟨"Model.a", by decide +kernel⟩
  have hops : e.operators ≤ 256 := by decide
  have hdepth : e.enclosed.depth ≤ 64 := by decide
  have hsource : e.source = s := by decide +kernel
  obtain ⟨hread, hencloses, hwrites⟩ := enclosed_means_same e hnumbers hnames hops
  rw [hsource] at hwrites
  obtain ⟨htext, hholds⟩ := hread _ s hencloses hdepth hwrites
  refine ⟨hnumbers, hnames, hops, hencloses, hdepth, hwrites, htext, ?_⟩
  rw [hholds]
  decide +kernel

end Expression

end FormLetter
