import FormLetter.Proofs.FilledCondition
import FormLetter.Proofs.NumberCondition

/-!
# Values between quotes

A condition compares a text with a placeholder by putting the placeholder between quotes. Whatever
value a repeat fills in there is escaped, and what the quotes then enclose is read as the very
value, with what stood around the placeholder read as before. So no value, whatever quotes and
backslashes it has, ends the quoted text or takes part in the condition in any other way.

* `QuotedPart`: what may stand between two quotes. `QuotedPart.readQuoted`: such a part is read up
  to the quote behind it, and `unescape` gives what is read.
* `unescape_escape`, `unescape_append`: escaping is undone, part by part.
* `Token.ofText_quoted_value`: a quoted text with an escaped value in it is one token.
* `EqualsText`: the ways to ask whether an operand equals a quoted text.
* `Renderer.render_quoted_value`: which elements stay that have such a condition.
-/

namespace FormLetter

variable {q c : Char} {cs ds rest : List Char}

/-! ## Parts of a quoted text -/

/-- What may stand between two quotes: every backslash has the character behind it that it escapes,
and no quote of the kind that stands around it is without a backslash. -/
inductive QuotedPart (quote : Char) : List Char → Prop where
  | nil : QuotedPart quote []
  | plain {c : Char} {cs : List Char} (hquote : c ≠ quote) (hbackslash : c ≠ backslash)
      (hcs : QuotedPart quote cs) : QuotedPart quote (c :: cs)
  | escaped (c : Char) {cs : List Char} (hcs : QuotedPart quote cs) :
      QuotedPart quote (backslash :: c :: cs)

/-- What is read between two quotes: the characters behind backslashes, and those that stand for
themselves. -/
def unescape : List Char → List Char
  | [] => []
  | [c] => [c]
  | c :: d :: cs => if c = backslash then d :: unescape cs else c :: unescape (d :: cs)

theorem unescape_backslash (c : Char) (cs : List Char) :
    unescape (backslash :: c :: cs) = c :: unescape cs := if_pos rfl

theorem unescape_plain (h : c ≠ backslash) (cs : List Char) :
    unescape (c :: cs) = c :: unescape cs := by
  cases cs with
  | nil => rfl
  | cons d cs => exact if_neg h

namespace QuotedPart

/-- A part ends outside of an escape and has no closing quote. -/
theorem iff_quoteState? (hq : q ≠ backslash) :
    QuotedPart q cs ↔ quoteState? q false cs = some false := by
  constructor
  · intro h
    induction h with
    | nil => rfl
    | plain hquote hbackslash _ ih => rwa [quoteState?_plain hquote hbackslash]
    | escaped c _ ih => rwa [quoteState?_backslash hq, quoteState?_escaped]
  · intro h
    induction cs using unescape.induct with
    | case1 => exact .nil
    | case2 c =>
      by_cases hquote : c = q
      · rw [hquote, quoteState?_quote] at h
        cases h
      · by_cases hc : c = backslash
        · rw [hc, quoteState?_backslash hq] at h
          cases h
        · exact .plain hquote hc .nil
    | case3 d cs ih =>
      rw [quoteState?_backslash hq, quoteState?_escaped] at h
      exact .escaped d (ih h)
    | case4 c d cs hc ih =>
      by_cases hquote : c = q
      · rw [hquote, quoteState?_quote] at h
        cases h
      · rw [quoteState?_plain hquote hc] at h
        exact .plain hquote hc (ih h)

theorem append (hcs : QuotedPart q cs) (hds : QuotedPart q ds) : QuotedPart q (cs ++ ds) := by
  induction hcs with
  | nil => exact hds
  | plain hquote hbackslash _ ih => exact .plain hquote hbackslash ih
  | escaped c _ ih => exact .escaped c ih

/-- Escaped text may stand between quotes of either kind. -/
theorem escape (hq : isQuote q = true) (cs : List Char) : QuotedPart q (escape cs) := by
  induction cs with
  | nil => exact .nil
  | cons c cs ih =>
    rw [FormLetter.escape]
    by_cases hc : needsEscape c = true
    · rw [if_pos hc]
      exact .escaped c ih
    · rw [if_neg hc]
      refine .plain (fun h => hc ?_) (fun h => hc ?_) ih
      · rw [h]
        exact needsEscape_of_isQuote hq
      · rw [h]
        rfl

end QuotedPart

/-- Parts of a quoted text are read one after the other. -/
theorem unescape_append (h : QuotedPart q cs) (ds : List Char) :
    unescape (cs ++ ds) = unescape cs ++ unescape ds := by
  induction h with
  | nil => rfl
  | @plain c cs _ hbackslash _ ih =>
    rw [List.cons_append, unescape_plain hbackslash, ih, unescape_plain hbackslash]
    rfl
  | @escaped c cs _ ih =>
    rw [List.cons_append, List.cons_append, unescape_backslash, ih, unescape_backslash]
    rfl

/-- Escaping is undone. -/
theorem unescape_escape (cs : List Char) : unescape (escape cs) = cs := by
  induction cs with
  | nil => rfl
  | cons c cs ih =>
    rw [escape]
    by_cases hc : needsEscape c = true
    · rw [if_pos hc, unescape_backslash, ih]
    · rw [if_neg hc, unescape_plain (fun h => hc (by rw [h]; rfl)), ih]

/-! ## Reading quoted texts -/

/-- A part is read up to the quote behind it. -/
theorem QuotedPart.readQuoted (hq : q ≠ backslash) (h : QuotedPart q cs) (rest : List Char) :
    readQuoted q (cs ++ q :: rest) = some (unescape cs, rest) := by
  induction h with
  | nil => exact readQuoted_quote q rest
  | plain hquote hbackslash _ ih =>
    rw [List.cons_append, readQuoted_plain hquote hbackslash, ih, unescape_plain hbackslash]
    rfl
  | escaped c _ ih =>
    rw [List.cons_append, List.cons_append, readQuoted_backslash hq, ih, unescape_backslash]
    rfl

/-- A quoted text is one token, behind any blanks. -/
theorem QuotedPart.readAll {blanks : List Char} (hblanks : ∀ d ∈ blanks, isBlank d = true)
    (hq : isQuote q = true) (h : QuotedPart q cs) (rest : List Char) :
    Token.readAll (blanks ++ q :: (cs ++ q :: rest)) =
      .literal (.text (String.ofList (unescape cs))) :: Token.readAll rest := by
  have hread : Token.readAt q (cs ++ q :: rest) =
      (.literal (.text (String.ofList (unescape cs))), rest) := by
    rw [Token.readAt_quote hq, h.readQuoted (ne_backslash_of_isQuote hq)]
  have hblank : isBlank q = false := by
    simp only [isQuote, Bool.or_eq_true, beq_iff_eq] at hq
    rcases hq with rfl | rfl <;> rfl
  exact Token.readAll_of_readAt hblanks hblank hread

/-- An escaped value between two parts is read as the value itself between what the parts say. -/
theorem unescape_around_escape (hq : isQuote q = true) (hcs : QuotedPart q cs) (value : List Char) :
    unescape (cs ++ (escape value ++ ds)) = unescape cs ++ (value ++ unescape ds) := by
  rw [unescape_append hcs, unescape_append (.escape hq value), unescape_escape]

/-- A quoted text with an escaped value between two parts is one token that says what the parts say
with the value itself between them. -/
theorem Token.ofText_quoted_value (hq : isQuote q = true) (hcs : QuotedPart q cs)
    (hds : QuotedPart q ds) (value : List Char) :
    ofText (String.ofList (q :: (cs ++ (escape value ++ (ds ++ [q]))))) =
      [.literal (.text (String.ofList (unescape cs ++ (value ++ unescape ds))))] := by
  have hpart : QuotedPart q (cs ++ (escape value ++ ds)) :=
    hcs.append ((QuotedPart.escape hq value).append hds)
  have hnone : ∀ d ∈ ([] : List Char), isBlank d = true := nofun
  have hread := hpart.readAll hnone hq []
  rw [unescape_around_escape hq hcs, readAll_of_blanks hnone, List.append_assoc,
    List.append_assoc] at hread
  rw [ofText, String.toList_ofList]
  exact hread

/-! ## Asking whether an operand equals a quoted text -/

/-- A text that asks whether what stands before it equals a quoted text, with any blanks around the
two. -/
inductive EqualsText (value : String) : List Char → Prop where
  | intro {before between part behind : List Char} {quote : Char}
      (hbefore : ∀ d ∈ before, isBlank d = true) (hbetween : ∀ d ∈ between, isBlank d = true)
      (hquote : isQuote quote = true) (hpart : QuotedPart quote part)
      (hvalue : value = String.ofList (unescape part)) (hbehind : ∀ d ∈ behind, isBlank d = true) :
      EqualsText value
        (before ++ '=' :: '=' :: (between ++ quote :: (part ++ quote :: behind)))

/-- It has two tokens. -/
theorem EqualsText.readAll {value : String} (h : EqualsText value cs) :
    Token.readAll cs = [.operator (.compare .equal), .literal (.text value)] := by
  cases h with
  | @intro before between part behind quote hbefore hbetween hquote hpart hvalue hbehind =>
    rw [Token.readAll_of_readAt hbefore (by decide) (Token.readAt_operator rfl),
      hpart.readAll hbetween hquote, Token.readAll_of_blanks hbehind, hvalue]

/-- A quoted text before it is compared with the other one. -/
theorem evaluate?_quoted {condition value : String} {blanks part behind : List Char}
    (hcondition : condition.toList = blanks ++ q :: (part ++ q :: behind))
    (hblanks : ∀ d ∈ blanks, isBlank d = true) (hq : isQuote q = true) (hpart : QuotedPart q part)
    (hbehind : EqualsText value behind) (data : Datum) :
    evaluate? condition data =
      some ((Datum.text (String.ofList (unescape part))).looselyEquals (.text value)) := by
  have htokens : Token.ofText condition =
      [.literal (.text (String.ofList (unescape part))), .operator (.compare .equal),
        .literal (.text value)] := by
    rw [Token.ofText, hcondition, hpart.readAll hblanks hq, hbehind.readAll]
  have hread : Expression.ofText? condition =
      .ok (.binary (.compare .equal) (.literal (.text (String.ofList (unescape part))))
        (.literal (.text value))) := by
    rw [Expression.ofText?, htokens]
    rfl
  rw [evaluate?, hread]
  rfl

/-- A condition that asks whether a quoted text equals another one, with a placeholder in the first
of the two and no other brackets. -/
structure QuotedComparison where
  blanks : List Char
  quote : Char
  /-- What the quoted text has before the placeholder. -/
  opened : List Char
  written : List Char
  placeholder : Placeholder
  /-- What the quoted text has behind the placeholder. -/
  closed : List Char
  /-- What follows the quoted text. -/
  behind : List Char
  /-- What the quoted text is compared with. -/
  compared : String
  isBlank_of_mem : ∀ d ∈ blanks, isBlank d = true
  isQuote_quote : isQuote quote = true
  quotedPart_opened : QuotedPart quote opened
  quotedPart_closed : QuotedPart quote closed
  written_placeholder : placeholder.Written written
  equalsText_behind : EqualsText compared behind
  bracketFree_opened : BracketFree opened
  bracketFree_closed : BracketFree closed
  bracketFree_behind : BracketFree behind

namespace QuotedComparison

/-- The condition up to the placeholder. -/
def first (c : QuotedComparison) : String := String.ofList (c.blanks ++ c.quote :: c.opened)

/-- The condition from the placeholder on. -/
def last (c : QuotedComparison) : String := String.ofList (c.closed ++ c.quote :: c.behind)

/-- The condition as it is written. -/
def text (c : QuotedComparison) : String := c.first ++ String.ofList c.written ++ c.last

/-- What the first quoted text says if the placeholder stands for a value. -/
def quoted (c : QuotedComparison) (value : String) : String :=
  String.ofList (unescape c.opened ++ (value.toList ++ unescape c.closed))

theorem bracketFree_quote (c : QuotedComparison) : isBracket c.quote = false :=
  isBracket_eq_false (by decide) (by decide) c.isQuote_quote

theorem bracketFree_first (c : QuotedComparison) : BracketFree c.first.toList := by
  rw [first, String.toList_ofList]
  exact (bracketFree_of_forall (by decide) (by decide) c.isBlank_of_mem).append
    (.cons c.bracketFree_quote c.bracketFree_opened)

theorem bracketFree_last (c : QuotedComparison) : BracketFree c.last.toList := by
  rw [last, String.toList_ofList]
  exact c.bracketFree_closed.append (.cons c.bracketFree_quote c.bracketFree_behind)

/-- With an escaped value in it the condition compares what the quoted text says then. -/
theorem evaluate? (c : QuotedComparison) (value : String) (data : Datum) :
    FormLetter.evaluate? (c.first ++ String.ofList (escape value.toList) ++ c.last) data =
      some ((Datum.text (c.quoted value)).looselyEquals (.text c.compared)) := by
  have hpart : QuotedPart c.quote (c.opened ++ (escape value.toList ++ c.closed)) :=
    c.quotedPart_opened.append ((QuotedPart.escape c.isQuote_quote _).append c.quotedPart_closed)
  rw [quoted, ← unescape_around_escape c.isQuote_quote c.quotedPart_opened]
  refine evaluate?_quoted ?_ c.isBlank_of_mem c.isQuote_quote hpart c.equalsText_behind data
  simp only [first, last, String.toList_append, String.toList_ofList, List.append_assoc,
    List.cons_append]

end QuotedComparison

/-! ## Elements with such a condition -/

theorem Binding.get?_of_text {b : Binding} {path value : String}
    (h : b.item.at? path = some (.text value)) (hne : value ≠ "") : b.get? path = some value := by
  refine Binding.get?_eq_some_iff.2 ⟨hne, ?_⟩
  rw [h]
  rfl

/-- What such a condition of a copy evaluates to, if the value for the placeholder is a text of the
item of the innermost repeat around it. -/
theorem ElementCopy.evaluated_quoted {job : Job} {copy : ElementCopy} {c : QuotedComparison}
    (hcondition : copy.tag.attributes.get? job.settings.conditionAttribute = some c.text)
    {outer : List Binding} {b : Binding} {path value : String}
    (hbindings : copy.bindings = outer ++ [b])
    (hpath : b.pathWithin? c.placeholder.path = some path)
    (htext : b.item.at? path = some (.text value)) (hne : value ≠ "")
    (houter : ∀ o ∈ outer, (job.sourceOf o).get? c.placeholder.path = none) :
    ((copy.filledTag job).attributes.get? job.settings.conditionAttribute).bind
        (evaluate? · job.data) =
      some ((Datum.text (c.quoted value)).looselyEquals (.text c.compared)) := by
  have hvalue : (job.sourceOf b).get? c.placeholder.path = some value := by
    rw [Job.get?_sourceOf hpath, Binding.get?_of_text htext hne]
  have hwritten : c.placeholder.Written (String.ofList c.written).toList := by
    rw [String.toList_ofList]
    exact c.written_placeholder
  rw [filledTag, Tag.get?_fillThrough, hcondition, Option.map_some, hbindings,
    QuotedComparison.text, Job.fillAttribute_condition_innermost c.bracketFree_first hwritten
      c.bracketFree_last houter hvalue, Option.bind_some, c.evaluate?]

/-- A condition that can be read hides its element exactly if it does not hold. -/
theorem Job.hides_of_evaluate? {job : Job} {tag : Tag} {holds : Bool}
    (h : (tag.attributes.get? job.settings.conditionAttribute).bind (evaluate? · job.data) =
      some holds) : job.misreads tag = false ∧ job.hides tag = !holds := by
  obtain ⟨condition, hcondition, hevaluate⟩ := Option.bind_eq_some_iff.1 h
  rw [misreads, hides, hcondition, Option.any_some, Option.any_some, hevaluate]
  exact ⟨rfl, by cases holds <;> rfl⟩

/-- A quoted text with an escaped value in it is one token: it says what stands around the value
without the backslashes that escape, with the value itself between. And a letter is what is left of
the expanded document without the elements whose condition does not hold, where the copies are all
elements of the expanded document. Where the condition of a copy asks whether a quoted text with a
placeholder in it equals another text, and the placeholder is for a field of the innermost repeat
around the copy, whose item has a text there that is not empty, the condition is read. The copy
stays exactly if the two texts are equal once that text stands in the place of the placeholder,
unless it stands within an element that goes. No repeat further out may have a value for the
placeholder. -/
theorem Renderer.render_quoted_value (r : Renderer) (document : Forest) (values : Entries String)
    (data : Datum) :
    let job := r.job values data
    let expanded := (document.expand job).1
    let copies := (document.draft job [] {}).1.copies job
    let kept := expanded.dropWhere job.hides
    let rendering := r.render document values data
    (∀ q opened closed value, isQuote q = true → QuotedPart q opened → QuotedPart q closed →
        Token.ofText (String.ofList (q :: (opened ++ (escape value ++ (closed ++ [q]))))) =
          [.literal (.text (String.ofList (unescape opened ++ (value ++ unescape closed))))]) ∧
      (rendering.document = (kept.mapTags (·.without job.settings.conditionAttribute)).fill
          (.ofValues values) ∧
        rendering.report.unsupported = shownCount ((document.expand job).2.unsupported +
          (expanded.occurrences.filter (Occurrence.isReached job.hides)).countP
            (Occurrence.isElement job.misreads))) ∧
      copies.map (ElementCopy.occurrence job) =
        expanded.occurrences.filter (Occurrence.isElement fun _ => true) ∧
      ∀ copy ∈ copies, ∀ c : QuotedComparison,
        copy.tag.attributes.get? job.settings.conditionAttribute = some c.text →
        ∀ outer b path value, copy.bindings = outer ++ [b] →
          b.pathWithin? c.placeholder.path = some path →
          b.item.at? path = some (.text value) → value ≠ "" →
          (∀ o ∈ outer, (job.sourceOf o).get? c.placeholder.path = none) →
          let equal := (Datum.text (c.quoted value)).looselyEquals (.text c.compared)
          ((copy.filledTag job).attributes.get? job.settings.conditionAttribute).bind
              (evaluate? · data) = some equal ∧
            job.misreads (copy.filledTag job) = false ∧
            (copy.occurrence job ∈ kept.occurrences ↔
              (copy.occurrence job).isReached job.hides = true ∧ equal = true) := by
  intro job expanded copies kept rendering
  refine ⟨fun q opened closed value hq hopened hclosed =>
      Token.ofText_quoted_value hq hopened hclosed value,
    r.render_exact document values data, document.map_occurrence_copies job, ?_⟩
  intro copy hcopy c hcondition outer b path value hbindings hpath htext hne houter
  have hevaluate := ElementCopy.evaluated_quoted hcondition hbindings hpath htext hne houter
  obtain ⟨hreads, hhides⟩ := Job.hides_of_evaluate? hevaluate
  have hkept : kept.occurrences = expanded.occurrences.filter (Occurrence.remains job.hides) :=
    Forest.occurrencesWithin_dropWhere rfl expanded
  have hmem : copy.occurrence job ∈ expanded.occurrences := Forest.occurrence_mem_expand hcopy
  have helement : (copy.occurrence job).isElement job.hides = job.hides (copy.filledTag job) := rfl
  refine ⟨hevaluate, hreads, ?_⟩
  rw [hkept, List.mem_filter, Occurrence.remains, helement, hhides, Bool.not_not, Bool.and_eq_true]
  exact ⟨fun h => h.2, fun h => ⟨hmem, h⟩⟩

/-! ## A name with a quote in it

A repeated element that asks for a name with a quote of the kind that stands around the placeholder,
and a backslash before the closing quote. -/

namespace ComparedText

def name : String := "O'Brien\\"

def item : Datum := .record [("name", .text name)]

def data : Datum := .record [("xs", .list [item])]

/-- The condition `'\"[[x.name]]' == "\"O'Brien\\"`. -/
def comparison : QuotedComparison where
  blanks := []
  quote := '\x27'
  opened := ['\\', '\x22']
  written := "[[x.name]]".toList
  placeholder := ⟨"x.name", false⟩
  closed := []
  behind := " == \"\\\"O'Brien\\\\\"".toList
  compared := "\"O'Brien\\"
  isBlank_of_mem := nofun
  isQuote_quote := by decide
  quotedPart_opened := .escaped _ .nil
  quotedPart_closed := .nil
  written_placeholder :=
    ⟨"x.name".toList, rfl, (by decide : BracketFree "x.name".toList), by decide⟩
  equalsText_behind := by
    have hblank : ∀ d ∈ [' '], isBlank d = true := List.forall_mem_singleton.2 rfl
    have hpart : QuotedPart '\x22' "\\\"O'Brien\\\\".toList :=
      (QuotedPart.iff_quoteState? (by decide)).2 (by decide +kernel)
    exact .intro hblank hblank (by decide) hpart (by decide +kernel) nofun
  bracketFree_opened := by decide
  bracketFree_closed := nofun
  bracketFree_behind := by decide

def tag : Tag := ⟨"p", .ofList [("data-if", comparison.text)]⟩

def document : Forest :=
  .element ⟨"p", tag.attributes.insert "data-repeat" "x in Model.xs"⟩ (.text "t" .nil) .nil

def job : Job := Renderer.default.job .empty data

/-- The only copy that the repeat makes. -/
def copy : ElementCopy := ⟨[], [⟨"x", item⟩], tag⟩

theorem copies_eq : (document.draft job [] {}).1.copies job = [copy] := by
  with_unfolding_all rfl

end ComparedText

open ComparedText in
/-- The name equals itself, so the copy stays. -/
theorem render_quoted_value_name :
    copy ∈ (document.draft job [] {}).1.copies job ∧
      job.misreads (copy.filledTag job) = false ∧
      copy.occurrence job ∈ ((document.expand job).1.dropWhere job.hides).occurrences := by
  have hcopy : copy ∈ (document.draft job [] {}).1.copies job := by
    rw [copies_eq]
    exact .head _
  obtain ⟨-, -, -, hjudged⟩ := Renderer.default.render_quoted_value document .empty data
  obtain ⟨-, hreads, hkept⟩ := hjudged copy hcopy comparison rfl [] ⟨"x", item⟩ "name" name rfl
    (by decide) rfl (by decide) nofun
  have hequal : (Datum.text (comparison.quoted name)).looselyEquals (.text comparison.compared) =
      true := by decide +kernel
  exact ⟨hcopy, hreads, hkept.2 ⟨rfl, hequal⟩⟩

end FormLetter
