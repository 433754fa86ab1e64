import FormLetter.Proofs.DraftElements
import FormLetter.Proofs.Ordering
import FormLetter.Proofs.Spelling
import FormLetter.Proofs.Tidy
import FormLetter.Proofs.Unanswered

/-!
# Numbers in conditions

A condition may compare a placeholder with a numeral. Once a repeat has put the number of its item
into the placeholder, the text of the number is read as a numeral itself, and the comparison is one
of the two numbers. But the conditions know no minus: with a number that has one the condition
cannot be read.

* `ComparesWith.readAll`: the tokens of a comparison with a numeral.
* `evaluate?_number`, `evaluate?_minus`: what a number compared with a numeral says.
* `Job.fillAttribute_condition`: what a condition looks like once it is filled in.
* `Renderer.render_number_condition`: which elements stay that have such a condition.
-/

namespace FormLetter

/-! ## Comparing numbers -/

theorem Comparison.holds_number {a b : Number} (ha : a.isNaN = false) (hb : b.isNaN = false)
    (c : Comparison) : c.holds (.number a) (.number b) = true ↔ c.RelatesNumbers a b := by
  have hx : (Datum.number a).asNumber? = some a := by rw [Datum.asNumber?, ha]; rfl
  have hy : (Datum.number b).asNumber? = some b := by rw [Datum.asNumber?, hb]; rfl
  exact c.holds_iff_relatesNumbers hx hy

/-! ## Reading a comparison with a numeral -/

/-- A text that compares what stands before it with a numeral, with any blanks around either. -/
inductive ComparesWith (c : Comparison) (k : Number) : List Char → Prop where
  | intro {before between numeral behind : List Char} (hbefore : ∀ d ∈ before, isBlank d = true)
      (hbetween : ∀ d ∈ between, isBlank d = true)
      (hnumeral : (Token.literal (.number k)).Spelled numeral)
      (hbehind : ∀ d ∈ behind, isBlank d = true) :
      ComparesWith c k (before ++ (c.symbol.toList ++ (between ++ (numeral ++ behind))))

/-- A numeral is not empty, and no number that it spells is `nan`. -/
theorem Token.Spelled.numeral {k : Number} {numeral : List Char}
    (h : (Token.literal (.number k)).Spelled numeral) :
    (∃ first more, numeral = first :: more ∧ isDigit first = true ∧
      ∀ d ∈ more, isNumeralChar d = true) ∧ k.isNaN = false := by
  cases h with
  | @number first more _ hfirst hmore hvalue =>
    refine ⟨⟨first, more, rfl, hfirst, hmore⟩, ?_⟩
    rw [Number.ofText?_of_readSign (readSign_of_isDigit hfirst more) hfirst] at hvalue
    obtain ⟨d, -, rfl⟩ := Option.map_eq_some_iff.1 hvalue
    rw [Number.ofDecimal]
    cases d.nearest? <;> rfl

namespace ComparesWith

variable {c : Comparison} {k : Number} {cs : List Char}

theorem bracketFree (h : ComparesWith c k cs) : BracketFree cs := by
  cases h with
  | @intro before between numeral behind hbefore hbetween hnumeral hbehind =>
    have hblank : ∀ {ds : List Char}, (∀ d ∈ ds, isBlank d = true) → BracketFree ds :=
      bracketFree_of_forall (by decide) (by decide)
    have hsymbol : BracketFree c.symbol.toList := by cases c <;> decide
    obtain ⟨⟨first, more, rfl, hfirst, hmore⟩, -⟩ := hnumeral.numeral
    have hdigits : BracketFree (first :: more) :=
      .cons (isBracket_eq_false (by decide) (by decide) hfirst)
        (bracketFree_of_forall (by decide) (by decide) hmore)
    exact (hblank hbefore).append
      (hsymbol.append ((hblank hbetween).append (hdigits.append (hblank hbehind))))

theorem isNaN_eq_false (h : ComparesWith c k cs) : k.isNaN = false := by
  cases h with
  | intro _ _ hnumeral _ => exact hnumeral.numeral.2

/-- It begins with a blank or with an operator, and not with a character of another kind. -/
theorem head?_eq_false (h : ComparesWith c k cs) {kind : Char → Bool}
    (hblank : ∀ d, isBlank d = true → kind d = false)
    (hsymbol : ['=', '!', '>', '<'].any kind = false) :
    ∀ d, cs.head? = some d → kind d = false := by
  intro d hd
  have hfirst : ∀ d ∈ ['=', '!', '>', '<'], kind d = false := by simpa using hsymbol
  cases h with
  | @intro before between numeral behind hbefore =>
    cases before with
    | nil => cases c <;> exact hfirst d (Option.some.inj hd ▸ (by decide))
    | cons blank before =>
      obtain rfl : blank = d := Option.some.inj hd
      exact hblank _ (hbefore _ (.head _))

/-- No numeral goes on into it. -/
theorem isNumeralChar_eq_false (h : ComparesWith c k cs) :
    ∀ d, cs.head? = some d → isNumeralChar d = false :=
  h.head?_eq_false (fun _ => isNumeralChar_eq_false_of_isBlank) (by decide)

/-- No word goes on into it. -/
theorem isWordChar_eq_false (h : ComparesWith c k cs) :
    ∀ d, cs.head? = some d → isWordChar d = false :=
  h.head?_eq_false (fun _ => isWordChar_eq_false_of_isBlank) (by decide)

/-- It has two tokens. -/
theorem readAll (h : ComparesWith c k cs) :
    Token.readAll cs = [.operator (.compare c), .literal (.number k)] := by
  cases h with
  | @intro before between numeral behind hbefore hbetween hnumeral hbehind =>
    obtain ⟨d, more, hsymbol⟩ := Operator.exists_symbol_eq_cons (.compare c)
    have hnext : (between ++ (numeral ++ behind)).head? ≠ some '=' := by
      intro hhead
      cases between with
      | nil =>
        obtain ⟨⟨first, digits, rfl, hfirst, -⟩, -⟩ := hnumeral.numeral
        obtain rfl : first = '=' := Option.some.inj hhead
        exact absurd hfirst (by decide)
      | cons blank between =>
        obtain rfl : blank = '=' := Option.some.inj hhead
        exact absurd (hbetween _ (.head _)) (by decide)
    have hread : Operator.readFirst? (d :: (more ++ (between ++ (numeral ++ behind)))) =
        some (.compare c, between ++ (numeral ++ behind)) :=
      Operator.readFirst?_eq_some_iff.2 ⟨by rw [hsymbol]; rfl, fun _ => hnext⟩
    have hblank : isBlank d = false := by
      have hfirst := Operator.mem_firstChars_of_readFirst? hread
      simpa using List.any_eq_false.1 (by decide : Operator.firstChars.any isBlank = false) d hfirst
    obtain ⟨first, digits, rfl, hfirst, hnumber⟩ := hnumeral.readFrom nofun
    have hend : ∀ d, behind.head? = some d → isBlank d = true := fun d hd =>
      hbehind d (List.mem_of_head? hd)
    rw [show c.symbol.toList = d :: more from hsymbol, List.cons_append,
      Token.readAll_of_readAt hbefore hblank (Token.readAt_operator hread), List.cons_append,
      Token.readAll_of_readAt hbetween hfirst (hnumber behind hend),
      Token.readAll_of_blanks hbehind]

end ComparesWith

/-! ## Numbers before a comparison -/

/-- A number that is not negative is shown as a numeral. -/
theorem Number.spelled_text (m : Magnitude) :
    (Token.literal (.number (.finite false m))).Spelled (text (.finite false m)).toList := by
  obtain ⟨first, more, htext, hfirst, hmore⟩ := m.shortest.exists_text_eq_cons
  have hspelling : (text (.finite false m)).toList = first :: more := by
    rw [text, String.toList_ofList, htext, if_neg Bool.false_ne_true, List.nil_append]
  have hvalue := ofText?_text (.finite false m)
  rw [hspelling] at hvalue ⊢
  exact .number hfirst hmore hvalue

/-- A numeral before a comparison is its first token. -/
theorem Token.Spelled.readAll {n k : Number} {c : Comparison} {blanks numeral cs : List Char}
    (hblanks : ∀ d ∈ blanks, isBlank d = true)
    (hnumeral : (Token.literal (.number n)).Spelled numeral) (hcs : ComparesWith c k cs) :
    readAll (blanks ++ (numeral ++ cs)) =
      [.literal (.number n), .operator (.compare c), .literal (.number k)] := by
  cases hnumeral with
  | @number first more _ hfirst hmore hvalue =>
    obtain ⟨htake, hdrop⟩ := takeWhile_dropWhile_append hmore hcs.isNumeralChar_eq_false
    have hread : readAt first (more ++ cs) = (.literal (.number n), cs) := by
      rw [readAt_digit hfirst, htake, hdrop, ofNumeral, hvalue]
    rw [List.cons_append, readAll_of_readAt hblanks (isBlank_eq_false_of_isDigit hfirst) hread,
      hcs.readAll]

/-- A number compared with a numeral says what the comparison says about the two numbers. -/
theorem evaluate?_number {n k : Number} {c : Comparison} {condition : String}
    {blanks numeral cs : List Char} (hcondition : condition.toList = blanks ++ (numeral ++ cs))
    (hblanks : ∀ d ∈ blanks, isBlank d = true)
    (hnumeral : (Token.literal (.number n)).Spelled numeral) (hcs : ComparesWith c k cs)
    (data : Datum) :
    ∃ holds, evaluate? condition data = some holds ∧ (holds = true ↔ c.RelatesNumbers n k) := by
  have htokens : Token.ofText condition =
      [.literal (.number n), .operator (.compare c), .literal (.number k)] := by
    rw [Token.ofText, hcondition]
    exact hnumeral.readAll hblanks hcs
  have hread : Expression.ofText? condition =
      .ok (.binary (.compare c) (.literal (.number n)) (.literal (.number k))) := by
    rw [Expression.ofText?, htokens]
    rfl
  refine ⟨c.holds (.number n) (.number k), ?_,
    c.holds_number hnumeral.numeral.2 hcs.isNaN_eq_false⟩
  rw [evaluate?, hread]
  rfl

/-- A number with a minus is no operand. -/
theorem evaluate?_minus {condition : String} {blanks cs : List Char}
    (hcondition : condition.toList = blanks ++ '-' :: cs)
    (hblanks : ∀ d ∈ blanks, isBlank d = true) (data : Datum) :
    evaluate? condition data = none := by
  have hread : Token.readAt '-' cs = (.unknown "-", cs) :=
    Token.readAt_single (by decide) (by decide) (by decide) rfl
  have htokens : Token.ofText condition = .unknown "-" :: Token.readAll cs := by
    rw [Token.ofText, hcondition, Token.readAll_of_readAt hblanks (by decide) hread]
  have hunknown : .unknown "-" ∈ Token.ofText condition := by simp [htokens]
  exact evaluate?_eq_none_of_mem hunknown data

/-! ## Filling in a condition -/

theorem escape_eq_self {cs : List Char} (h : ∀ d ∈ cs, needsEscape d = false) : escape cs = cs := by
  induction cs with
  | nil => rfl
  | cons d cs ih =>
    obtain ⟨hd, hcs⟩ := List.forall_mem_cons.1 h
    rw [escape, hd, ih hcs]
    rfl

/-- The text of a number is put into a condition as it is. -/
theorem Number.escape_text (n : Number) : escape n.text.toList = n.text.toList := by
  refine escape_eq_self fun d hd => Bool.eq_false_iff.2 fun hneeds => ?_
  rcases isNumeralChar_or_of_mem_text hd with hnumeral | hword
  · have hmem : d ∈ [backslash, '\x27', '\x22'] := by
      simpa [needsEscape, or_assoc] using hneeds
    have hkind : [backslash, '\x27', '\x22'].any isNumeralChar = false := by decide
    exact List.any_eq_false.1 hkind d hmem hnumeral
  · have hkind : "-infNaN".toList.any needsEscape = false := by decide
    exact List.any_eq_false.1 hkind d hword hneeds

theorem FieldSource.fill_of_bracketFree (source : FieldSource) (escaped : Bool) {s : String}
    (h : BracketFree s.toList) : source.fill escaped s = s := by
  rw [fill, h.pieces_eq, List.flatMap_map]
  show String.ofList (s.toList.flatMap fun c => [c]) = s
  rw [List.flatMap_singleton', String.ofList_toList]

namespace Job

variable {job : Job}

theorem fillAttribute_condition_eq (job : Job) (b : Binding) (s : String) :
    (job.sourceOf b).fillAttribute job.settings.conditionAttribute s =
      (job.sourceOf b).fill true s := by
  rw [FieldSource.fillAttribute]
  show FieldSource.fill _ (some job.settings.conditionAttribute == _) s = _
  rw [beq_self_eq_true]

theorem fillAttribute_append (job : Job) (outer inner : List Binding) (name s : String) :
    job.fillAttribute (outer ++ inner) name s =
      job.fillAttribute inner name (job.fillAttribute outer name s) := List.foldl_append

/-- Repeats change nothing in a condition without brackets. -/
theorem fillAttribute_of_bracketFree (bindings : List Binding) {s : String}
    (h : BracketFree s.toList) :
    job.fillAttribute bindings job.settings.conditionAttribute s = s := by
  induction bindings with
  | nil => rfl
  | cons b bindings ih =>
    show job.fillAttribute bindings _ ((job.sourceOf b).fillAttribute _ s) = s
    rw [fillAttribute_condition_eq, FieldSource.fill_of_bracketFree _ true h, ih]

/-- Nor do repeats that have no value for its only placeholder. -/
theorem fillAttribute_of_unanswered {bindings : List Binding} {p : Placeholder}
    {first written last : String} (hfirst : BracketFree first.toList)
    (hp : p.Written written.toList) (hlast : BracketFree last.toList)
    (h : ∀ b ∈ bindings, (job.sourceOf b).get? p.path = none) :
    job.fillAttribute bindings job.settings.conditionAttribute (first ++ written ++ last) =
      first ++ written ++ last := by
  induction bindings with
  | nil => rfl
  | cons b bindings ih =>
    obtain ⟨hb, hbindings⟩ := List.forall_mem_cons.1 h
    show job.fillAttribute bindings _ ((job.sourceOf b).fillAttribute _ _) = _
    rw [fillAttribute_condition_eq, FieldSource.fill_append_of_get?_eq_none true hp hb,
      FieldSource.fill_of_bracketFree _ true hfirst, FieldSource.fill_of_bracketFree _ true hlast,
      ih hbindings]

/-- The first repeat with a value for the only placeholder of a condition puts it in, escaped. -/
theorem fillAttribute_condition_innermost {outer : List Binding} {b : Binding} {p : Placeholder}
    {first written last value : String} (hfirst : BracketFree first.toList)
    (hp : p.Written written.toList) (hlast : BracketFree last.toList)
    (houter : ∀ o ∈ outer, (job.sourceOf o).get? p.path = none)
    (hb : (job.sourceOf b).get? p.path = some value) :
    job.fillAttribute (outer ++ [b]) job.settings.conditionAttribute (first ++ written ++ last) =
      first ++ String.ofList (escape value.toList) ++ last := by
  rw [fillAttribute_append, fillAttribute_of_unanswered hfirst hp hlast houter]
  show (job.sourceOf b).fillAttribute _ _ = _
  rw [fillAttribute_condition_eq, FieldSource.fill_append_field _ true hp,
    FieldSource.fill_of_bracketFree _ true hfirst, FieldSource.fill_of_bracketFree _ true hlast,
    FieldSource.fillPiece, hb]
  rfl

/-- The repeats within it find nothing left to fill in. -/
theorem fillAttribute_condition {outer inner : List Binding} {b : Binding} {p : Placeholder}
    {first written last value : String} (hfirst : BracketFree first.toList)
    (hp : p.Written written.toList) (hlast : BracketFree last.toList)
    (houter : ∀ o ∈ outer, (job.sourceOf o).get? p.path = none)
    (hb : (job.sourceOf b).get? p.path = some value) (hvalue : BracketFree value.toList) :
    job.fillAttribute (outer ++ b :: inner) job.settings.conditionAttribute
        (first ++ written ++ last) =
      first ++ String.ofList (escape value.toList) ++ last := by
  have hfilled : BracketFree (first ++ String.ofList (escape value.toList) ++ last).toList := by
    simp only [String.toList_append, String.toList_ofList]
    exact (hfirst.append (bracketFree_escape hvalue)).append hlast
  rw [List.append_cons, fillAttribute_append,
    fillAttribute_condition_innermost hfirst hp hlast houter hb,
    fillAttribute_of_bracketFree inner hfilled]

end Job

/-! ## Elements with such a condition -/

theorem Binding.get?_of_number {b : Binding} {rest : String} {negative : Bool} {m : Magnitude}
    (h : b.item.at? rest = some (.number (.finite negative m))) :
    b.get? rest = some (Number.text (.finite negative m)) := by
  obtain ⟨first, more, htext, -⟩ := m.shortest.exists_text_eq_cons
  have hne : Number.text (.finite negative m) ≠ "" := by
    rw [ne_eq, ← String.toList_inj, Number.text, String.toList_ofList, htext]
    exact List.append_ne_nil_of_right_ne_nil _ (List.cons_ne_nil _ _)
  refine Binding.get?_eq_some_iff.2 ⟨hne, ?_⟩
  rw [h]
  rfl

/-- What an element says with a condition that compares a placeholder with a numeral, if the first
value for the placeholder is a number. -/
theorem ElementCopy.judged {job : Job} {copy : ElementCopy} {before written behind : String}
    {p : Placeholder} {c : Comparison} {k : Number}
    (hcondition : copy.tag.attributes.get? job.settings.conditionAttribute =
      some (before ++ written ++ behind))
    (hbefore : ∀ d ∈ before.toList, isBlank d = true) (hp : p.Written written.toList)
    (hbehind : ComparesWith c k behind.toList) {outer inner : List Binding} {b : Binding}
    {rest : String} {negative : Bool} {m : Magnitude}
    (hbindings : copy.bindings = outer ++ b :: inner) (hrest : b.pathWithin? p.path = some rest)
    (hnumber : b.item.at? rest = some (.number (.finite negative m)))
    (houter : ∀ o ∈ outer, (job.sourceOf o).get? p.path = none) :
    job.misreads (copy.filledTag job) = negative ∧
      (job.hides (copy.filledTag job) = false ↔
        negative = true ∨ c.RelatesNumbers (.finite negative m) k) := by
  have hvalue : (job.sourceOf b).get? p.path = some (Number.text (.finite negative m)) := by
    rw [Job.get?_sourceOf hrest, Binding.get?_of_number hnumber]
  have hfilled : (copy.filledTag job).attributes.get? job.settings.conditionAttribute =
      some (before ++ Number.text (.finite negative m) ++ behind) := by
    rw [filledTag, Tag.get?_fillThrough, hcondition, Option.map_some, hbindings,
      Job.fillAttribute_condition (bracketFree_of_forall (by decide) (by decide) hbefore) hp
        hbehind.bracketFree houter hvalue (Number.bracketFree_text _), Number.escape_text,
      String.ofList_toList]
  rw [Job.misreads, Job.hides, hfilled, Option.any_some, Option.any_some]
  have htext : (before ++ Number.text (.finite negative m) ++ behind).toList =
      before.toList ++ ((Number.text (.finite negative m)).toList ++ behind.toList) := by
    simp only [String.toList_append, List.append_assoc]
  cases negative with
  | false =>
    obtain ⟨holds, hevaluate, hiff⟩ :=
      evaluate?_number htext hbefore (Number.spelled_text m) hbehind job.data
    rw [hevaluate, ← hiff]
    cases holds <;> decide
  | true =>
    have hminus : (Number.text (.finite true m)).toList = '-' :: m.shortest.text := by
      rw [Number.text, String.toList_ofList]
      rfl
    rw [hminus, List.cons_append] at htext
    rw [evaluate?_minus htext hbefore job.data]
    exact ⟨rfl, fun _ => .inl rfl, fun _ => rfl⟩

/-- A letter is what is left of the expanded document without the elements whose condition does not
hold, and the copies are all elements of the expanded document. Where a condition compares a
placeholder with a numeral, and the placeholder is for a field of a repeat around the element whose
item has a number there, the element stays exactly if the comparison holds of the two numbers or
the number has a minus, unless it stands within an element that goes. Its condition cannot be read
exactly if the number has a minus. No repeat further out may have a value for the placeholder. -/
theorem Renderer.render_number_condition (r : Renderer) (document : Forest)
    (values : Entries String) (data : Datum) :
    let job := r.job values data
    let expanded := (document.expand job).1
    let copies := (document.draft job [] {}).1.copies job
    let kept := expanded.dropWhere job.hides
    let rendering := r.render document values data
    (rendering.document = (kept.mapTags (·.without job.settings.conditionAttribute)).fill
        (.ofValues values) ∧
      rendering.report.unsupported = shownCount ((document.expand job).2.unsupported +
        (expanded.occurrences.filter (Occurrence.isReached job.hides)).countP
          (Occurrence.isElement job.misreads))) ∧
      copies.map (ElementCopy.occurrence job) =
        expanded.occurrences.filter (Occurrence.isElement fun _ => true) ∧
      ∀ copy ∈ copies, ∀ before written behind : String,
        ∀ (p : Placeholder) (c : Comparison) (k : Number),
        copy.tag.attributes.get? job.settings.conditionAttribute =
          some (before ++ written ++ behind) →
        (∀ d ∈ before.toList, isBlank d = true) → p.Written written.toList →
        ComparesWith c k behind.toList →
        ∀ outer b inner rest negative m, copy.bindings = outer ++ b :: inner →
          b.pathWithin? p.path = some rest →
          b.item.at? rest = some (.number (.finite negative m)) →
          (∀ o ∈ outer, (job.sourceOf o).get? p.path = none) →
          job.misreads (copy.filledTag job) = negative ∧
            (copy.occurrence job ∈ kept.occurrences ↔
              (copy.occurrence job).isReached job.hides = true ∧
                (negative = true ∨ c.RelatesNumbers (.finite negative m) k)) := by
  intro job expanded copies kept rendering
  refine ⟨r.render_exact document values data, document.map_occurrence_copies job, ?_⟩
  intro copy hcopy before written behind p c k hcondition hbefore hp hbehind outer b inner rest
    negative m hbindings hrest hnumber houter
  obtain ⟨hreads, hhides⟩ := ElementCopy.judged hcondition hbefore hp hbehind hbindings hrest
    hnumber houter
  have hkept : kept.occurrences = expanded.occurrences.filter (Occurrence.remains job.hides) :=
    Forest.occurrencesWithin_dropWhere rfl expanded
  have hmem : copy.occurrence job ∈ expanded.occurrences := Forest.occurrence_mem_expand hcopy
  have helement : (copy.occurrence job).isElement job.hides = job.hides (copy.filledTag job) := rfl
  refine ⟨hreads, ?_⟩
  rw [hkept, List.mem_filter, Occurrence.remains, helement, ← hhides, Bool.and_eq_true,
    Bool.not_eq_true']
  exact ⟨fun h => h.2, fun h => ⟨hmem, h⟩⟩

/-! ## A number compared with a numeral

A repeated element with a condition that has no blanks between the placeholder and the numeral. -/

namespace ComparedNumber

def three : Magnitude :=
  ⟨6755399441055744, 1023, by decide +kernel, by decide, .inr (by decide +kernel)⟩

def twoAndAHalf : Magnitude :=
  ⟨5629499534213120, 1023, by decide +kernel, by decide, .inr (by decide +kernel)⟩

def item : Datum := .record [("n", .number (.finite false three))]

def data : Datum := .record [("xs", .list [item])]

def tag : Tag := ⟨"p", .ofList [("data-if", " " ++ "[[ x.n ]]" ++ ">=2.5")]⟩

def document : Forest :=
  .element ⟨"p", tag.attributes.insert "data-repeat" "x in Model.xs"⟩ (.text "t" .nil) .nil

def job : Job := Renderer.default.job .empty data

/-- The only copy that the repeat makes. -/
def copy : ElementCopy := ⟨[], [⟨"x", item⟩], tag⟩

theorem copies_draft : (document.draft job [] {}).1.copies job = [copy] := by
  with_unfolding_all rfl

theorem comparesWith :
    ComparesWith .greaterOrEqual (.finite false twoAndAHalf) ">=2.5".toList := by
  have hnone : ∀ d ∈ ([] : List Char), isBlank d = true := nofun
  have hdigits : ∀ d ∈ ['.', '5'], isNumeralChar d = true :=
    List.all_eq_true.1 (by decide : ['.', '5'].all isNumeralChar = true)
  have hvalue : Number.ofText? ['2', '.', '5'] = some (.finite false twoAndAHalf) := by
    decide +kernel
  exact .intro hnone hnone (.number (by decide) hdigits hvalue) hnone

theorem relatesNumbers : Comparison.greaterOrEqual.RelatesNumbers (.finite false three)
    (.finite false twoAndAHalf) := by
  refine ⟨_, _, rfl, rfl, ?_⟩
  show Number.signed false twoAndAHalf.units ≤ Number.signed false three.units
  decide +kernel

end ComparedNumber

open ComparedNumber in
/-- Three is not less than two and a half, so the copy stays. -/
theorem render_number_condition_three :
    copy ∈ (document.draft job [] {}).1.copies job ∧
      job.misreads (copy.filledTag job) = false ∧
      copy.occurrence job ∈ ((document.expand job).1.dropWhere job.hides).occurrences := by
  have hcopy : copy ∈ (document.draft job [] {}).1.copies job := by
    rw [copies_draft]
    exact .head _
  have hblank : ∀ d ∈ " ".toList, isBlank d = true :=
    List.all_eq_true.1 (by decide : " ".toList.all isBlank = true)
  have hwritten : (Placeholder.mk "x.n" false).Written "[[ x.n ]]".toList :=
    ⟨" x.n ".toList, rfl, (by decide : BracketFree " x.n ".toList), by decide⟩
  obtain ⟨-, -, hjudged⟩ := Renderer.default.render_number_condition document .empty data
  obtain ⟨hreads, hkept⟩ := hjudged copy hcopy " " "[[ x.n ]]" ">=2.5" ⟨"x.n", false⟩
    .greaterOrEqual (.finite false twoAndAHalf) rfl hblank hwritten comparesWith [] ⟨"x", item⟩ []
    "n" false three rfl (by decide) rfl nofun
  exact ⟨hcopy, hreads, hkept.2 ⟨rfl, .inr relatesNumbers⟩⟩

/-- A negative number is shown with a minus, so its condition cannot be read, and the element stays
although the comparison does not hold. And where a repeat further out has a value for the
placeholder, the condition is not about the number of the item at all. -/
theorem render_number_condition_fails :
    let minusOne : Number := .ofInt (-1)
    let one : Number := .ofInt 1
    let data (n : Number) : Datum :=
      .record [("xs", .list [.record [("n", .number n)]]), ("ys", .list [.null])]
    let element (condition : String) : Forest :=
      .element ⟨"p", .ofList [("data-if", condition), ("data-repeat", "x in Model.xs")]⟩
        (.text "t" .nil) .nil
    let within : Forest :=
      .element ⟨"ul", .ofList [("data-repeat", "y in Model.ys")]⟩ (element "[[x.n]] > 3") .nil
    let first := Renderer.default.render (element "[[x.n]] > 0") .empty (data minusOne)
    let second := Renderer.default.render within (.ofList [("x.n", "5")]) (data one)
    minusOne.isFinite = true ∧ minusOne.lt (.ofInt 0) = true ∧
      first.document = .element ⟨"p", .empty⟩ (.text "t" .nil) .nil ∧
      first.report.unsupported = 1 ∧
      one.isFinite = true ∧ one.lt (.ofInt 3) = true ∧
      second.document =
        .element ⟨"ul", .empty⟩ (.element ⟨"p", .empty⟩ (.text "t" .nil) .nil) .nil := by
  decide +kernel

end FormLetter
