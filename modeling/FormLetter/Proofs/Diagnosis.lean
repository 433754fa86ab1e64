import FormLetter.Proofs.Brackets
import FormLetter.Proofs.Ceiling
import FormLetter.Proofs.Letter
import FormLetter.Proofs.Remembering

/-!
# What the problems of a document foretell

The problems of a document are found in the directives as they are written. A letter is written by
directives that repeats around them have filled in. A repeat directive that can be read has no
placeholder, so it stays as it is written; a condition stays so too unless it has a placeholder.
What the report of a letter calls unsupported is foretold by the problems but for these conditions.

* `Directive.hasPlaceholder_eq_false`: a directive that can be read has no placeholder.
* `Tag.Conforms`: what is known about the directives of an element if none of the problems of its
  document is a directive that cannot be read. `Tag.Conforms.fill`: the same is known about a copy.
* `Forest.conforms_expandNext?`: a round leaves elements that conform, and reads its directive.
  `Forest.conforms_expand`: so do all rounds.
* `Renderer.unsupported_renderWith`: what a report calls unsupported.
* `Renderer.unsupported_of_problems`: nothing, if no condition has a placeholder and no problem is a
  directive that cannot be read.
* `Renderer.unsupported_renderStrict`: in a strict letter, conditions that are written with a
  placeholder, and no others.
-/

namespace FormLetter

/-! ## Directives without placeholders -/

theorem BracketFree.of_dropWhile (kind : Char → Bool) (hopening : kind '[' = false)
    (hclosing : kind ']' = false) {cs : List Char} (h : BracketFree (cs.dropWhile kind)) :
    BracketFree cs := by
  rw [← List.takeWhile_append_dropWhile (p := kind) (l := cs)]
  refine BracketFree.append (fun c hc => ?_) h
  exact isBracket_eq_false hopening hclosing (List.all_eq_true.1 List.all_takeWhile c hc)

/-- A text without brackets has no placeholder. -/
theorem hasPlaceholder_of_bracketFree {s : String} (h : BracketFree s.toList) :
    hasPlaceholder s = false := by
  have hnone : placeholders s = [] := by
    rw [List.eq_nil_iff_forall_not_mem]
    intro p hp
    obtain ⟨w, hw⟩ := mem_placeholders_iff.1 hp
    obtain ⟨content, rfl, -⟩ := written_of_mem_pieces hw
    have hbracket : '[' ∈ (pieces s.toList).flatMap Piece.source :=
      List.mem_flatMap.2 ⟨_, hw, .head _⟩
    rw [source_pieces] at hbracket
    exact absurd (h '[' hbracket) (by decide)
  rw [hasPlaceholder, hnone]
  rfl

theorem BracketFree.of_trimStart {cs : List Char} (h : BracketFree (trimStart cs)) :
    BracketFree cs := .of_dropWhile isBlank (by decide) (by decide) h

namespace Directive

theorem bracketFree_of_readPath? {cs path : List Char} (h : readPath? cs = some path) :
    BracketFree cs := by
  unfold readPath? at h
  split at h
  · cases h
  · rename_i written hwritten
    dsimp only at h
    split at h
    · rename_i hpath
      rw [Bool.and_eq_true, List.all_eq_true] at hpath
      have hroot : BracketFree (dataRoot ++ ".").toList := by decide
      have hbehind : BracketFree (written.dropWhile isWordChar) := fun c hc =>
        isBracket_eq_false (by decide) (by decide) (hpath.2 c hc)
      rw [after?_eq_some_iff.1 hwritten]
      exact hroot.append (.of_dropWhile isWordChar (by decide) (by decide) hbehind)
    · cases h

/-- A directive that can be read has no brackets. -/
theorem bracketFree_of_ofText? {s : String} {d : Directive} (h : ofText? s = some d) :
    BracketFree s.toList := by
  unfold ofText? at h
  dsimp only at h
  split at h
  · obtain ⟨path, hpath, -⟩ := Option.map_eq_some_iff.1 h
    obtain ⟨behindName, hname, hpath⟩ := Option.bind_eq_some_iff.1 hpath
    obtain ⟨behindIn, hin, hpath⟩ := Option.bind_eq_some_iff.1 hpath
    obtain ⟨written, hwritten, hpath⟩ := Option.bind_eq_some_iff.1 hpath
    -- From the end of the text to its beginning, part by part.
    have hbehindIn : BracketFree behindIn := by
      refine .of_trimStart ?_
      rw [← (afterBlanks?_eq_some_iff.1 hwritten).2]
      exact bracketFree_of_readPath? hpath
    have hbehindName : BracketFree ((trimStart s.toList).dropWhile isNameChar) := by
      refine .of_trimStart ?_
      rw [← (afterBlanks?_eq_some_iff.1 hname).2, after?_eq_some_iff.1 hin]
      have hword : BracketFree "in".toList := by decide
      exact hword.append hbehindIn
    exact .of_trimStart (.of_dropWhile isNameChar (by decide) (by decide) hbehindName)
  · cases h

/-- A directive that can be read has no placeholder. -/
theorem hasPlaceholder_eq_false {s : String} {d : Directive} (h : ofText? s = some d) :
    hasPlaceholder s = false :=
  hasPlaceholder_of_bracketFree (bracketFree_of_ofText? h)

end Directive

/-! ## What the elements of a document are like -/

/-- Whether a condition can be read. -/
def Expression.isReadable (condition : String) : Bool := (ofText? condition).isOk

/-- Whether a problem is that a condition or a repeat directive cannot be read. -/
def Problem.isUnreadable : Problem → Bool
  | .unreadableCondition _ _ | .unreadableRepeat _ => true
  | .conflictingDirectives _ | .missingField _ => false

namespace Forest

/-- The texts that the elements of a document have for an attribute, in document order. -/
def attributeTexts (name : String) : Forest → List String
  | .nil => []
  | .text _ next => next.attributeTexts name
  | .element tag children next =>
    (tag.attributes.get? name).toList ++ children.attributeTexts name ++ next.attributeTexts name

/-- Every element has a tag of some kind. -/
def AllTags (kind : Tag → Prop) : Forest → Prop
  | .nil => True
  | .text _ next => next.AllTags kind
  | .element tag children next => kind tag ∧ children.AllTags kind ∧ next.AllTags kind

namespace AllTags

variable {kind : Tag → Prop} {f g : Forest}

theorem append (hf : f.AllTags kind) (hg : g.AllTags kind) : (f ++ g).AllTags kind := by
  induction f with
  | nil => exact hg
  | text content next ih => exact ih hf
  | element tag children next _ ih =>
    obtain ⟨htag, hchildren, hnext⟩ := hf
    exact ⟨htag, hchildren, ih hnext⟩

theorem join {forests : List Forest} (h : ∀ f ∈ forests, f.AllTags kind) :
    (Forest.join forests).AllTags kind := by
  induction forests with
  | nil => trivial
  | cons f forests ih =>
    obtain ⟨hf, hforests⟩ := List.forall_mem_cons.1 h
    exact hf.append (ih hforests)

theorem fill {source : FieldSource} (hkind : ∀ tag, kind tag → kind (tag.fill source))
    (h : f.AllTags kind) : (f.fill source).AllTags kind := by
  induction f with
  | nil => trivial
  | text content next ih => exact ih h
  | element tag children next ihc ihn =>
    obtain ⟨htag, hchildren, hnext⟩ := h
    exact ⟨hkind tag htag, ihc hchildren, ihn hnext⟩

theorem of_mem_occurrencesWithin (h : f.AllTags kind) {around : List Tag} {o : Occurrence}
    (ho : o ∈ f.occurrencesWithin around) {tag : Tag} (hlabel : o.label = .element tag) :
    kind tag := by
  induction f generalizing around with
  | nil => cases ho
  | text content next ih =>
    rcases List.mem_cons.1 ho with rfl | ho
    · cases hlabel
    · exact ih h ho
  | element tag' children next ihc ihn =>
    obtain ⟨htag, hchildren, hnext⟩ := h
    rcases List.mem_cons.1 ho with rfl | ho
    · cases hlabel
      exact htag
    · rcases List.mem_append.1 ho with ho | ho
      · exact ihc hchildren ho
      · exact ihn hnext ho

end AllTags

end Forest

/-! ## Directives that conform -/

/-- The text is that of a condition that is written with a placeholder, with items of the data
filled in. -/
def Job.IsFilledIn (job : Job) (conditions : List String) (text : String) : Prop :=
  ∃ written ∈ conditions, hasPlaceholder written = true ∧
    ∃ around : List Binding, (∀ b ∈ around, b.IsFrom job.data) ∧
      text = job.fillAttribute around job.settings.conditionAttribute written

/-- What is known about the directives of an element in a document with the given conditions, or of
a copy of one. The repeat directive can be read. So can the condition, and it has no placeholder,
or else it was written with one. -/
structure Tag.Conforms (job : Job) (conditions : List String) (tag : Tag) : Prop where
  condition : ∀ text, tag.attributes.get? job.settings.conditionAttribute = some text →
    hasPlaceholder text = false ∧ Expression.isReadable text = true ∨
      job.IsFilledIn conditions text
  directive : ∀ text, tag.attributes.get? job.settings.repeatAttribute = some text →
    ∃ d, Directive.ofText? text = some d

section

variable {job : Job} {conditions : List String}

/-- Filling in one more item leaves a text that is filled in. -/
theorem Job.IsFilledIn.fill {text : String} (h : job.IsFilledIn conditions text) {b : Binding}
    (hb : b.IsFrom job.data) :
    job.IsFilledIn conditions
      ((job.sourceOf b).fillAttribute job.settings.conditionAttribute text) := by
  obtain ⟨written, hwritten, hplaceholder, around, haround, rfl⟩ := h
  refine ⟨written, hwritten, hplaceholder, around ++ [b], fun b' hb' => ?_, ?_⟩
  · rcases List.mem_append.1 hb' with hb' | hb'
    · exact haround b' hb'
    · rwa [List.mem_singleton.1 hb']
  · rw [fillAttribute, fillAttribute, List.foldl_append]
    rfl

namespace Tag.Conforms

variable {tag : Tag}

theorem without (h : tag.Conforms job conditions) (name : String) :
    (tag.without name).Conforms job conditions := by
  have hget : ∀ {other text}, (tag.without name).attributes.get? other = some text →
      tag.attributes.get? other = some text := by
    intro other text htext
    rw [Tag.without, Entries.get?_erase] at htext
    split at htext
    · cases htext
    · exact htext
  exact ⟨fun text htext => h.condition text (hget htext),
    fun text htext => h.directive text (hget htext)⟩

theorem fill (h : tag.Conforms job conditions) {b : Binding} (hb : b.IsFrom job.data) :
    (tag.fill (job.sourceOf b)).Conforms job conditions := by
  have hget : ∀ {name text}, (tag.fill (job.sourceOf b)).attributes.get? name = some text →
      ∃ before, tag.attributes.get? name = some before ∧
        (job.sourceOf b).fillAttribute name before = text := by
    intro name text htext
    rw [Tag.get?_fill] at htext
    exact Option.map_eq_some_iff.1 htext
  constructor
  · intro text htext
    obtain ⟨before, hbefore, rfl⟩ := hget htext
    rcases h.condition before hbefore with ⟨hplain, hreadable⟩ | hfilled
    · rw [FieldSource.fillAttribute, FieldSource.fill_of_hasPlaceholder_eq_false _ _ hplain]
      exact .inl ⟨hplain, hreadable⟩
    · exact .inr (hfilled.fill hb)
  · intro text htext
    obtain ⟨before, hbefore, rfl⟩ := hget htext
    obtain ⟨d, hd⟩ := h.directive before hbefore
    rw [FieldSource.fillAttribute,
      FieldSource.fill_of_hasPlaceholder_eq_false _ _ (Directive.hasPlaceholder_eq_false hd)]
    exact ⟨d, hd⟩

end Tag.Conforms

/-- The problems of an element are, among others, those of its directives. -/
theorem Tag.subset_problems (settings : Settings) (tag : Tag) :
    (∀ condition, tag.attributes.get? settings.conditionAttribute = some condition →
        conditionProblems condition ⊆ tag.problems settings) ∧
      (∀ directive, tag.attributes.get? settings.repeatAttribute = some directive →
        repeatProblems directive ⊆ tag.problems settings) := by
  unfold problems
  constructor
  · intro condition hcondition
    rw [hcondition]
    cases tag.attributes.get? settings.repeatAttribute with
    | none => exact List.Subset.refl _
    | some directive => exact fun p hp => .tail _ (List.mem_append_left _ hp)
  · intro directive hdirective
    rw [hdirective]
    cases tag.attributes.get? settings.conditionAttribute with
    | none => exact List.Subset.refl _
    | some condition => exact fun p hp => .tail _ (List.mem_append_right _ hp)

theorem Expression.isReadable_of_problems {condition : String}
    (h : ∀ p ∈ conditionProblems condition, p.isUnreadable = false)
    (hplain : hasPlaceholder condition = false) : isReadable condition = true := by
  rw [isReadable]
  rw [conditionProblems, hplain] at h
  cases hreading : ofText? condition with
  | ok e => rfl
  | error fault =>
    rw [hreading] at h
    cases h _ (.head _)

theorem Directive.ofText?_of_problems {directive : String}
    (h : ∀ p ∈ repeatProblems directive, p.isUnreadable = false) :
    ∃ d, ofText? directive = some d := by
  rw [repeatProblems] at h
  cases hreading : ofText? directive with
  | some d => exact ⟨d, rfl⟩
  | none =>
    rw [hreading] at h
    cases h _ (.head _)

/-- An element conforms if none of its problems is a directive that cannot be read. -/
theorem Tag.conforms_of_problems {tag : Tag}
    (hproblems : ∀ p ∈ tag.problems job.settings, p.isUnreadable = false)
    (hcondition : ∀ text ∈ tag.attributes.get? job.settings.conditionAttribute,
      text ∈ conditions) : tag.Conforms job conditions := by
  obtain ⟨hconditions, hdirectives⟩ := tag.subset_problems job.settings
  constructor
  · intro text htext
    cases hplaceholder : hasPlaceholder text with
    | true =>
      exact .inr ⟨text, hcondition text htext, hplaceholder, [], List.forall_mem_nil _, rfl⟩
    | false =>
      have hreadable := Expression.isReadable_of_problems
        (fun p hp => hproblems p (hconditions text htext hp)) hplaceholder
      exact .inl ⟨rfl, hreadable⟩
  · exact fun text htext =>
      Directive.ofText?_of_problems fun p hp => hproblems p (hdirectives text htext hp)

namespace Forest

/-- The elements of a document conform if none of its problems is a directive that cannot be
read. -/
theorem conforms_of_problems {f : Forest}
    (hproblems : ∀ p ∈ f.problems job.settings, p.isUnreadable = false)
    (hconditions : f.attributeTexts job.settings.conditionAttribute ⊆ conditions) :
    f.AllTags (Tag.Conforms job conditions) := by
  induction f with
  | nil => trivial
  | text content next ih => exact ih hproblems hconditions
  | element tag children next ihc ihn =>
    rw [problems, List.forall_mem_append, List.forall_mem_append] at hproblems
    rw [attributeTexts, List.append_subset, List.append_subset] at hconditions
    obtain ⟨⟨htag, hchildren⟩, hnext⟩ := hproblems
    obtain ⟨⟨htag', hchildren'⟩, hnext'⟩ := hconditions
    have hcondition : ∀ text ∈ tag.attributes.get? job.settings.conditionAttribute,
        text ∈ conditions := fun text htext => htag' (Option.mem_toList.2 htext)
    exact ⟨Tag.conforms_of_problems htag hcondition, ihc hchildren hchildren', ihn hnext hnext'⟩

/-! ## Rounds -/

/-- What takes the place of an element that conforms does so too, and its directive is read. -/
theorem conforms_unroll {directive : String} {d : Directive}
    (hd : Directive.ofText? directive = some d) {template : Forest}
    (htemplate : template.AllTags (Tag.Conforms job conditions)) (tally : ExpansionTally) :
    (job.unroll directive template tally).1.AllTags (Tag.Conforms job conditions) ∧
      (job.unroll directive template tally).2.unsupported = tally.unsupported := by
  constructor
  · rw [unroll_eq]
    refine AllTags.join fun g hg => ?_
    obtain ⟨b, hb, rfl⟩ := List.mem_map.1 hg
    exact htemplate.fill fun tag htag => htag.fill (Job.isFrom_of_mem_bindings hb)
  · cases hlist : (job.data.at? d.path).bind Datum.items? with
    | none => rw [job.unroll_of_no_list hd hlist]
    | some items =>
      rw [job.unroll_of_list hd hlist]
      split <;> rfl

/-- A round leaves elements that conform if it finds such, and no directive that it cannot read. -/
theorem conforms_expandNext? {tally tally' : ExpansionTally} {f g : Forest}
    (hf : f.AllTags (Tag.Conforms job conditions)) (h : f.expandNext? job tally = some (g, tally')) :
    g.AllTags (Tag.Conforms job conditions) ∧ tally'.unsupported = tally.unsupported := by
  rw [expandNext?_eq_some_iff] at h
  induction h with
  | @unroll tag directive hdirective children next =>
    obtain ⟨htag, hchildren, hnext⟩ := hf
    obtain ⟨d, hd⟩ := htag.directive directive hdirective
    have htemplate : (element (tag.without job.settings.repeatAttribute) children nil).AllTags
        (Tag.Conforms job conditions) := ⟨htag.without _, hchildren, trivial⟩
    obtain ⟨hcopies, hread⟩ := conforms_unroll hd htemplate tally
    exact ⟨hcopies.append hnext, hread⟩
  | text content round ih => exact ih hf
  | children hplain round next ih =>
    obtain ⟨htag, hchildren, hnext⟩ := hf
    obtain ⟨hchildren', hread⟩ := ih hchildren
    exact ⟨⟨htag, hchildren', hnext⟩, hread⟩
  | next hplain hchildren round ih =>
    obtain ⟨htag, hwithin, hnext⟩ := hf
    obtain ⟨hnext', hread⟩ := ih hnext
    exact ⟨⟨htag, hwithin, hnext'⟩, hread⟩

/-- Expansion leaves elements that conform if it is given such, and finds no directive that it
cannot read. -/
theorem conforms_expand {f : Forest} (hf : f.AllTags (Tag.Conforms job conditions)) :
    (f.expand job).1.AllTags (Tag.Conforms job conditions) ∧ (f.expand job).2.unsupported = 0 := by
  refine expandRounds_induction
    (fun g after => g.AllTags (Tag.Conforms job conditions) ∧ after.unsupported = 0)
    (fun ⟨hbefore, hread⟩ hnext => ?_) _ ⟨hf, rfl⟩
  obtain ⟨hafter, hread'⟩ := conforms_expandNext? hbefore hnext
  exact ⟨hafter, hread'.trans hread⟩

/-- The conditions met in a document whose elements conform conform as well. -/
theorem condition_of_mem_conditionsMet {f : Forest} (hf : f.AllTags (Tag.Conforms job conditions))
    {text : String} (h : text ∈ f.conditionsMet job) :
    hasPlaceholder text = false ∧ Expression.isReadable text = true ∨
      job.IsFilledIn conditions text := by
  obtain ⟨o, ho, htext⟩ := List.mem_filterMap.1 h
  have hmem := (List.mem_filter.1 ho).1
  obtain ⟨around, content | tag⟩ := o
  · cases htext
  · exact (hf.of_mem_occurrencesWithin hmem rfl).condition text htext

end Forest

end

/-! ## What is called unsupported -/

theorem Job.misreads_eq (job : Job) (tag : Tag) :
    job.misreads tag =
      (tag.attributes.get? job.settings.conditionAttribute).any fun condition =>
        !Expression.isReadable condition := by
  unfold misreads
  congr 1
  funext condition
  rw [evaluate?, Expression.isReadable]
  cases Expression.ofText? condition <;> rfl

/-- A condition that cannot be read is counted wherever it is met. -/
theorem Forest.unsupported_selectVisible (job : Job) (f : Forest) (tally : VisibilityTally)
    (h : tally.memo.Faithful) :
    (f.selectVisible job tally).2.unsupported =
      tally.unsupported + (f.conditionsMet job).countP fun text => !Expression.isReadable text := by
  rw [count_selectVisible job.counts_unsupported [] rfl f h, conditionsMet, conditionsMetWithin,
    List.countP_filterMap]
  congr 1
  refine List.countP_congr fun o _ => ?_
  obtain ⟨around, content | tag⟩ := o
  · exact Iff.rfl
  · show job.misreads tag = true ↔
      ((tag.attributes.get? job.settings.conditionAttribute).map _).getD false = true
    rw [Job.misreads_eq]
    cases tag.attributes.get? job.settings.conditionAttribute <;> rfl

namespace Renderer

/-- What a report calls unsupported are the repeat directives that cannot be read and, of the
conditions met, those that cannot be read. -/
theorem unsupported_renderWith (r : Renderer) {m : Memo} (h : m.Faithful) (document : Forest)
    (values : Entries String) (data : Datum) :
    let job := r.job values data
    (r.renderWith m document values data).1.report.unsupported =
      shownCount ((document.expand job).2.unsupported +
        ((document.expand job).1.conditionsMet job).countP
          fun text => !Expression.isReadable text) := by
  intro job
  have hmet := (document.expand job).1.unsupported_selectVisible job { memo := m } h
  rw [Nat.zero_add] at hmet
  rw [← hmet]
  rfl

/-- If none of the problems of a document is a directive that cannot be read, then a letter finds no
repeat directive that cannot be read, and no condition but one that is written with a placeholder.
-/
theorem unsupported_renderWith_of_problems (r : Renderer) {document : Forest}
    (hproblems : ∀ p ∈ r.problems document, p.isUnreadable = false) {m : Memo} (h : m.Faithful)
    (values : Entries String) (data : Datum) :
    let job := r.job values data
    let met := (document.expand job).1.conditionsMet job
    (r.renderWith m document values data).1.report.unsupported =
        shownCount (met.countP fun text => !Expression.isReadable text) ∧
      ∀ text ∈ met, Expression.isReadable text = false →
        job.IsFilledIn (document.attributeTexts r.settings.conditionAttribute) text := by
  intro job met
  have hdocument : document.AllTags
      (Tag.Conforms job (document.attributeTexts r.settings.conditionAttribute)) :=
    Forest.conforms_of_problems hproblems (List.Subset.refl _)
  obtain ⟨hexpanded, hread⟩ := Forest.conforms_expand hdocument
  refine ⟨?_, fun text htext hunreadable => ?_⟩
  · rw [r.unsupported_renderWith h document values data, hread, Nat.zero_add]
  · rcases Forest.condition_of_mem_conditionsMet hexpanded htext with ⟨-, hreadable⟩ | hfilled
    · exact absurd hreadable (Bool.eq_false_iff.1 hunreadable)
    · exact hfilled

theorem problems_withCeiling (r : Renderer) (ceiling : Option Nat) (document : Forest) :
    (r.withCeiling ceiling).problems document = r.problems document := by
  unfold problems
  induction document with
  | nil => rfl
  | text content next ih => exact ih
  | element tag children next ihc ihn =>
    rw [Forest.problems, Forest.problems, ihc, ihn]
    rfl

/-- If no condition of a document has a placeholder and none of its problems is a directive that
cannot be read, then nothing in it is unsupported: whatever the values, the data and the ceiling
are, and whatever a memo was used for before. -/
theorem unsupported_of_problems (r : Renderer) (document : Forest)
    (hplain : ∀ condition ∈ document.attributeTexts r.settings.conditionAttribute,
      hasPlaceholder condition = false)
    (hproblems : ∀ p ∈ r.problems document, p.isUnreadable = false) (ceiling : Option Nat)
    (values : Entries String) (data : Datum) (uses : List Memo.Use) :
    ((r.withCeiling ceiling).renderWith (inTurn Memo.Use.apply uses .empty).2 document values
      data).1.report.unsupported = 0 := by
  have hmemo : (inTurn Memo.Use.apply uses .empty).2.Faithful :=
    (Memo.Use.inTurn_apply_of_remembers uses Memo.remembers_empty).2.faithful
  rw [← r.problems_withCeiling ceiling] at hproblems
  obtain ⟨hcount, hfilled⟩ :=
    (r.withCeiling ceiling).unsupported_renderWith_of_problems hproblems hmemo values data
  rw [hcount, shownCount_eq_zero_iff, List.countP_eq_zero]
  intro text htext hunreadable
  rw [Bool.not_eq_true'] at hunreadable
  obtain ⟨written, hwritten, hplaceholder, -⟩ := hfilled text htext hunreadable
  rw [hplain written hwritten] at hplaceholder
  cases hplaceholder

/-- A repeat stands within another one, with a condition beside its directive. That is a problem,
but each directive can be read. -/
theorem unsupported_of_problems_nested :
    let repeated : Forest :=
      .element ⟨"li", .ofList [("data-if", "Model.a == '1'"), ("data-repeat", "y in Model.ys")]⟩
        (.text "[[x.n]]" .nil) .nil
    let document : Forest :=
      .element ⟨"ul", .ofList [("data-repeat", "x in Model.xs")]⟩ repeated .nil
    let data : Datum :=
      .record [("a", .text "1"), ("xs", .list [.null, .record [("n", .text "[[")]]),
        ("ys", .list [.null])]
    let uses : List Memo.Use := [.read "?", .write default repeated .empty data, .read "Model.a"]
    default.problems document = [.conflictingDirectives "li"] ∧
      ((default.withCeiling (some 3)).renderWith (inTurn Memo.Use.apply uses .empty).2 document
        .empty data).1.report.unsupported = 0 := by
  intro repeated document data uses
  have hproblems : default.problems document = [.conflictingDirectives "li"] := by decide +kernel
  refine ⟨hproblems, default.unsupported_of_problems document ?_ ?_ (some 3) .empty data uses⟩
  · decide +kernel
  · rw [hproblems]
    decide

/-- Of what a strict letter is written from, nothing is unsupported but conditions that are written
with a placeholder and cannot be read once items of the data are filled in. -/
theorem unsupported_renderStrict {r : Renderer} {document : Forest} {values : Entries String}
    {data : Datum} {rendering : Rendering}
    (h : r.renderStrict document values data = .ok rendering) :
    let job := r.job values data
    let met := (document.expand job).1.conditionsMet job
    rendering.report.unsupported =
        shownCount (met.countP fun text => !Expression.isReadable text) ∧
      (∀ text ∈ met, Expression.isReadable text = false →
        job.IsFilledIn (document.attributeTexts r.settings.conditionAttribute) text) ∧
      (rendering.report.unsupported = 0 ↔
        ∀ text ∈ met, job.IsFilledIn (document.attributeTexts r.settings.conditionAttribute) text →
          Expression.isReadable text = true) := by
  intro job met
  obtain ⟨hproblems, -, rfl⟩ := renderStrict_eq_ok_iff.1 h
  have hread : ∀ p ∈ r.problems document, p.isUnreadable = false := by
    rw [hproblems]
    exact List.forall_mem_nil _
  obtain ⟨hcount, hfilled⟩ :=
    r.unsupported_renderWith_of_problems hread Memo.faithful_empty values data
  refine ⟨hcount, hfilled, ?_⟩
  rw [render, hcount, shownCount_eq_zero_iff, List.countP_eq_zero]
  constructor
  · intro hreadable text htext _
    simpa using hreadable text htext
  · intro hreadable text htext hunreadable
    rw [Bool.not_eq_true'] at hunreadable
    exact Bool.eq_false_iff.1 hunreadable
      (hreadable text htext (hfilled text htext hunreadable))

/-- Of the copies of an element with a condition, the one whose item has no value for the
placeholder keeps it, and the condition cannot be read. -/
theorem unsupported_renderStrict_without_value :
    let document : Forest :=
      .element ⟨"ul", .ofList [("data-repeat", "x in Model.xs")]⟩
        (.element ⟨"li", .ofList [("data-if", "[[x.n]] == 1")]⟩ .nil .nil) .nil
    let data : Datum := .record [("xs", .list [.record [("n", .text "1")], .null])]
    let job := default.job .empty data
    let rendering := default.render document .empty data
    default.renderStrict document .empty data = .ok rendering ∧
      (document.expand job).1.conditionsMet job = ["1 == 1", "[[x.n]] == 1"] ∧
      rendering.report.unsupported = 1 ∧
      job.IsFilledIn ["[[x.n]] == 1"] "[[x.n]] == 1" := by
  intro document data job rendering
  have hstrict : default.renderStrict document .empty data = .ok rendering :=
    renderStrict_eq_ok_iff.2 ⟨by decide +kernel, by decide +kernel, rfl⟩
  have hmet : (document.expand job).1.conditionsMet job = ["1 == 1", "[[x.n]] == 1"] := by
    decide +kernel
  obtain ⟨hcount, hfilled, -⟩ := unsupported_renderStrict hstrict
  refine ⟨hstrict, hmet, hcount.trans ?_, hfilled _ ?_ ?_⟩
  all_goals decide +kernel

/-- A strict letter with a condition that cannot be read, whatever its placeholder stands for. -/
theorem renderStrict_unreadable :
    let document : Forest :=
      .element ⟨"ul", .ofList [("data-repeat", "x in Model.xs")]⟩
        (.element ⟨"li", .ofList [("data-if", "[[x.n]] =! 1")]⟩ .nil .nil) .nil
    let data : Datum := .record [("xs", .list [.record [("n", .number (Number.ofNat 1))]])]
    let rendering := default.render document .empty data
    default.renderStrict document .empty data = .ok rendering ∧ rendering.report.unsupported ≠ 0 :=
  ⟨renderStrict_eq_ok_iff.2 ⟨by decide +kernel, by decide +kernel, rfl⟩, by decide +kernel⟩

end Renderer

end FormLetter
