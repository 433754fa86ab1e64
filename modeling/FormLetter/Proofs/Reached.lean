import FormLetter.Proofs.Diagnosis
import FormLetter.Proofs.Rounds
import FormLetter.Proofs.Settled

/-!
# Repeats as rounds come to them

A document is checked as it is written. A round reads the directive of a copy as the repeats around
it have filled it in. To tell which directive of the document that was, the rounds are gone through
with the values kept apart: each element stays as it is written, with the items that are bound
around it.

* `Draft.expandNext?`: a round of this kind. `Draft.expandNext?_expanded`: it does what a round
  does.
* `Draft.Rounds`: rounds one after the other. `Draft.exists_rounds_iff`: they go through the same
  documents.
* `Draft.Rounds.isFrom`: elements with a directive are those of the document, and what is bound
  around them are items of the data.
* `Renderer.dropped_of_problem`: what becomes of a repeat that the check finds unreadable.
-/

namespace FormLetter

/-! ## Rounds with the values kept apart -/

/-- A repeat of a draft: the element with the directive that it has in the template, and what the
repeats around it have bound, the outermost one first. -/
structure RepeatCopy where
  bindings : List Binding
  tag : Tag
  written : String
  children : Draft

/-- The document itself, with nothing bound. -/
def Forest.toDraft : Forest → Draft
  | .nil => .nil
  | .text content next => .text ⟨[], content⟩ next.toDraft
  | .element tag children next => .element [] tag children.toDraft next.toDraft

namespace RepeatCopy

variable {job : Job}

/-- The directive as a round reads it. -/
def directive (job : Job) (copy : RepeatCopy) : String :=
  job.fillAttribute copy.bindings job.settings.repeatAttribute copy.written

/-- The element without its directive. -/
def template (job : Job) (copy : RepeatCopy) : Draft :=
  .element copy.bindings (copy.tag.without job.settings.repeatAttribute) copy.children .nil

end RepeatCopy

namespace Draft

variable {job : Job} {tally tally' : ExpansionTally} {d e : Draft}

/-- Binds one more item around everything, within all that is bound already. -/
def bind (b : Binding) : Draft → Draft
  | .nil => .nil
  | .text place next => .text ⟨place.bindings ++ [b], place.content⟩ (next.bind b)
  | .element bindings tag children next =>
    .element (bindings ++ [b]) tag (children.bind b) (next.bind b)

/-- The first element in document order that has a repeat directive. -/
def firstRepeat? (repeatAttribute : String) : Draft → Option RepeatCopy
  | .nil => none
  | .text _ next => next.firstRepeat? repeatAttribute
  | .element bindings tag children next =>
    match tag.attributes.get? repeatAttribute with
    | some written => some ⟨bindings, tag, written, children⟩
    | none => (children.firstRepeat? repeatAttribute).or (next.firstRepeat? repeatAttribute)

/-- The draft with something else in the place of its first repeat. -/
def replaceFirst (repeatAttribute : String) : Draft → Draft → Draft
  | .nil, _ => .nil
  | .text place next, other => .text place (next.replaceFirst repeatAttribute other)
  | .element bindings tag children next, other =>
    match tag.attributes.get? repeatAttribute, children.firstRepeat? repeatAttribute with
    | some _, _ => other.append next
    | none, some _ => .element bindings tag (children.replaceFirst repeatAttribute other) next
    | none, none => .element bindings tag children (next.replaceFirst repeatAttribute other)

/-- One round: the first repeat gives way to its copies, each with an item bound around it. -/
def expandNext? (job : Job) (tally : ExpansionTally) (d : Draft) :
    Option (Draft × ExpansionTally) :=
  (d.firstRepeat? job.settings.repeatAttribute).map fun copy =>
    let template := copy.template job
    let made := job.bindings (copy.directive job) (template.expanded job) tally
    (d.replaceFirst job.settings.repeatAttribute (join (made.1.map template.bind)), made.2)

theorem expanded_toDraft (job : Job) (f : Forest) : f.toDraft.expanded job = f := by
  induction f with
  | nil => rfl
  | text content next ih =>
    rw [Forest.toDraft, expanded, ih]
    rfl
  | element tag children next ihc ihn =>
    rw [Forest.toDraft, expanded, Tag.fillThrough_nil, ihc, ihn]

theorem expanded_bind (job : Job) (b : Binding) (d : Draft) :
    (d.bind b).expanded job = (d.expanded job).fill (job.sourceOf b) := by
  induction d with
  | nil => rfl
  | text place next ih =>
    rw [bind, expanded, expanded, Forest.fill, ih, Place.expanded, List.foldl_append]
    rfl
  | element bindings tag children next ihc ihn =>
    rw [bind, expanded, expanded, Forest.fill, ihc, ihn, Tag.fillThrough_concat]

theorem expanded_join_bind (job : Job) (bound : List Binding) (d : Draft) :
    (join (bound.map d.bind)).expanded job =
      Forest.join (bound.map fun b => (d.expanded job).fill (job.sourceOf b)) := by
  rw [expanded_join, List.map_map]
  congr 1
  exact List.map_congr_left fun b _ => expanded_bind job b d

theorem firstRepeat?_expanded (job : Job) (d : Draft) :
    (d.expanded job).firstRepeat? job.settings.repeatAttribute =
      (d.firstRepeat? job.settings.repeatAttribute).map fun copy =>
        (copy.directive job, (copy.template job).expanded job) := by
  induction d with
  | nil => rfl
  | text place next ih => exact ih
  | element bindings tag children next ihc ihn =>
    rw [expanded, Forest.firstRepeat?, firstRepeat?, Tag.get?_fillThrough]
    cases tag.attributes.get? job.settings.repeatAttribute with
    | some written =>
      rw [Option.map_some, Option.map_some, Tag.without_fillThrough]
      rfl
    | none =>
      rw [Option.map_none, ihc, ihn]
      cases children.firstRepeat? job.settings.repeatAttribute <;> rfl

theorem replaceFirst_expanded (job : Job) (d other : Draft) :
    (d.replaceFirst job.settings.repeatAttribute other).expanded job =
      (d.expanded job).replaceFirst job.settings.repeatAttribute (other.expanded job) := by
  induction d with
  | nil => rfl
  | text place next ih =>
    rw [replaceFirst, expanded, ih]
    rfl
  | element bindings tag children next ihc ihn =>
    rw [expanded, Forest.replaceFirst, replaceFirst, Tag.get?_fillThrough, firstRepeat?_expanded]
    cases tag.attributes.get? job.settings.repeatAttribute with
    | some written => exact expanded_append job other next
    | none =>
      cases children.firstRepeat? job.settings.repeatAttribute with
      | some copy =>
        show Forest.element _ _ _ = _
        rw [ihc]
        rfl
      | none =>
        show Forest.element _ _ _ = _
        rw [ihn]
        rfl

/-- Such a round does what a round does. -/
theorem expandNext?_expanded (job : Job) (tally : ExpansionTally) (d : Draft) :
    (d.expanded job).expandNext? job tally =
      (d.expandNext? job tally).map fun next => (next.1.expanded job, next.2) := by
  have hfirst := firstRepeat?_expanded job d
  cases hcopy : d.firstRepeat? job.settings.repeatAttribute with
  | none =>
    rw [hcopy] at hfirst
    rw [expandNext?, hcopy]
    cases hnext : (d.expanded job).expandNext? job tally with
    | none => rfl
    | some next =>
      obtain ⟨directive, template, hsome, -⟩ :=
        Forest.exists_template_of_round (Forest.expandNext?_eq_some_iff.1 hnext)
      rw [hfirst] at hsome
      cases hsome
  | some copy =>
    rw [hcopy, Option.map_some] at hfirst
    rw [Forest.expandNext?_of_firstRepeat? hfirst, Forest.nextCopies_of_firstRepeat? hfirst,
      expandNext?, hcopy, Option.map_some, Option.map_some, replaceFirst_expanded,
      expanded_join_bind]

/-- What a document has become by rounds that found something each. -/
inductive Rounds (job : Job) (document : Forest) : Draft → ExpansionTally → Prop where
  | start : Rounds job document document.toDraft {}
  | next {d e : Draft} {tally tally' : ExpansionTally} (before : Rounds job document d tally)
      (round : d.expandNext? job tally = some (e, tally')) : Rounds job document e tally'

/-- The rounds go through the same documents. -/
theorem exists_rounds_iff {document f : Forest} :
    (∃ made, Forest.Rounds job document made f tally) ↔
      ∃ d, Rounds job document d tally ∧ d.expanded job = f := by
  constructor
  · rintro ⟨made, h⟩
    induction h with
    | start => exact ⟨_, .start, expanded_toDraft job document⟩
    | @next made f g tally tally' before round ih =>
      obtain ⟨d, hd, rfl⟩ := ih
      rw [expandNext?_expanded] at round
      obtain ⟨⟨e, tally''⟩, hnext, he⟩ := Option.map_eq_some_iff.1 round
      cases he
      exact ⟨e, hd.next hnext, rfl⟩
  · rintro ⟨d, h, rfl⟩
    induction h with
    | start =>
      rw [expanded_toDraft]
      exact ⟨[], .start⟩
    | @next d e tally tally' before round ih =>
      obtain ⟨made, hmade⟩ := ih
      have hround : (d.expanded job).expandNext? job tally = some (e.expanded job, tally') := by
        rw [expandNext?_expanded, round]
        rfl
      exact ⟨_, hmade.next hround⟩

end Draft

/-! ## Where repeats come from -/

namespace Forest

/-- The document has an element with this tag. -/
def HasElement (f : Forest) (tag : Tag) : Prop := ∃ around, ⟨around, .element tag⟩ ∈ f.occurrences

theorem allTags_of_forall_mem {kind : Tag → Prop} {f : Forest} {around : List Tag}
    (h : ∀ around' tag, ⟨around', .element tag⟩ ∈ f.occurrencesWithin around → kind tag) :
    f.AllTags kind := by
  induction f generalizing around with
  | nil => trivial
  | text content next ih => exact ih fun around' tag hmem => h around' tag (.tail _ hmem)
  | element tag children next ihc ihn =>
    have hchildren : children.AllTags kind := by
      refine @ihc (around ++ [tag]) fun around' tag' hmem => h around' tag' ?_
      exact .tail _ (List.mem_append_left _ hmem)
    have hnext : next.AllTags kind := by
      refine @ihn around fun around' tag' hmem => h around' tag' ?_
      exact .tail _ (List.mem_append_right _ hmem)
    exact ⟨h around tag (.head _), hchildren, hnext⟩

end Forest

namespace Draft

/-- Every element has a tag of some kind and bound items of some kind around it. -/
def AllElements (kind : List Binding → Tag → Prop) : Draft → Prop
  | .nil => True
  | .text _ next => next.AllElements kind
  | .element bindings tag children next =>
    kind bindings tag ∧ children.AllElements kind ∧ next.AllElements kind

namespace AllElements

variable {kind : List Binding → Tag → Prop} {d e : Draft} {name : String} {copy : RepeatCopy}

theorem append (hd : d.AllElements kind) (he : e.AllElements kind) :
    (d.append e).AllElements kind := by
  induction d with
  | nil => exact he
  | text place next ih => exact ih hd
  | element bindings tag children next _ ih =>
    obtain ⟨htag, hchildren, hnext⟩ := hd
    exact ⟨htag, hchildren, ih hnext⟩

theorem join {drafts : List Draft} (h : ∀ d ∈ drafts, d.AllElements kind) :
    (Draft.join drafts).AllElements kind := by
  induction drafts with
  | nil => trivial
  | cons d drafts ih =>
    obtain ⟨hd, hdrafts⟩ := List.forall_mem_cons.1 h
    exact hd.append (ih hdrafts)

theorem bind {b : Binding}
    (hkind : ∀ bindings tag, kind bindings tag → kind (bindings ++ [b]) tag)
    (h : d.AllElements kind) : (d.bind b).AllElements kind := by
  induction d with
  | nil => trivial
  | text place next ih => exact ih h
  | element bindings tag children next ihc ihn =>
    obtain ⟨htag, hchildren, hnext⟩ := h
    exact ⟨hkind bindings tag htag, ihc hchildren, ihn hnext⟩

theorem replaceFirst (hd : d.AllElements kind) (he : e.AllElements kind) :
    (d.replaceFirst name e).AllElements kind := by
  induction d with
  | nil => trivial
  | text place next ih => exact ih hd
  | element bindings tag children next ihc ihn =>
    obtain ⟨htag, hchildren, hnext⟩ := hd
    rw [Draft.replaceFirst]
    split
    · exact he.append hnext
    · exact ⟨htag, ihc hchildren, hnext⟩
    · exact ⟨htag, hchildren, ihn hnext⟩

/-- The first repeat is an element of the draft, and so are the elements within it. -/
theorem of_firstRepeat? (h : d.AllElements kind) (hcopy : d.firstRepeat? name = some copy) :
    copy.tag.attributes.get? name = some copy.written ∧ kind copy.bindings copy.tag ∧
      copy.children.AllElements kind := by
  induction d with
  | nil => cases hcopy
  | text place next ih => exact ih h hcopy
  | element bindings tag children next ihc ihn =>
    obtain ⟨htag, hchildren, hnext⟩ := h
    rw [firstRepeat?] at hcopy
    split at hcopy
    · rename_i written hwritten
      cases hcopy
      exact ⟨hwritten, htag, hchildren⟩
    · rcases Option.or_eq_some_iff.1 hcopy with hcopy | ⟨-, hcopy⟩
      · exact ihc hchildren hcopy
      · exact ihn hnext hcopy

end AllElements

/-- The tag is one of the document, perhaps without its directive, and all that is bound around it
are items of the data. -/
def IsFrom (job : Job) (document : Forest) (bindings : List Binding) (tag : Tag) : Prop :=
  (∃ original, document.HasElement original ∧
    (tag = original ∨ tag = original.without job.settings.repeatAttribute)) ∧
    ∀ b ∈ bindings, b.IsFrom job.data

theorem allElements_toDraft {document f : Forest}
    (h : f.AllTags document.HasElement) : f.toDraft.AllElements (IsFrom job document) := by
  induction f with
  | nil => trivial
  | text content next ih => exact ih h
  | element tag children next ihc ihn =>
    obtain ⟨htag, hchildren, hnext⟩ := h
    exact ⟨⟨⟨tag, htag, .inl rfl⟩, List.forall_mem_nil _⟩, ihc hchildren, ihn hnext⟩

/-- An element that still has its directive is one of the document as it is written. -/
theorem IsFrom.hasElement {document : Forest} {bindings : List Binding} {tag : Tag}
    {written : String} (h : IsFrom job document bindings tag)
    (hwritten : tag.attributes.get? job.settings.repeatAttribute = some written) :
    document.HasElement tag := by
  obtain ⟨⟨original, horiginal, rfl | rfl⟩, -⟩ := h
  · exact horiginal
  · rw [Tag.without, Entries.get?_erase, if_pos rfl] at hwritten
    cases hwritten

/-- A round leaves elements that come from the document and the data. -/
theorem allElements_expandNext? {document : Forest} {d e : Draft} {tally tally' : ExpansionTally}
    (h : d.AllElements (IsFrom job document))
    (hround : d.expandNext? job tally = some (e, tally')) :
    e.AllElements (IsFrom job document) := by
  obtain ⟨copy, hcopy, he⟩ := Option.map_eq_some_iff.1 hround
  cases he
  obtain ⟨hwritten, hkind, hchildren⟩ := h.of_firstRepeat? hcopy
  have htemplate : (copy.template job).AllElements (IsFrom job document) :=
    ⟨⟨⟨copy.tag, hkind.hasElement hwritten, .inr rfl⟩, hkind.2⟩, hchildren, trivial⟩
  refine h.replaceFirst (.join fun d hd => ?_)
  obtain ⟨b, hb, rfl⟩ := List.mem_map.1 hd
  refine htemplate.bind fun bindings tag hfrom => ⟨hfrom.1, fun c hc => ?_⟩
  rcases List.mem_append.1 hc with hc | hc
  · exact hfrom.2 c hc
  · exact List.mem_singleton.1 hc ▸ Job.isFrom_of_mem_bindings hb

/-- So do all rounds. -/
theorem Rounds.isFrom {document : Forest} (h : Rounds job document d tally) :
    d.AllElements (IsFrom job document) := by
  induction h with
  | start =>
    exact allElements_toDraft (Forest.allTags_of_forall_mem fun around _ hmem => ⟨around, hmem⟩)
  | next before round ih => exact allElements_expandNext? ih round

end Draft

/-! ## What the check finds -/

theorem Tag.unreadableRepeat_mem_problems_iff {settings : Settings} {tag : Tag}
    {written : String} :
    .unreadableRepeat written ∈ tag.problems settings ↔
      tag.attributes.get? settings.repeatAttribute = some written ∧
        Directive.ofText? written = none := by
  have hcondition : ∀ condition, .unreadableRepeat written ∉ conditionProblems condition := by
    intro condition h
    unfold conditionProblems at h
    split at h
    · cases h
    · split at h
      · cases h
      · cases List.mem_singleton.1 h
  have hrepeat : ∀ directive, .unreadableRepeat written ∈ repeatProblems directive ↔
      directive = written ∧ Directive.ofText? written = none := by
    intro directive
    unfold repeatProblems
    split
    · rename_i d hd
      refine ⟨nofun, ?_⟩
      rintro ⟨rfl, hnone⟩
      rw [hd] at hnone
      cases hnone
    · rename_i hnone
      rw [List.mem_singleton]
      constructor
      · intro h
        cases h
        exact ⟨rfl, hnone⟩
      · rintro ⟨rfl, -⟩
        rfl
  unfold problems
  cases tag.attributes.get? settings.conditionAttribute with
  | none =>
    cases tag.attributes.get? settings.repeatAttribute with
    | none => simp
    | some directive => simp [hrepeat]
  | some condition =>
    cases tag.attributes.get? settings.repeatAttribute with
    | none => simp [hcondition]
    | some directive => simp [hcondition, hrepeat]

/-- The problems of a document are those of its elements. -/
theorem Forest.mem_problems_iff {settings : Settings} {f : Forest} {problem : Problem} :
    problem ∈ f.problems settings ↔ ∃ tag, f.HasElement tag ∧ problem ∈ tag.problems settings := by
  suffices key : ∀ around, problem ∈ f.problems settings ↔ ∃ tag,
      (∃ around', ⟨around', .element tag⟩ ∈ f.occurrencesWithin around) ∧
        problem ∈ tag.problems settings from key []
  induction f with
  | nil => simp [problems, occurrencesWithin]
  | text content next ih =>
    intro around
    rw [problems, ih around]
    simp [occurrencesWithin]
  | element tag children next ihc ihn =>
    intro around
    rw [problems, List.mem_append, List.mem_append, ihc (around ++ [tag]), ihn around]
    simp only [occurrencesWithin, List.mem_cons, List.mem_append, Occurrence.mk.injEq,
      Label.element.injEq, exists_or, or_and_right, or_assoc, exists_eq_left]

/-! ## What rounds find -/

/-- The next round finds a directive that it cannot read: it counts it and drops the element. -/
def Forest.Rejects (job : Job) (tally : ExpansionTally) (f : Forest) : Prop :=
  f.expandNext? job tally =
    some (f.replaceFirst job.settings.repeatAttribute .nil,
      { tally with unsupported := tally.unsupported + 1 })

/-- A directive that can be read is not counted as one that cannot. -/
theorem Job.unsupported_bindings {job : Job} {directive : String} {d : Directive}
    (h : Directive.ofText? directive = some d) (template : Forest) (tally : ExpansionTally) :
    (job.bindings directive template tally).2.unsupported = tally.unsupported := by
  rw [bindings, h]
  dsimp only
  split
  · rfl
  · split <;> rfl

theorem Forest.rejects_iff {job : Job} {tally : ExpansionTally} {f template : Forest}
    {directive : String}
    (h : f.firstRepeat? job.settings.repeatAttribute = some (directive, template)) :
    f.Rejects job tally ↔ Directive.ofText? directive = none := by
  rw [Rejects, expandNext?_of_firstRepeat? h, nextCopies_of_firstRepeat? h]
  constructor
  · intro hround
    cases hd : Directive.ofText? directive with
    | none => rfl
    | some d =>
      have hcount : (job.bindings directive template tally).2.unsupported = tally.unsupported :=
        Job.unsupported_bindings hd template tally
      rw [(Prod.mk.inj (Option.some.inj hround)).2] at hcount
      exact absurd hcount (Nat.succ_ne_self _)
  · intro hnone
    rw [Job.bindings, hnone]
    rfl

/-- Repeats change nothing in an attribute if they have no value for any placeholder of it. -/
theorem Job.fillAttribute_of_get?_eq_none {job : Job} {bindings : List Binding} {s : String}
    (h : ∀ p ∈ placeholders s, ∀ b ∈ bindings, (job.sourceOf b).get? p.path = none)
    (name : String) : job.fillAttribute bindings name s = s := by
  induction bindings with
  | nil => rfl
  | cons b bindings ih =>
    show job.fillAttribute bindings name ((job.sourceOf b).fillAttribute name s) = s
    rw [FieldSource.fillAttribute,
      FieldSource.fill_of_get?_eq_none _ fun p hp => h p hp b (.head _)]
    exact ih fun p hp c hc => h p hp c (.tail _ hc)

/-- The check finds the elements of the document whose directive, as it is written, cannot be read.
Each repeat that a round comes to is a copy of an element of the document, and all that is bound
around it are items of the data. The round drops it, and counts it as one that cannot be read,
exactly if its directive cannot be read once the repeats around it have filled it in. For an element
that the check finds this is so if they have no value for any placeholder of the directive. -/
theorem Renderer.dropped_of_problem (r : Renderer) (document : Forest) (values : Entries String)
    (data : Datum) :
    let job := r.job values data
    let name := r.settings.repeatAttribute
    (∀ written, .unreadableRepeat written ∈ r.problems document ↔
        ∃ tag, document.HasElement tag ∧ tag.attributes.get? name = some written ∧
          Directive.ofText? written = none) ∧
      (∀ f tally, (∃ made, Forest.Rounds job document made f tally) ↔
        ∃ d, Draft.Rounds job document d tally ∧ d.expanded job = f) ∧
      ∀ d tally copy, Draft.Rounds job document d tally → d.firstRepeat? name = some copy →
        (document.HasElement copy.tag ∧ copy.tag.attributes.get? name = some copy.written ∧
            ∀ b ∈ copy.bindings, b.IsFrom data) ∧
          ((d.expanded job).Rejects job tally ↔ Directive.ofText? (copy.directive job) = none) ∧
          (.unreadableRepeat copy.written ∈ r.problems document →
            (∀ p ∈ placeholders copy.written, ∀ b ∈ copy.bindings,
              (job.sourceOf b).get? p.path = none) →
            (d.expanded job).Rejects job tally) := by
  intro job name
  have hproblem : ∀ written, .unreadableRepeat written ∈ r.problems document ↔
      ∃ tag, document.HasElement tag ∧ tag.attributes.get? name = some written ∧
        Directive.ofText? written = none := by
    intro written
    rw [problems, Forest.mem_problems_iff]
    simp only [Tag.unreadableRepeat_mem_problems_iff]
    rfl
  refine ⟨hproblem, fun f tally => Draft.exists_rounds_iff, ?_⟩
  intro d tally copy hrounds hcopy
  obtain ⟨hwritten, hfrom, -⟩ := hrounds.isFrom.of_firstRepeat? hcopy
  have hfirst := Draft.firstRepeat?_expanded job d
  rw [show d.firstRepeat? job.settings.repeatAttribute = some copy from hcopy] at hfirst
  have hrejects : (d.expanded job).Rejects job tally ↔
      Directive.ofText? (copy.directive job) = none := Forest.rejects_iff hfirst
  refine ⟨⟨hfrom.hasElement hwritten, hwritten, hfrom.2⟩, hrejects, fun hfound hnone => ?_⟩
  obtain ⟨-, -, -, hunreadable⟩ := (hproblem copy.written).1 hfound
  rw [hrejects, RepeatCopy.directive, Job.fillAttribute_of_get?_eq_none hnone]
  exact hunreadable

/-! ## A repeat within another one -/

namespace RepeatWithin

def item : Datum := .record [("l", .text "a")]

def data : Datum :=
  .record [("xs", .list [item]), ("a", .list [.record [("n", .text "1")]])]

/-- A list of paragraphs within a repeat, with the given directive. -/
def document (directive : String) : Forest :=
  .element ⟨"ul", .ofList [("data-repeat", "x in Model.xs")]⟩
    (.element ⟨"li", .ofList [("data-repeat", directive)]⟩ (.text "[[y.n]]" .nil) .nil) .nil

def job : Job := Renderer.default.job .empty data

/-- The document once the outer repeat has been expanded. -/
def draft (directive : String) : Draft :=
  .element [⟨"x", item⟩] ⟨"ul", .empty⟩
    (.element [⟨"x", item⟩] ⟨"li", .ofList [("data-repeat", directive)]⟩
      (.text ⟨[⟨"x", item⟩], "[[y.n]]"⟩ .nil) .nil) .nil

def tally : ExpansionTally := { expanded := 1, iterations := 1 }

theorem rounds_draft : Draft.Rounds job (document "y of [[x.m]]") (draft "y of [[x.m]]") tally :=
  .next .start (by with_unfolding_all rfl)

end RepeatWithin

open RepeatWithin in
/-- The item has no value for the placeholder, so the repeat is dropped in the end. -/
theorem dropped_of_problem_within :
    .unreadableRepeat "y of [[x.m]]" ∈ Renderer.default.problems (document "y of [[x.m]]") ∧
      ((draft "y of [[x.m]]").expanded job).Rejects job tally := by
  obtain ⟨-, -, hreached⟩ :=
    Renderer.default.dropped_of_problem (document "y of [[x.m]]") .empty data
  have hproblem : .unreadableRepeat "y of [[x.m]]" ∈
      Renderer.default.problems (document "y of [[x.m]]") := by decide +kernel
  obtain ⟨-, -, hdropped⟩ := hreached _ _ ⟨[⟨"x", item⟩],
    ⟨"li", .ofList [("data-repeat", "y of [[x.m]]")]⟩, "y of [[x.m]]",
    .text ⟨[⟨"x", item⟩], "[[y.n]]"⟩ .nil⟩ rounds_draft rfl
  exact ⟨hproblem, hdropped hproblem (by decide +kernel)⟩

open RepeatWithin in
/-- A directive with a placeholder cannot be read as it is written. But once the repeat around it
has filled it in, it can: the check calls it unreadable, and the letter has what it asks for. -/
theorem problem_of_readable_repeat :
    let rendering := Renderer.default.render (document "y in Model.[[x.l]]") .empty data
    Renderer.default.problems (document "y in Model.[[x.l]]") =
        [.unreadableRepeat "y in Model.[[x.l]]"] ∧
      rendering.document = .element ⟨"ul", .empty⟩
        (.element ⟨"li", .empty⟩ (.text "1" .nil) .nil) .nil ∧
      rendering.report.repeatsExpanded = 2 ∧ rendering.report.unsupported = 0 := by
  decide +kernel

end FormLetter
