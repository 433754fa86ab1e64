import FormLetter.Proofs.CountedList
import FormLetter.Proofs.PartByPart
import FormLetter.Proofs.Replacement
import FormLetter.Proofs.Settled

/-!
# Elements repeated once

A repeat fills in its copies: the fields of its variable from the item, and all others from the
field values. If nothing in its element is for the variable, then what a repeat over one item does
is to fill in field values before the conditions are decided and before the repeats within the
element are expanded. The last pass would have filled them in too. So the letter is the same, unless
a condition or a repeat within the element looks at what has been filled in.

* `FieldSource.fill_fill`, `Forest.fill_fill`: a first source makes no difference if the second one
  has the same values.
* `Forest.SameLetter`: documents of which the same letter is made.
* `Forest.Steady`: field values filled in ahead change nothing about conditions and repeats.
  `Forest.sameLetter_expand_fill`: then they make no difference to the letter.
* `Renderer.render_repeated_once`: nor does a repeat over one item.
-/

namespace FormLetter

section

variable {job : Job}

/-! ## Filling in twice -/

namespace FieldSource

variable {source outer inner : FieldSource} {s : String}

/-- Only what is found for the placeholders of a text matters to it. -/
theorem fill_congr (escaped : Bool)
    (h : ∀ p ∈ placeholders s, outer.get? p.path = inner.get? p.path) :
    outer.fill escaped s = inner.fill escaped s := by
  rw [fill, fill]
  congr 1
  refine List.flatMap_congr fun x hx => ?_
  cases x with
  | plain c => rfl
  | field w p => rw [fillPiece, fillPiece, h p (mem_placeholders_iff.2 ⟨w, hx⟩)]

/-- A placeholder that the first source fills in takes the same value from the second one. -/
def Anticipates (outer inner : FieldSource) (s : String) : Prop :=
  ∀ p ∈ placeholders s, outer.get? p.path = none ∨ outer.get? p.path = inner.get? p.path

/-- Then the first one makes no difference. -/
theorem fill_fill (hfree : outer.GivesBracketFree) (escaped : Bool) (htidy : Tidy s.toList)
    (h : outer.Anticipates inner s) :
    inner.fill escaped (outer.fill escaped s) = inner.fill escaped s := by
  have htidy' : ∀ x ∈ pieces s.toList, Tidy (outer.fillPiece escaped x) := fun x hx =>
    (tidy_fillPiece hfree escaped htidy hx).1
  rw [fill, fill, fill, String.toList_ofList, pieces_flatMap htidy', List.flatMap_assoc]
  congr 1
  refine List.flatMap_congr fun x hx => ?_
  cases x with
  | plain c =>
    have hc : isBracket c = false := by simpa [Piece.isTidy] using htidy _ hx
    have hplain : BracketFree [c] := List.forall_mem_singleton.2 hc
    show (pieces [c]).flatMap _ = _
    rw [hplain.pieces_eq]
    rfl
  | field w p =>
    have hp : p.Written w := written_of_mem_pieces hx
    cases hvalue : outer.get? p.path with
    | none =>
      rw [fillPiece, hvalue]
      dsimp only
      rw [hp.pieces_eq, List.flatMap_singleton]
    | some value =>
      have hsame : inner.get? p.path = some value := by
        rcases h p (mem_placeholders_iff.2 ⟨w, hx⟩) with hnone | hsame
        · rw [hvalue] at hnone
          cases hnone
        · rw [← hsame, hvalue]
      have hplain : BracketFree (if escaped then escape value.toList else value.toList) := by
        split
        · exact bracketFree_escape (hfree _ _ hvalue)
        · exact hfree _ _ hvalue
      rw [fillPiece, fillPiece, hvalue, hsame]
      dsimp only
      rw [hplain.pieces_eq, flatMap_fillPiece_of_plain, flatMap_source_map_plain]
      exact Replaces.filterMap_placeholder?_map_plain _

end FieldSource

namespace Tag

variable {outer inner : FieldSource} {tag : Tag}

theorem fill_fill (h : ∀ a ∈ tag.attributes.toList,
    inner.fillAttribute a.1 (outer.fillAttribute a.1 a.2) = inner.fillAttribute a.1 a.2) :
    (tag.fill outer).fill inner = tag.fill inner := by
  unfold fill
  congr 1
  apply Entries.ext
  show List.map _ (List.map _ _) = _
  rw [List.map_map]
  exact List.map_congr_left fun a ha => Prod.ext rfl (h a ha)

theorem fill_congr (h : ∀ a ∈ tag.attributes.toList,
    outer.fillAttribute a.1 a.2 = inner.fillAttribute a.1 a.2) :
    tag.fill outer = tag.fill inner := by
  unfold fill
  congr 1
  apply Entries.ext
  exact List.map_congr_left fun a ha => Prod.ext rfl (h a ha)

end Tag

namespace Forest

variable {outer inner : FieldSource} {f : Forest}

theorem fill_congr (hcondition : outer.conditionAttribute = inner.conditionAttribute)
    (h : ∀ s ∈ f.contents, ∀ p ∈ placeholders s, outer.get? p.path = inner.get? p.path) :
    f.fill outer = f.fill inner := by
  induction f with
  | nil => rfl
  | text content next ih =>
    obtain ⟨hcontent, hnext⟩ := List.forall_mem_cons.1 h
    rw [fill, fill, FieldSource.fill_congr false hcontent, ih hnext]
  | element tag children next ihc ihn =>
    obtain ⟨htag, hchildren, hnext⟩ := forall_contents_element.1 h
    have hattributes : tag.fill outer = tag.fill inner := Tag.fill_congr fun a ha => by
      rw [FieldSource.fillAttribute, FieldSource.fillAttribute, hcondition]
      exact FieldSource.fill_congr _ (htag a ha)
    rw [fill, fill, hattributes, ihc hchildren, ihn hnext]

theorem fill_fill (hfree : outer.GivesBracketFree)
    (hcondition : outer.conditionAttribute = inner.conditionAttribute)
    (h : ∀ s ∈ f.contents, Tidy s.toList ∧ outer.Anticipates inner s) :
    (f.fill outer).fill inner = f.fill inner := by
  induction f with
  | nil => rfl
  | text content next ih =>
    obtain ⟨hcontent, hnext⟩ := List.forall_mem_cons.1 h
    rw [fill, fill, fill, FieldSource.fill_fill hfree false hcontent.1 hcontent.2, ih hnext]
  | element tag children next ihc ihn =>
    obtain ⟨htag, hchildren, hnext⟩ := forall_contents_element.1 h
    have hattributes : (tag.fill outer).fill inner = tag.fill inner := Tag.fill_fill fun a ha => by
      rw [FieldSource.fillAttribute, FieldSource.fillAttribute, hcondition]
      exact FieldSource.fill_fill hfree _ (htag a ha).1 (htag a ha).2
    rw [fill, fill, fill, hattributes, ihc hchildren, ihn hnext]

end Forest

/-! ## Documents that make the same letter -/

namespace Forest

/-- The two documents have nodes for nodes: elements about which the same is decided, and texts and
attributes of which the last pass makes the same. What is within an element that is taken out does
not matter. -/
inductive SameLetter (job : Job) : Forest → Forest → Prop where
  | nil : SameLetter job .nil .nil
  | text {content content' : String} {next next' : Forest}
      (hcontent : (FieldSource.ofValues job.values).fill false content =
        (FieldSource.ofValues job.values).fill false content')
      (hnext : SameLetter job next next') :
      SameLetter job (.text content next) (.text content' next')
  | element {tag tag' : Tag} {children children' next next' : Forest}
      (hhides : job.hides tag = job.hides tag')
      (hcondition : job.hasCondition tag = job.hasCondition tag')
      (hfill : (tag.without job.settings.conditionAttribute).fill (.ofValues job.values) =
        (tag'.without job.settings.conditionAttribute).fill (.ofValues job.values))
      (hchildren : job.hides tag = false → SameLetter job children children')
      (hnext : SameLetter job next next') :
      SameLetter job (.element tag children next) (.element tag' children' next')

namespace SameLetter

variable {f f' g g' : Forest}

theorem refl (job : Job) (f : Forest) : SameLetter job f f := by
  induction f with
  | nil => exact .nil
  | text content next ih => exact .text rfl ih
  | element tag children next ihc ihn => exact .element rfl rfl rfl (fun _ => ihc) ihn

theorem append (hf : SameLetter job f f') (hg : SameLetter job g g') :
    SameLetter job (f ++ g) (f' ++ g') := by
  induction hf with
  | nil => exact hg
  | text hcontent hnext ih => exact .text hcontent ih
  | element hhides hcondition hfill hchildren hnext _ ih =>
    exact .element hhides hcondition hfill hchildren ih

/-- They make the same letter. -/
theorem fill_dropWhere (h : SameLetter job f g) :
    ((f.dropWhere job.hides).mapTags (·.without job.settings.conditionAttribute)).fill
        (.ofValues job.values) =
      ((g.dropWhere job.hides).mapTags (·.without job.settings.conditionAttribute)).fill
        (.ofValues job.values) := by
  induction h with
  | nil => rfl
  | text hcontent hnext ih =>
    rw [dropWhere, dropWhere, mapTags, mapTags, fill, fill, hcontent, ih]
  | @element tag tag' children children' next next' hhides hcondition hfill _ _ ihc ihn =>
    rw [dropWhere, dropWhere, ← hhides]
    cases hvisible : job.hides tag with
    | true => exact ihn
    | false => rw [if_neg Bool.false_ne_true, if_neg Bool.false_ne_true, mapTags, mapTags, fill,
        fill, hfill, ihc hvisible, ihn]

/-- Deciding about their elements counts the same. -/
theorem count_selectVisible (h : SameLetter job f g) {count : VisibilityTally → Nat}
    {kind : Tag → Bool} (hcount : job.Counts count kind)
    (hkind : ∀ tag tag', job.hides tag = job.hides tag' →
      job.hasCondition tag = job.hasCondition tag' → kind tag = kind tag')
    {tally tally' : VisibilityTally} (hmemo : tally.memo.Faithful) (hmemo' : tally'.memo.Faithful) :
    count (f.selectVisible job tally).2 + count tally' =
      count (g.selectVisible job tally').2 + count tally := by
  induction h generalizing tally tally' with
  | nil => exact Nat.add_comm _ _
  | text hcontent hnext ih => exact ih hmemo hmemo'
  | @element tag tag' children children' next next' hhides hcondition hfill _ _ ihc ihn =>
    have htag := faithful_judgeTag job tag hmemo
    have htag' := faithful_judgeTag job tag' hmemo'
    have hjudged := hcount tag tally hmemo
    have hjudged' := hcount tag' tally' hmemo'
    rw [← hkind tag tag' hhides hcondition] at hjudged'
    cases hvisible : job.hides tag with
    | true =>
      rw [selectVisible_of_hides hvisible _ _ hmemo,
        selectVisible_of_hides (hhides ▸ hvisible) _ _ hmemo']
      have hrest := ihn htag htag'
      omega
    | false =>
      rw [selectVisible_of_not_hides hvisible _ _ hmemo,
        selectVisible_of_not_hides (hhides ▸ hvisible) _ _ hmemo']
      have hfaithful : (children.selectVisible job (job.judgeTag tag tally).2).2.memo.Faithful :=
        faithful_selectVisible children htag
      have hfaithful' :
          (children'.selectVisible job (job.judgeTag tag' tally').2).2.memo.Faithful :=
        faithful_selectVisible children' htag'
      have hinside := ihc hvisible htag htag'
      have hrest := ihn hfaithful hfaithful'
      dsimp only
      omega

end SameLetter

end Forest

/-! ## Values filled in ahead -/

namespace Job

/-- Where the fields of a copy come from if none of them is for its variable. -/
def unbound (job : Job) : FieldSource := ⟨job.values, none, some job.settings.conditionAttribute⟩

theorem get?_unbound (job : Job) (path : String) :
    job.unbound.get? path = (FieldSource.ofValues job.values).get? path := rfl

theorem givesBracketFree_unbound (hvalues : ∀ e ∈ job.values.toList, BracketFree e.2.toList) :
    job.unbound.GivesBracketFree := FieldSource.givesBracketFree_ofValues hvalues

/-- Where a path does not begin with its variable, a repeat finds what it finds without an item. -/
theorem get?_sourceOf_eq_unbound {b : Binding} {path : String}
    (h : ∀ rest, path ≠ b.name ++ "." ++ rest) :
    (job.sourceOf b).get? path = job.unbound.get? path := by
  refine FieldSource.get?_of_forall_ne fun b' rest hb' => ?_
  obtain rfl : b = b' := Option.some.inj hb'
  exact h rest

/-- A directive repeats for the same items once field values are filled in, and none of these is
for its variable. -/
def RepeatsAlike (job : Job) (written : String) (template : Forest) : Prop :=
  job.itemsOf (job.unbound.fillAttribute job.settings.repeatAttribute written) =
      job.itemsOf written ∧
    ∀ b ∈ job.itemsOf written, ∀ s ∈ template.contents, ∀ p ∈ placeholders s,
      ∀ rest, p.path = b.name ++ "." ++ rest → job.unbound.get? p.path = none

/-- A repeat whose variable has no field values fills in the same with them filled in ahead. -/
theorem RepeatsAlike.anticipates {written : String} {template : Forest}
    (h : job.RepeatsAlike written template) {b : Binding} (hb : b ∈ job.itemsOf written)
    {s : String} (hs : s ∈ template.contents) : job.unbound.Anticipates (job.sourceOf b) s := by
  intro p hp
  by_cases hvariable : ∃ rest, p.path = b.name ++ "." ++ rest
  · obtain ⟨rest, hrest⟩ := hvariable
    exact .inl (h.2 b hb s hs p hp rest hrest)
  · exact .inr (get?_sourceOf_eq_unbound fun rest hrest => hvariable ⟨rest, hrest⟩).symm

end Job

/-- The last pass makes the same of the attributes other than the condition. -/
theorem Tag.fill_without_fill_unbound (hvalues : ∀ e ∈ job.values.toList, BracketFree e.2.toList)
    {tag : Tag} (htidy : ∀ a ∈ tag.attributes.toList, Tidy a.2.toList) :
    ((tag.fill job.unbound).without job.settings.conditionAttribute).fill (.ofValues job.values) =
      (tag.without job.settings.conditionAttribute).fill (.ofValues job.values) := by
  rw [without_fill]
  refine fill_fill fun a ha => ?_
  have hname : (some job.settings.conditionAttribute == some a.1) = false :=
    beq_eq_false_iff_ne.2 fun heq => ne_of_mem_without ha (Option.some.inj heq).symm
  have hplain : job.unbound.fillAttribute a.1 a.2 = job.unbound.fill false a.2 := by
    show job.unbound.fill (some job.settings.conditionAttribute == some a.1) a.2 = _
    rw [hname]
  rw [hplain]
  exact FieldSource.fill_fill (job.givesBracketFree_unbound hvalues) false
    (htidy a (mem_of_mem_without ha)) fun p _ => .inr (job.get?_unbound p.path)

namespace Forest

/-- Filling in field values ahead of everything else changes nothing about the repeats of a document
and the conditions outside of them: each of these elements stays or goes as it would, and each
directive repeats its element as it would. This is asked of what is not within an element that goes
and not within another repeat. -/
def Steady (job : Job) : Forest → Prop
  | .nil => True
  | .text _ next => next.Steady job
  | .element tag children next =>
    (match tag.attributes.get? job.settings.repeatAttribute with
      | none => job.hides (tag.fill job.unbound) = job.hides tag ∧
          (job.hides tag = false → children.Steady job)
      | some written =>
        job.RepeatsAlike written
          (element (tag.without job.settings.repeatAttribute) children .nil)) ∧
      next.Steady job

/-- Field values filled in ahead change nothing about the letter that is made in the end. -/
theorem sameLetter_expand_fill (hfree : job.settings.maxIterations = none)
    (hvalues : ∀ e ∈ job.values.toList, BracketFree e.2.toList) {f : Forest}
    (htidy : ∀ s ∈ f.contents, Tidy s.toList) (hsteady : f.Steady job) :
    SameLetter job ((f.fill job.unbound).expand job).1 (f.expand job).1 := by
  have hbrackets := job.givesBracketFree_unbound hvalues
  induction f with
  | nil => exact .refl job _
  | text content next ih =>
    obtain ⟨hcontent, hnext⟩ := List.forall_mem_cons.1 htidy
    rw [fill, expand_text, expand_text]
    exact .text (FieldSource.fill_fill hbrackets false hcontent fun p _ => .inr rfl)
      (ih hnext hsteady)
  | element tag children next ihc ihn =>
    obtain ⟨htag, hchildren, hnext⟩ := forall_contents_element.1 htidy
    obtain ⟨helement, hnext'⟩ := hsteady
    have hget := tag.get?_fill job.unbound job.settings.repeatAttribute
    cases hwritten : tag.attributes.get? job.settings.repeatAttribute with
    | none =>
      rw [hwritten] at hget helement
      rw [fill, expand_plain hfree hget, expand_plain hfree hwritten]
      have hcondition : job.hasCondition (tag.fill job.unbound) = job.hasCondition tag :=
        Entries.contains_mapValues _ _ _
      exact .element helement.1 hcondition (Tag.fill_without_fill_unbound hvalues htag)
        (fun hvisible => ihc hchildren (helement.2 (helement.1 ▸ hvisible))) (ihn hnext hnext')
    | some written =>
      rw [hwritten] at hget helement
      rw [fill, fst_expand_repeat hfree hget, fst_expand_repeat hfree hwritten]
      -- The copies are the very same.
      have hcopies : ∀ b ∈ job.itemsOf written,
          ((element (tag.without job.settings.repeatAttribute) children nil).fill
              job.unbound).fill (job.sourceOf b) =
            (element (tag.without job.settings.repeatAttribute) children nil).fill
              (job.sourceOf b) := by
        intro b hb
        have htidy' : ∀ s ∈ (element (tag.without job.settings.repeatAttribute) children
            nil).contents, Tidy s.toList := forall_contents_element.2
          ⟨fun a ha => htag a (Tag.mem_of_mem_without ha), hchildren, List.forall_mem_nil _⟩
        exact fill_fill hbrackets rfl fun s hs => ⟨htidy' s hs, helement.anticipates hb hs⟩
      rw [helement.1]
      refine .append ?_ (ihn hnext hnext')
      have hsame : ∀ b ∈ job.itemsOf written,
          element (((tag.fill job.unbound).without job.settings.repeatAttribute).fill
              (job.sourceOf b)) (((children.fill job.unbound).fill (job.sourceOf b)).expand job).1
              nil =
            element ((tag.without job.settings.repeatAttribute).fill (job.sourceOf b))
              ((children.fill (job.sourceOf b)).expand job).1 nil := by
        intro b hb
        have hcopy := hcopies b hb
        rw [fill, fill, fill] at hcopy
        obtain ⟨htag', hchildren', -⟩ := element.inj hcopy
        rw [Tag.without_fill, htag', hchildren']
      rw [List.map_congr_left hsame]
      exact .refl job _

end Forest

/-! ## Elements repeated for one item -/

namespace Tag

/-- The tag with a repeat directive. -/
def repeated (job : Job) (tag : Tag) (written : String) : Tag :=
  { tag with attributes := tag.attributes.insert job.settings.repeatAttribute written }

theorem get?_repeated (job : Job) (tag : Tag) (written : String) :
    (tag.repeated job written).attributes.get? job.settings.repeatAttribute = some written := by
  rw [repeated, Entries.get?_insert, if_pos rfl]

theorem without_repeated {tag : Tag}
    (hplain : tag.attributes.get? job.settings.repeatAttribute = none) (written : String) :
    (tag.repeated job written).without job.settings.repeatAttribute = tag := by
  rw [repeated, without]
  dsimp only
  rw [Entries.erase_insert hplain]

end Tag

/-- An element that is repeated for one item gives way to itself, with field values filled in ahead,
if nothing in it is for the variable of the repeat. -/
theorem Forest.fst_expand_repeated (hfree : job.settings.maxIterations = none) {tag : Tag}
    {children : Forest} {written : String} {d : Directive} {item : Datum}
    (hplain : tag.attributes.get? job.settings.repeatAttribute = none)
    (hdirective : Directive.ofText? written = some d)
    (hlist : job.data.at? d.path = some (.list [item]))
    (hunused : ∀ s ∈ (element tag children .nil).contents, ∀ p ∈ placeholders s,
      ∀ rest, p.path ≠ d.variableName ++ "." ++ rest) :
    ((element (tag.repeated job written) children .nil).expand job).1 =
      (((element tag children .nil).fill job.unbound).expand job).1 := by
  have hitems : job.itemsOf written = [⟨d.variableName, item⟩] := by
    rw [Job.itemsOf_of_readable hdirective, Datum.itemsAt, hlist]
    rfl
  have hfill : (element tag children .nil).fill (job.sourceOf ⟨d.variableName, item⟩) =
      (element tag children .nil).fill job.unbound :=
    fill_congr rfl fun s hs p hp => Job.get?_sourceOf_eq_unbound (hunused s hs p hp)
  have hget : (tag.fill (job.sourceOf ⟨d.variableName, item⟩)).attributes.get?
      job.settings.repeatAttribute = none := by
    rw [Tag.get?_fill, hplain]
    rfl
  rw [← hfill, fill, expand_plain hfree hget,
    fst_expand_repeat hfree (tag.get?_repeated job written), hitems, Tag.without_repeated hplain]
  show (element _ _ nil ++ nil) ++ (nil.expand job).1 = element _ _ (nil.expand job).1
  rw [expand_nil]
  rfl

/-- A repeat over one item makes no difference if nothing in its element is for its variable: the
same letter is made of the element, and the same is decided about elements within it. Each bracket
of the element has to be one of a placeholder, no field value may have a bracket, and there may be
no ceiling. The repeat fills in field values before the conditions are decided and before the
repeats within it are expanded, so this must change nothing about them. -/
theorem Renderer.render_repeated_once (r : Renderer) {tag : Tag} {children : Forest}
    {written : String} {d : Directive} {values : Entries String} {data item : Datum}
    (hfree : r.settings.maxIterations = none)
    (hplain : tag.attributes.get? r.settings.repeatAttribute = none)
    (hdirective : Directive.ofText? written = some d)
    (hlist : data.at? d.path = some (.list [item]))
    (htidy : ∀ s ∈ (Forest.element tag children .nil).contents, Tidy s.toList)
    (hunused : ∀ s ∈ (Forest.element tag children .nil).contents, ∀ p ∈ placeholders s,
      ∀ rest, p.path ≠ d.variableName ++ "." ++ rest)
    (hvalues : ∀ e ∈ values.toList, BracketFree e.2.toList)
    (hsteady : (Forest.element tag children .nil).Steady (r.job values data)) :
    let job := r.job values data
    let alone := r.render (.element tag children .nil) values data
    let repeated := r.render (.element (tag.repeated job written) children .nil) values data
    repeated.document = alone.document ∧
      repeated.report.conditionsEvaluated = alone.report.conditionsEvaluated ∧
      repeated.report.conditionsRemoved = alone.report.conditionsRemoved := by
  intro job alone repeated
  have hexpand : ((Forest.element (tag.repeated job written) children .nil).expand job).1 =
      (((Forest.element tag children .nil).fill job.unbound).expand job).1 :=
    Forest.fst_expand_repeated hfree hplain hdirective hlist hunused
  have hsame : Forest.SameLetter job
      ((Forest.element (tag.repeated job written) children .nil).expand job).1
      ((Forest.element tag children .nil).expand job).1 := by
    rw [hexpand]
    exact Forest.sameLetter_expand_fill hfree hvalues htidy hsteady
  have hempty : ({ memo := .empty } : VisibilityTally).memo.Faithful := Memo.faithful_empty
  refine ⟨?_, ?_, ?_⟩
  · show Forest.fill _ _ = Forest.fill _ _
    rw [Forest.fst_selectVisible _ hempty, Forest.fst_selectVisible _ hempty]
    exact hsame.fill_dropWhere
  · exact congrArg shownCount (Nat.add_right_cancel (hsame.count_selectVisible job.counts_evaluated
      (fun _ _ _ hcondition => hcondition) hempty hempty))
  · exact congrArg shownCount (Nat.add_right_cancel (hsame.count_selectVisible job.counts_removed
      (fun _ _ hhides _ => hhides) hempty hempty))

end

/-! ## A list within an element

An element with a condition and a list of lines, and a field value that one text asks for. -/

namespace RepeatedOnce

def values : Entries String := .ofList [("a", "V")]

def data : Datum :=
  .record [("b", .bool true), ("ws", .list [.record [("n", .text "N")]]), ("xs", .list [.null])]

def job : Job := Renderer.default.job values data

def line : Tag := ⟨"li", .ofList [("data-repeat", "w in Model.ws")]⟩

def tag : Tag := ⟨"ul", .ofList [("data-if", "Model.b")]⟩

def children : Forest :=
  .text "[[a]] [[c]]" (.element line (.text "[[w.n]] [[c]]" .nil) .nil)

theorem unused : ∀ s ∈ (Forest.element tag children .nil).contents, ∀ p ∈ placeholders s,
    ∀ rest, p.path ≠ "v" ++ "." ++ rest := by
  have hnone : ∀ s ∈ (Forest.element tag children .nil).contents, ∀ p ∈ placeholders s,
      (Binding.mk "v" .null).pathWithin? p.path = none := by decide +kernel
  intro s hs p hp rest hrest
  rw [← @Binding.pathWithin?_eq_some_iff ⟨"v", .null⟩, hnone s hs p hp] at hrest
  cases hrest

theorem steady : (Forest.element tag children .nil).Steady job := by
  have hnone : ∀ s ∈ (Forest.element (line.without "data-repeat") (.text "[[w.n]] [[c]]" .nil)
      .nil).contents, ∀ p ∈ placeholders s, job.unbound.get? p.path = none := by decide +kernel
  have hrepeat : job.RepeatsAlike "w in Model.ws"
      (.element (line.without "data-repeat") (.text "[[w.n]] [[c]]" .nil) .nil) :=
    ⟨by with_unfolding_all rfl, fun _ _ s hs p hp _ _ => hnone s hs p hp⟩
  exact ⟨⟨by decide +kernel, fun _ => ⟨hrepeat, trivial⟩⟩, trivial⟩

end RepeatedOnce

open RepeatedOnce in
/-- The list is the same whether it is repeated once or not at all. -/
theorem render_repeated_once_list :
    let alone := Renderer.default.render (.element tag children .nil) values data
    let repeated := Renderer.default.render
      (.element (tag.repeated job "v in Model.xs") children .nil) values data
    repeated.document = alone.document ∧
      repeated.report.conditionsEvaluated = alone.report.conditionsEvaluated ∧
      repeated.report.conditionsRemoved = alone.report.conditionsRemoved := by
  have htidy : ∀ s ∈ (Forest.element tag children .nil).contents, Tidy s.toList := by
    decide +kernel
  have hvalues : ∀ e ∈ values.toList, BracketFree e.2.toList := by decide +kernel
  have hdirective : Directive.ofText? "v in Model.xs" = some ⟨"v", "xs"⟩ := by decide +kernel
  have hlist : data.at? "xs" = some (.list [.null]) := rfl
  exact Renderer.default.render_repeated_once rfl rfl hdirective hlist htidy unused hvalues steady

/-- A repeat fills in its copy before anything else is done with it. So a condition that asks for a
field value holds in the copy and does not hold without the repeat. A repeat within whose directive
has a field in it is expanded in the copy and cannot be read without the repeat. And one that can be
read finds the field value for its variable in the place where its item should stand. -/
theorem render_repeated_once_fails :
    let values : Entries String := .ofList [("a", "x"), ("w.n", "V")]
    let data : Datum :=
      .record [("ws", .list [.record [("n", .text "N")]]), ("xs", .list [.null])]
    let job := Renderer.default.job values data
    let asked : Tag := ⟨"p", .ofList [("data-if", "'[[a]]' == 'x'")]⟩
    let named : Forest :=
      .element ⟨"li", .ofList [("data-repeat", "w in Model.[[a]]s")]⟩ (.text "t" .nil) .nil
    let line : Forest :=
      .element ⟨"li", .ofList [("data-repeat", "w in Model.ws")]⟩ (.text "[[w.n]]" .nil) .nil
    let plain : Tag := ⟨"ul", .empty⟩
    let render (tag : Tag) (children : Forest) :=
      Renderer.default.render (.element tag children .nil) values data
    let repeated (tag : Tag) (children : Forest) :=
      render (tag.repeated job "v in Model.xs") children
    (∀ s ∈ (Forest.element asked (.text "t" .nil)
          (.element plain named (.element plain line .nil))).contents,
        Tidy s.toList ∧ ∀ p ∈ placeholders s, (Binding.mk "v" .null).pathWithin? p.path = none) ∧
      (∀ e ∈ values.toList, BracketFree e.2.toList) ∧ (∀ s ∈ data.texts, BracketFree s.toList) ∧
      data.at? "xs" = some (.list [.null]) ∧
      (render asked (.text "t" .nil)).document = .nil ∧
      (render asked (.text "t" .nil)).report.conditionsRemoved = 1 ∧
      (repeated asked (.text "t" .nil)).document =
        .element ⟨"p", .empty⟩ (.text "t" .nil) .nil ∧
      (repeated asked (.text "t" .nil)).report.conditionsRemoved = 0 ∧
      (render plain named).document = .element plain .nil .nil ∧
      (repeated plain named).document =
        .element plain (.element ⟨"li", .empty⟩ (.text "t" .nil) .nil) .nil ∧
      (render plain line).document =
        .element plain (.element ⟨"li", .empty⟩ (.text "N" .nil) .nil) .nil ∧
      (repeated plain line).document =
        .element plain (.element ⟨"li", .empty⟩ (.text "V" .nil) .nil) .nil := by
  refine ⟨?_, ?_, ?_, rfl, ?_, ?_, ?_, ?_, ?_, ?_, ?_, ?_⟩ <;> decide +kernel

end FormLetter
