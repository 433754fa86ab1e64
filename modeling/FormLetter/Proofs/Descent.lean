import FormLetter.Renderer
import FormLetter.Proofs.Occurrence

/-!
# What the nodes of a letter are made of

Every pass of rendering takes nodes away, copies them or fills values into them. Each node of a
letter is so a copy of a node of the document, within elements of the same names: a text is a text
of the document with values filled in, and an element is an element of the document with values
filled into its attributes, without its directives. No value makes an element or an attribute.

* `Label.CopyOf`: one node is such a copy of another.
* `Forest.CopiesOf`: every node of one document is a copy of a node of another one.
* `Forest.copiesOf_expandNext?`: a round of expansion makes copies. `Forest.copiesOf_expand`: so
  do all rounds.
* `Forest.copiesOf_selectVisible`, `Forest.copiesOf_fill`: so do the other passes.
* `Renderer.occurrences_renderWith`: so every node of a letter is a copy of one of the document, and
  no directive is left.
-/

namespace FormLetter

/-! ## Copies of nodes -/

/-- Fills the values of several sources into a text, one source after the other. -/
def FieldSource.fillInTurn (sources : List FieldSource) (s : String) : String :=
  sources.foldl (fun s source => source.fill false s) s

namespace Tag

/-- Fills the values of several sources into all attributes, one source after the other. -/
def fillInTurn (sources : List FieldSource) (tag : Tag) : Tag :=
  sources.foldl (fun tag source => tag.fill source) tag

/-- The tag without its directives. -/
def plain (settings : Settings) (tag : Tag) : Tag :=
  (tag.without settings.conditionAttribute).without settings.repeatAttribute

theorem without_fill (source : FieldSource) (tag : Tag) (name : String) :
    (tag.fill source).without name = (tag.without name).fill source := by
  unfold without fill
  congr 1
  apply Entries.ext
  show List.filter _ (List.map _ _) = List.map _ (List.filter _ _)
  rw [List.filter_map]
  rfl

theorem without_comm (tag : Tag) (name other : String) :
    (tag.without name).without other = (tag.without other).without name := by
  unfold without
  congr 1
  apply Entries.ext
  show List.filter _ (List.filter _ _) = List.filter _ (List.filter _ _)
  rw [List.filter_filter, List.filter_filter]
  exact List.filter_congr fun a _ => Bool.and_comm _ _

theorem without_self (tag : Tag) (name : String) :
    (tag.without name).without name = tag.without name := by
  unfold without
  congr 1
  apply Entries.ext
  show List.filter _ (List.filter _ _) = List.filter _ _
  rw [List.filter_filter]
  simp only [Bool.and_self]

theorem without_eq_self {tag : Tag} {name : String} (h : tag.attributes.contains name = false) :
    tag.without name = tag := by
  unfold without
  congr 1
  apply Entries.ext
  refine List.filter_eq_self.2 fun a ha => ?_
  have hmem : a.1 ∈ tag.attributes.names := List.mem_map_of_mem ha
  rw [bne_iff_ne]
  intro heq
  rw [heq, ← Entries.contains_iff_mem_names, h] at hmem
  exact Bool.false_ne_true hmem

theorem names_without (tag : Tag) (name : String) :
    (tag.without name).attributes.names = tag.attributes.names.filter (· != name) := by
  show List.map Prod.fst (List.filter _ _) = List.filter _ (List.map _ _)
  rw [List.filter_map]
  rfl

variable (settings : Settings)

theorem plain_fill (source : FieldSource) (tag : Tag) :
    (tag.fill source).plain settings = (tag.plain settings).fill source := by
  rw [plain, without_fill, without_fill, ← plain]

theorem plain_without_condition (tag : Tag) :
    (tag.without settings.conditionAttribute).plain settings = tag.plain settings := by
  rw [plain, without_self, ← plain]

theorem plain_without_repeat (tag : Tag) :
    (tag.without settings.repeatAttribute).plain settings = tag.plain settings := by
  rw [plain, without_comm tag, without_self, ← plain]

theorem name_and_names_fillInTurn (sources : List FieldSource) (tag : Tag) :
    (tag.fillInTurn sources).name = tag.name ∧
      (tag.fillInTurn sources).attributes.names = tag.attributes.names := by
  induction sources generalizing tag with
  | nil => exact ⟨rfl, rfl⟩
  | cons source sources ih =>
    obtain ⟨hname, hnames⟩ := ih (tag.fill source)
    exact ⟨hname, hnames.trans (names_fill source tag)⟩

end Tag

/-- One node is a copy of another: a text with values filled in, or an element with values filled
into its attributes, where directives do not matter. -/
inductive Label.CopyOf (settings : Settings) : Label → Label → Prop where
  | text (sources : List FieldSource) (content : String) :
    CopyOf settings (.text (FieldSource.fillInTurn sources content)) (.text content)
  | element {copy original : Tag} (sources : List FieldSource)
    (h : copy.plain settings = (original.plain settings).fillInTurn sources) :
    CopyOf settings (.element copy) (.element original)

/-- One node is a copy of another, within elements of the same names. -/
structure Occurrence.CopyOf (settings : Settings) (o original : Occurrence) : Prop where
  around : o.around.map Tag.name = original.around.map Tag.name
  label : o.label.CopyOf settings original.label

namespace Label.CopyOf

variable {settings : Settings} {label label' label'' : Label}

theorem refl (label : Label) : label.CopyOf settings label := by
  cases label with
  | text content => exact .text [] content
  | element tag => exact .element [] rfl

theorem trans (h : label.CopyOf settings label') (h' : label'.CopyOf settings label'') :
    label.CopyOf settings label'' := by
  cases h' with
  | text sources content =>
    cases h with
    | text more _ =>
      have happend : FieldSource.fillInTurn more (FieldSource.fillInTurn sources content) =
          FieldSource.fillInTurn (sources ++ more) content := by
        rw [FieldSource.fillInTurn, FieldSource.fillInTurn, FieldSource.fillInTurn,
          List.foldl_append]
      rw [happend]
      exact .text _ _
  | @element copy original sources heq =>
    cases h with
    | element more hmore =>
      refine .element (sources ++ more) ?_
      rw [hmore, heq, Tag.fillInTurn, Tag.fillInTurn, Tag.fillInTurn, List.foldl_append]

theorem name_eq {tag original : Tag} (h : (Label.element tag).CopyOf settings (.element original)) :
    tag.name = original.name := by
  cases h with
  | element sources heq =>
    have hname := (Tag.name_and_names_fillInTurn sources (original.plain settings)).1
    rw [← heq] at hname
    exact hname

end Label.CopyOf

/-! ## Copies of documents -/

namespace Forest

/-- Every node of one document is a copy of a node of another one, within elements of the same
names. -/
def CopiesOf (settings : Settings) (g f : Forest) : Prop :=
  ∀ around around' : List Tag, around.map Tag.name = around'.map Tag.name →
    ∀ o ∈ g.occurrencesWithin around, ∃ original ∈ f.occurrencesWithin around',
      o.CopyOf settings original

namespace CopiesOf

variable {settings : Settings} {f f' f'' g g' : Forest}

theorem nil (f : Forest) : Forest.nil.CopiesOf settings f := by
  intro around around' haround o ho
  cases ho

theorem text {label label' : String} (h : (Label.text label).CopyOf settings (.text label'))
    (hnext : f.CopiesOf settings f') :
    (Forest.text label f).CopiesOf settings (.text label' f') := by
  intro around around' haround o ho
  rcases List.mem_cons.1 ho with rfl | ho
  · exact ⟨_, .head _, haround, h⟩
  · obtain ⟨original, hmem, hcopy⟩ := hnext around around' haround o ho
    exact ⟨original, .tail _ hmem, hcopy⟩

theorem element {tag tag' : Tag} (h : (Label.element tag).CopyOf settings (.element tag'))
    (hchildren : f.CopiesOf settings f') (hnext : g.CopiesOf settings g') :
    (Forest.element tag f g).CopiesOf settings (.element tag' f' g') := by
  intro around around' haround o ho
  rcases List.mem_cons.1 ho with rfl | ho
  · exact ⟨_, .head _, haround, h⟩
  · rcases List.mem_append.1 ho with ho | ho
    · have hwithin : (around ++ [tag]).map Tag.name = (around' ++ [tag']).map Tag.name := by
        rw [List.map_append, List.map_append, haround, List.map_singleton, List.map_singleton,
          h.name_eq]
      obtain ⟨original, hmem, hcopy⟩ := hchildren _ _ hwithin o ho
      exact ⟨original, .tail _ (List.mem_append_left _ hmem), hcopy⟩
    · obtain ⟨original, hmem, hcopy⟩ := hnext around around' haround o ho
      exact ⟨original, .tail _ (List.mem_append_right _ hmem), hcopy⟩

theorem refl (f : Forest) : f.CopiesOf settings f := by
  induction f with
  | nil => exact nil _
  | text content next ih => exact text (.refl _) ih
  | element tag children next ihc ihn => exact element (.refl _) ihc ihn

theorem trans (h : f.CopiesOf settings f') (h' : f'.CopiesOf settings f'') :
    f.CopiesOf settings f'' := by
  intro around around' haround o ho
  obtain ⟨middle, hmiddle, hcopy⟩ := h around around' haround o ho
  obtain ⟨original, hmem, hcopy'⟩ := h' around' around' rfl middle hmiddle
  exact ⟨original, hmem, hcopy.around.trans hcopy'.around, hcopy.label.trans hcopy'.label⟩

theorem append (h : f.CopiesOf settings f'') (h' : f'.CopiesOf settings f'') :
    (f ++ f').CopiesOf settings f'' := by
  intro around around' haround o ho
  rw [occurrencesWithin_append] at ho
  rcases List.mem_append.1 ho with ho | ho
  · exact h around around' haround o ho
  · exact h' around around' haround o ho

theorem join {forests : List Forest} (h : ∀ g ∈ forests, g.CopiesOf settings f) :
    (Forest.join forests).CopiesOf settings f := by
  induction forests with
  | nil => exact nil f
  | cons g forests ih =>
    have hothers := ih fun g' hg' => h g' (.tail _ hg')
    exact (h g (.head _)).append hothers

/-- What stands behind an element stands there still when the element is gone. -/
theorem behind (tag : Tag) (children next : Forest) :
    next.CopiesOf settings (.element tag children next) := by
  intro around around' haround o ho
  obtain ⟨original, hmem, hcopy⟩ := refl next around around' haround o ho
  exact ⟨original, .tail _ (List.mem_append_right _ hmem), hcopy⟩

end CopiesOf

/-! ## Passes -/

theorem copiesOf_fill (settings : Settings) (source : FieldSource) (f : Forest) :
    (f.fill source).CopiesOf settings f := by
  induction f with
  | nil => exact .nil _
  | text content next ih => exact .text (.text [source] content) ih
  | element tag children next ihc ihn =>
    exact .element (.element [source] (tag.plain_fill settings source)) ihc ihn

variable {job : Job}

theorem copiesOf_unroll (directive : String) (template : Forest) (tally : ExpansionTally) :
    (job.unroll directive template tally).1.CopiesOf job.settings template := by
  cases hd : Directive.ofText? directive with
  | none =>
    rw [job.unroll_of_unreadable hd]
    exact .nil template
  | some d =>
    cases hlist : (job.data.at? d.path).bind Datum.items? with
    | none =>
      rw [job.unroll_of_no_list hd hlist]
      exact .nil template
    | some items =>
      rw [job.unroll_of_list hd hlist]
      split
      · exact .nil template
      · refine CopiesOf.join fun g hg => ?_
        obtain ⟨item, -, rfl⟩ := List.mem_map.1 hg
        exact copiesOf_fill _ _ template

/-- A round of expansion makes copies. -/
theorem copiesOf_expandNext? {tally tally' : ExpansionTally} {f g : Forest}
    (h : f.expandNext? job tally = some (g, tally')) : g.CopiesOf job.settings f := by
  rw [expandNext?_eq_some_iff] at h
  induction h with
  | @unroll tag directive hdirective children next =>
    -- The template is the element without its directive and without what stands behind it.
    have htemplate : (element (tag.without job.settings.repeatAttribute) children nil).CopiesOf
        job.settings (element tag children next) :=
      .element (.element [] (tag.plain_without_repeat job.settings)) (.refl _) (.nil _)
    exact ((copiesOf_unroll directive _ tally).trans htemplate).append (.behind tag children next)
  | text content round ih => exact .text (.refl _) ih
  | children hplain round next ih => exact .element (.refl _) ih (.refl _)
  | next hplain hchildren round ih => exact .element (.refl _) (.refl _) ih

/-- So do all rounds. -/
theorem copiesOf_expand (job : Job) (f : Forest) : (f.expand job).1.CopiesOf job.settings f :=
  expandRounds_induction (fun g _ => g.CopiesOf job.settings f)
    (fun h hnext => (copiesOf_expandNext? hnext).trans h) _ (.refl f)

/-- Deciding about elements makes copies, whatever conditions were read before. -/
theorem copiesOf_selectVisible (job : Job) (f : Forest) (tally : VisibilityTally) :
    (f.selectVisible job tally).1.CopiesOf job.settings f := by
  induction f generalizing tally with
  | nil => exact .nil _
  | text content next ih => exact .text (.refl _) (ih tally)
  | element tag children next ihc ihn =>
    rw [selectVisible]
    rcases job.judgeTag tag tally with ⟨_ | _, tally'⟩
    · exact (ihn tally').trans (.behind tag children next)
    · exact .element (.element [] (tag.plain_without_condition job.settings)) (ihc tally') (ihn _)

/-! ## Directives -/

theorem hasAttribute_fill (name : String) (source : FieldSource) (f : Forest) :
    (f.fill source).hasAttribute name = f.hasAttribute name := by
  induction f with
  | nil => rfl
  | text content next ih => exact ih
  | element tag children next ihc ihn =>
    rw [fill, hasAttribute, hasAttribute, ihc, ihn, Tag.fill, Entries.contains_mapValues]

/-- An attribute that no element has, or that is the one for conditions, is on none of the elements
that stay. -/
theorem hasAttribute_selectVisible (job : Job) {name : String} {f : Forest}
    (h : name = job.settings.conditionAttribute ∨ f.hasAttribute name = false)
    (tally : VisibilityTally) : (f.selectVisible job tally).1.hasAttribute name = false := by
  induction f generalizing tally with
  | nil => rfl
  | text content next ih => exact ih h tally
  | element tag children next ihc ihn =>
    simp only [hasAttribute, Bool.or_eq_false_iff] at h
    have hchildren := ihc (h.imp_right fun h => h.1.2)
    have hnext := ihn (h.imp_right fun h => h.2)
    have htag : (tag.without job.settings.conditionAttribute).attributes.contains name = false := by
      rw [Tag.without, Entries.contains_erase]
      rcases h with h | h
      · simp [h]
      · simp [h.1.1]
    rw [selectVisible]
    rcases job.judgeTag tag tally with ⟨_ | _, tally'⟩
    · exact hnext tally'
    · dsimp only
      rw [hasAttribute, htag, hchildren, hnext]
      rfl

theorem contains_eq_false_of_mem {name : String} {f : Forest} (h : f.hasAttribute name = false)
    {around : List Tag} {o : Occurrence} (ho : o ∈ f.occurrencesWithin around) {tag : Tag}
    (htag : o.label = .element tag) : tag.attributes.contains name = false := by
  induction f generalizing around with
  | nil => cases ho
  | text content next ih =>
    rcases List.mem_cons.1 ho with rfl | ho
    · cases htag
    · exact ih h ho
  | element tag' children next ihc ihn =>
    simp only [hasAttribute, Bool.or_eq_false_iff] at h
    rcases List.mem_cons.1 ho with rfl | ho
    · cases htag
      exact h.1.1
    · rcases List.mem_append.1 ho with ho | ho
      · exact ihc h.1.2 ho
      · exact ihn h.2 ho

end Forest

/-! ## Letters -/

/-- The names of a tag without its directives. -/
theorem Tag.names_plain (settings : Settings) (tag : Tag) :
    (tag.plain settings).attributes.names = tag.attributes.names.filter fun name =>
      name != settings.conditionAttribute && name != settings.repeatAttribute := by
  rw [plain, names_without, names_without, List.filter_filter]
  exact List.filter_congr fun name _ => Bool.and_comm _ _

/-- No element of a letter has a directive. Each node of it stands within elements of the same
names as some node of the document: a text where that is a text, with values filled in, and an
element where that is an element of the same name with the same attributes but for the directives,
with values filled into them. -/
theorem Renderer.occurrences_renderWith (r : Renderer) (memo : Memo) (document : Forest)
    (values : Entries String) (data : Datum) :
    let letter := (r.renderWith memo document values data).1.document
    letter.hasAttribute r.settings.conditionAttribute = false ∧
      letter.hasAttribute r.settings.repeatAttribute = false ∧
      ∀ o ∈ letter.occurrences, ∃ original ∈ document.occurrences,
        o.around.map Tag.name = original.around.map Tag.name ∧
          ((∃ content sources, original.label = .text content ∧
              o.label = .text (FieldSource.fillInTurn sources content)) ∨
            ∃ tag copy, original.label = .element tag ∧ o.label = .element copy ∧
              copy.name = tag.name ∧
              copy.attributes.names = tag.attributes.names.filter (fun name =>
                name != r.settings.conditionAttribute && name != r.settings.repeatAttribute) ∧
              ∃ sources, copy = (tag.plain r.settings).fillInTurn sources) := by
  intro letter
  let job := r.job values data
  have hcondition : letter.hasAttribute r.settings.conditionAttribute = false := by
    show Forest.hasAttribute _ (Forest.fill _ _) = false
    rw [Forest.hasAttribute_fill]
    exact Forest.hasAttribute_selectVisible job (.inl rfl) _
  have hrepeat : letter.hasAttribute r.settings.repeatAttribute = false := by
    show Forest.hasAttribute _ (Forest.fill _ _) = false
    rw [Forest.hasAttribute_fill]
    exact Forest.hasAttribute_selectVisible job (.inr (Forest.hasAttribute_expand job document)) _
  have hcopies : letter.CopiesOf r.settings document :=
    ((Forest.copiesOf_fill r.settings _ _).trans (Forest.copiesOf_selectVisible job _ _)).trans
      (Forest.copiesOf_expand job document)
  refine ⟨hcondition, hrepeat, fun o ho => ?_⟩
  obtain ⟨original, hmem, haround, hlabel⟩ := hcopies [] [] rfl o ho
  refine ⟨original, hmem, haround, ?_⟩
  rcases o with ⟨around, label⟩
  rcases original with ⟨around', label'⟩
  cases hlabel with
  | text sources content => exact .inl ⟨content, sources, rfl, rfl⟩
  | @element copy tag sources heq =>
    -- Without directives nothing is left out of the copy.
    have hplain : copy.plain r.settings = copy := by
      rw [Tag.plain, Tag.without_eq_self (Forest.contains_eq_false_of_mem hcondition ho rfl),
        Tag.without_eq_self (Forest.contains_eq_false_of_mem hrepeat ho rfl)]
    rw [hplain] at heq
    obtain ⟨hname, hnames⟩ := Tag.name_and_names_fillInTurn sources (tag.plain r.settings)
    rw [← heq] at hname hnames
    exact .inr ⟨tag, copy, rfl, rfl, hname, hnames.trans (tag.names_plain r.settings), sources, heq⟩

end FormLetter
