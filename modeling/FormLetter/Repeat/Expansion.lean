import FormLetter.Document.Filling
import FormLetter.Document.Job
import FormLetter.Repeat.Directive

/-!
# Expanding repeats

An element with a repeat directive gives way to one copy for each item of its list. In a copy the
directive is gone and fields are filled in, those of the variable from the item. Copies keep the
directives of the elements within them, so expansion goes round by round: each round expands the
first element in document order that has a directive, and there are rounds until none has.

* `Forest.expandNext?_eq_none_iff`: a round finds something unless no element has a directive.
  `Forest.expandNext?_eq_some_iff`: what it then does, case by case.
* `Forest.expandRounds_induction`: what every round keeps, all rounds keep.
* `Forest.pendingRounds` bounds the number of rounds: it counts the directives, each as often as
  the repeats around it can copy it. `Forest.pendingRounds_expandNext?_lt`: every round lowers it.
* `Forest.hasAttribute_expand`: so expansion leaves no directive.
-/

namespace FormLetter

/-- What expansion has done so far. -/
structure ExpansionTally where
  /-- Directives whose list was found. -/
  expanded : Nat := 0
  /-- Copies made. -/
  iterations : Nat := 0
  /-- Directives that could not be read. -/
  unsupported : Nat := 0
  /-- Placeholders filled in while copying. -/
  replaced : Nat := 0
  /-- Whether a repeat was dropped because it would have made too many copies. -/
  limitReached : Bool := false
  deriving DecidableEq

/-! ## Copies -/

namespace Job

/-- Where the fields of a copy come from. Values put into a condition are escaped, so that they
stay within the quotes around them. -/
def copySource (job : Job) (variableName : String) (item : Datum) : FieldSource :=
  ⟨job.values, some ⟨variableName, item⟩, some job.settings.conditionAttribute⟩

/-- The copies of a template, one for each item. -/
def copies (job : Job) (variableName : String) (items : List Datum) (template : Forest) : Forest :=
  Forest.join (items.map fun item => template.fill (job.copySource variableName item))

/-- The number of placeholders filled in by making the copies of a template. -/
def countCopied (job : Job) (variableName : String) (items : List Datum) (template : Forest) :
    Nat :=
  total (items.map fun item => template.countFilled (job.copySource variableName item))

/-- Whether a number of further copies would be too many. -/
def exceeds (job : Job) (tally : ExpansionTally) (more : Nat) : Bool :=
  match job.settings.maxIterations with
  | some most => decide (most < shownCount (tally.iterations + more))
  | none => false

/-- What stands in the place of a template, given the text of its directive. -/
def unroll (job : Job) (directive : String) (template : Forest) (tally : ExpansionTally) :
    Forest × ExpansionTally :=
  let failed := repeatPolicy.apply .nil template
  match Directive.ofText? directive with
  | none => (failed, { tally with unsupported := tally.unsupported + 1 })
  | some d =>
    match (job.data.at? d.path).bind Datum.items? with
    | none => (failed, tally)
    | some items =>
      if job.exceeds tally items.length then (failed, { tally with limitReached := true })
      else
        (job.copies d.variableName items template,
          { tally with
            expanded := tally.expanded + 1
            iterations := tally.iterations + items.length
            replaced := tally.replaced + job.countCopied d.variableName items template })

/-- A directive that cannot be read makes nothing of its template. -/
theorem unroll_of_unreadable (job : Job) {directive : String}
    (h : Directive.ofText? directive = none) (template : Forest) (tally : ExpansionTally) :
    job.unroll directive template tally =
      (.nil, { tally with unsupported := tally.unsupported + 1 }) := by
  rw [unroll, h]
  rfl

/-- Nor does one whose path names no list. -/
theorem unroll_of_no_list (job : Job) {directive : String} {d : Directive}
    (h : Directive.ofText? directive = some d)
    (hlist : (job.data.at? d.path).bind Datum.items? = none) (template : Forest)
    (tally : ExpansionTally) : job.unroll directive template tally = (.nil, tally) := by
  simp only [unroll, h, hlist]
  rfl

/-- One whose path names a list makes a copy for each item, unless these are too many. -/
theorem unroll_of_list (job : Job) {directive : String} {d : Directive} {items : List Datum}
    (h : Directive.ofText? directive = some d)
    (hlist : (job.data.at? d.path).bind Datum.items? = some items) (template : Forest)
    (tally : ExpansionTally) :
    job.unroll directive template tally =
      if job.exceeds tally items.length then (.nil, { tally with limitReached := true })
      else
        (job.copies d.variableName items template,
          { tally with
            expanded := tally.expanded + 1
            iterations := tally.iterations + items.length
            replaced := tally.replaced + job.countCopied d.variableName items template }) := by
  simp only [unroll, h, hlist]
  rfl

end Job

/-! ## Rounds -/

namespace Forest

/-- One round: expands the first element in document order that has a repeat directive. -/
def expandNext? (job : Job) (tally : ExpansionTally) : Forest → Option (Forest × ExpansionTally)
  | .nil => none
  | .text content next =>
    (next.expandNext? job tally).map fun (next, tally) => (.text content next, tally)
  | .element tag children next =>
    match tag.attributes.get? job.settings.repeatAttribute with
    | some directive =>
      let template := element (tag.without job.settings.repeatAttribute) children .nil
      let (unrolled, tally) := job.unroll directive template tally
      some (unrolled ++ next, tally)
    | none =>
      match children.expandNext? job tally with
      | some (children, tally) => some (.element tag children next, tally)
      | none =>
        (next.expandNext? job tally).map fun (next, tally) => (.element tag children next, tally)

theorem expandNext?_of_directive (job : Job) (tally : ExpansionTally) {tag : Tag}
    {directive : String} (h : tag.attributes.get? job.settings.repeatAttribute = some directive)
    (children next : Forest) :
    (element tag children next).expandNext? job tally =
      let template := element (tag.without job.settings.repeatAttribute) children .nil
      some ((job.unroll directive template tally).1 ++ next,
        (job.unroll directive template tally).2) := by
  rw [expandNext?, h]

theorem expandNext?_of_no_directive (job : Job) (tally : ExpansionTally) {tag : Tag}
    (h : tag.attributes.get? job.settings.repeatAttribute = none) (children next : Forest) :
    (element tag children next).expandNext? job tally =
      match children.expandNext? job tally with
      | some (children, tally) => some (.element tag children next, tally)
      | none =>
        (next.expandNext? job tally).map fun (next, tally) => (.element tag children next, tally) := by
  rw [expandNext?, h]

/-- Goes on for a number of rounds, or until a round finds nothing. -/
def expandRounds (job : Job) : Nat → Forest → ExpansionTally → Forest × ExpansionTally
  | 0, f, tally => (f, tally)
  | rounds + 1, f, tally =>
    match f.expandNext? job tally with
    | none => (f, tally)
    | some (f, tally) => expandRounds job rounds f tally

/-- How many rounds a forest can need if no list has more than `most` items: each directive takes
a round, and those within its element take theirs in each copy. -/
def pendingRounds (repeatAttribute : String) (most : Nat) : Forest → Nat
  | .nil => 0
  | .text _ next => next.pendingRounds repeatAttribute most
  | .element tag children next =>
    let within := children.pendingRounds repeatAttribute most
    (if tag.attributes.contains repeatAttribute then 1 + most * within else within) +
      next.pendingRounds repeatAttribute most

/-- Expands all repeats of a document. -/
def expand (job : Job) (f : Forest) : Forest × ExpansionTally :=
  let most := job.data.longestList
  expandRounds job (f.pendingRounds job.settings.repeatAttribute most) f {}

/-- Whether any element of a forest has an attribute. -/
def hasAttribute (name : String) : Forest → Bool
  | .nil => false
  | .text _ next => next.hasAttribute name
  | .element tag children next =>
    tag.attributes.contains name || children.hasAttribute name || next.hasAttribute name

/-- A round finds something unless no element has a directive. -/
theorem expandNext?_eq_none_iff {job : Job} {tally : ExpansionTally} {f : Forest} :
    f.expandNext? job tally = none ↔ f.hasAttribute job.settings.repeatAttribute = false := by
  induction f with
  | nil => simp [expandNext?, hasAttribute]
  | text s next ih => simp [expandNext?, hasAttribute, ih]
  | element tag cs next ihc ihn =>
    rw [expandNext?, hasAttribute, Entries.contains]
    cases tag.attributes.get? job.settings.repeatAttribute with
    | some d => simp
    | none =>
      cases hc : cs.expandNext? job tally with
      | some r =>
        have : cs.hasAttribute job.settings.repeatAttribute = true := by
          rw [← Bool.not_eq_false, ← ihc, hc]
          simp
        simp [this]
      | none => simp [ihc.1 hc, ihn]

/-- What a round does: it puts something in the place of the first element in document order that
has a directive, and leaves all others as they are. -/
inductive Round (job : Job) (tally : ExpansionTally) : Forest → Forest → ExpansionTally → Prop where
  | unroll {tag : Tag} {directive : String}
      (hdirective : tag.attributes.get? job.settings.repeatAttribute = some directive)
      (children next : Forest) :
      Round job tally (.element tag children next)
        ((job.unroll directive (.element (tag.without job.settings.repeatAttribute) children .nil)
          tally).1 ++ next)
        (job.unroll directive (.element (tag.without job.settings.repeatAttribute) children .nil)
          tally).2
  | text (content : String) {next next' : Forest} {tally' : ExpansionTally}
      (round : Round job tally next next' tally') :
      Round job tally (.text content next) (.text content next') tally'
  | children {tag : Tag} (hplain : tag.attributes.get? job.settings.repeatAttribute = none)
      {children children' : Forest} {tally' : ExpansionTally}
      (round : Round job tally children children' tally') (next : Forest) :
      Round job tally (.element tag children next) (.element tag children' next) tally'
  | next {tag : Tag} (hplain : tag.attributes.get? job.settings.repeatAttribute = none)
      {children : Forest} (hchildren : children.hasAttribute job.settings.repeatAttribute = false)
      {next next' : Forest} {tally' : ExpansionTally} (round : Round job tally next next' tally') :
      Round job tally (.element tag children next) (.element tag children next') tally'

theorem Round.of_expandNext? {job : Job} {tally tally' : ExpansionTally} {f g : Forest}
    (h : f.expandNext? job tally = some (g, tally')) : Round job tally f g tally' := by
  induction f generalizing g tally' with
  | nil => cases h
  | text content next ih =>
    obtain ⟨⟨next', t⟩, hnext, he⟩ := Option.map_eq_some_iff.1 h
    cases he
    exact .text content (ih hnext)
  | element tag children next ihc ihn =>
    cases hdirective : tag.attributes.get? job.settings.repeatAttribute with
    | some directive =>
      rw [expandNext?_of_directive job tally hdirective] at h
      cases h
      exact .unroll hdirective children next
    | none =>
      rw [expandNext?_of_no_directive job tally hdirective] at h
      cases hchildren : children.expandNext? job tally with
      | some r =>
        obtain ⟨children', t⟩ := r
        rw [hchildren] at h
        cases h
        exact .children hdirective (ihc hchildren) next
      | none =>
        rw [hchildren] at h
        obtain ⟨⟨next', t⟩, hnext, he⟩ := Option.map_eq_some_iff.1 h
        cases he
        exact .next hdirective (expandNext?_eq_none_iff.1 hchildren) (ihn hnext)

theorem Round.expandNext? {job : Job} {tally tally' : ExpansionTally} {f g : Forest}
    (h : Round job tally f g tally') : f.expandNext? job tally = some (g, tally') := by
  induction h with
  | unroll hdirective children next => exact expandNext?_of_directive job tally hdirective _ _
  | text content round ih =>
    rw [Forest.expandNext?, ih]
    rfl
  | children hplain round next ih => rw [expandNext?_of_no_directive job tally hplain, ih]
  | next hplain hchildren round ih =>
    rw [expandNext?_of_no_directive job tally hplain, expandNext?_eq_none_iff.2 hchildren, ih]
    rfl

/-- A round does what the relation says, and nothing else. -/
theorem expandNext?_eq_some_iff {job : Job} {tally tally' : ExpansionTally} {f g : Forest} :
    f.expandNext? job tally = some (g, tally') ↔ Round job tally f g tally' :=
  ⟨.of_expandNext?, Round.expandNext?⟩

theorem pendingRounds_append (name : String) (most : Nat) (f g : Forest) :
    (f ++ g).pendingRounds name most = f.pendingRounds name most + g.pendingRounds name most := by
  induction f with
  | nil => simp [pendingRounds]
  | text s next ih => exact ih
  | element tag cs next _ ih =>
    rw [element_append, pendingRounds, pendingRounds, ih, Nat.add_assoc]

theorem pendingRounds_fill (source : FieldSource) (name : String) (most : Nat) (f : Forest) :
    (f.fill source).pendingRounds name most = f.pendingRounds name most := by
  induction f with
  | nil => rfl
  | text s next ih => exact ih
  | element tag cs next ihc ihn =>
    rw [fill, pendingRounds, pendingRounds, ihc, ihn, Tag.fill, Entries.contains_mapValues]

theorem pendingRounds_join_fill (name : String) (most : Nat) (template : Forest)
    (sources : List FieldSource) :
    (join (sources.map template.fill)).pendingRounds name most =
      sources.length * template.pendingRounds name most := by
  induction sources with
  | nil => simp [join, pendingRounds]
  | cons source rest ih =>
    have h : join ((source :: rest).map template.fill) =
        template.fill source ++ join (rest.map template.fill) := rfl
    rw [h, pendingRounds_append, ih, pendingRounds_fill, List.length_cons, Nat.succ_mul,
      Nat.add_comm]

/-- What takes the place of an element needs at most as many rounds as copies of its children. -/
theorem pendingRounds_unroll_le (job : Job) (directive : String) (tag : Tag) (children : Forest)
    (tally : ExpansionTally) :
    (job.unroll directive (element (tag.without job.settings.repeatAttribute) children .nil)
        tally).1.pendingRounds job.settings.repeatAttribute job.data.longestList ≤
      job.data.longestList *
        children.pendingRounds job.settings.repeatAttribute job.data.longestList := by
  cases hd : Directive.ofText? directive with
  | none =>
    rw [job.unroll_of_unreadable hd]
    exact Nat.zero_le _
  | some d =>
    cases hlist : (job.data.at? d.path).bind Datum.items? with
    | none =>
      rw [job.unroll_of_no_list hd hlist]
      exact Nat.zero_le _
    | some items =>
      rw [job.unroll_of_list hd hlist]
      split
      · exact Nat.zero_le _
      · obtain ⟨found, hfound, hitems⟩ := Option.bind_eq_some_iff.1 hlist
        have hlength : items.length ≤ job.data.longestList :=
          Datum.length_at?_le (Datum.items?_eq_some_iff.1 hitems ▸ hfound)
        have hcopies : job.copies d.variableName items
            (element (tag.without job.settings.repeatAttribute) children .nil) =
            join ((items.map (job.copySource d.variableName)).map
              (element (tag.without job.settings.repeatAttribute) children .nil).fill) := by
          rw [List.map_map]
          rfl
        have hbare : (tag.without job.settings.repeatAttribute).attributes.contains
            job.settings.repeatAttribute = false := by
          rw [Tag.without, Entries.contains_erase, bne_self_eq_false, Bool.false_and]
        rw [hcopies, pendingRounds_join_fill, List.length_map, pendingRounds, hbare,
          if_neg Bool.false_ne_true]
        exact Nat.mul_le_mul_right _ hlength

/-- A round leaves fewer rounds to come. -/
theorem pendingRounds_expandNext?_lt {job : Job} {tally tally' : ExpansionTally} {f g : Forest}
    (h : f.expandNext? job tally = some (g, tally')) :
    g.pendingRounds job.settings.repeatAttribute job.data.longestList <
      f.pendingRounds job.settings.repeatAttribute job.data.longestList := by
  have hcontains : ∀ {tag : Tag}, tag.attributes.get? job.settings.repeatAttribute = none →
      tag.attributes.contains job.settings.repeatAttribute = false := by
    intro tag htag
    rw [Entries.contains, htag]
    rfl
  rw [expandNext?_eq_some_iff] at h
  induction h with
  | @unroll tag directive hdirective children next =>
    have hle := pendingRounds_unroll_le job directive tag children tally
    rw [pendingRounds, pendingRounds_append, Entries.contains, hdirective, Option.isSome_some,
      if_pos rfl]
    omega
  | text content round ih => exact ih
  | children hplain round next ih =>
    rw [pendingRounds, pendingRounds, hcontains hplain]
    exact Nat.add_lt_add_right ih _
  | next hplain hchildren round ih =>
    rw [pendingRounds, pendingRounds, hcontains hplain]
    exact Nat.add_lt_add_left ih _

/-- What every round keeps, all rounds keep. -/
theorem expandRounds_induction {job : Job} (keeps : Forest → ExpansionTally → Prop)
    (hround : ∀ {f tally g tally'}, keeps f tally → f.expandNext? job tally = some (g, tally') →
      keeps g tally')
    (rounds : Nat) {f : Forest} {tally : ExpansionTally} (h : keeps f tally) :
    keeps (expandRounds job rounds f tally).1 (expandRounds job rounds f tally).2 := by
  induction rounds generalizing f tally with
  | zero => exact h
  | succ rounds ih =>
    rw [expandRounds]
    cases hnext : f.expandNext? job tally with
    | none => exact h
    | some r => exact ih (hround h hnext)

theorem hasAttribute_expandRounds {job : Job} {rounds : Nat} {f : Forest} {tally : ExpansionTally}
    (h : f.pendingRounds job.settings.repeatAttribute job.data.longestList ≤ rounds) :
    (expandRounds job rounds f tally).1.hasAttribute job.settings.repeatAttribute = false := by
  induction rounds generalizing f tally with
  | zero =>
    cases hn : f.expandNext? job tally with
    | none => exact expandNext?_eq_none_iff.1 hn
    | some r =>
      have := pendingRounds_expandNext?_lt hn
      omega
  | succ rounds ih =>
    rw [expandRounds]
    split
    · rename_i hn
      exact expandNext?_eq_none_iff.1 hn
    · rename_i g tally' hn
      have := pendingRounds_expandNext?_lt hn
      exact ih (by omega)

/-- The rounds suffice: expansion leaves no directive. -/
theorem hasAttribute_expand (job : Job) (f : Forest) :
    (f.expand job).1.hasAttribute job.settings.repeatAttribute = false :=
  hasAttribute_expandRounds (Nat.le_refl _)

end Forest

end FormLetter
