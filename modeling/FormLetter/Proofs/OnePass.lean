import FormLetter.Repeat.Expansion

/-!
# Expansion in one pass

Expansion goes round by round and looks for the next directive from the root each time. What it
gives can be said without rounds: go through the document once, from left to right, and put the
copies of a template, expanded themselves, in its place before going on.

* `Forest.expandOnce` is that pass.
* `Forest.expandOnce_append`: siblings are expanded one after the other.
* `Forest.expandOnce_eq_of_expandNext?`: a round does not change what the pass gives.
* `Forest.expand_eq_expandOnce`: so the rounds together give the same document and the same tally.
-/

namespace FormLetter

/-! ## The pass -/

/-- Makes something of each element in turn, with a tally that goes from one to the next. -/
def inTurn {α β σ : Type} (make : α → σ → β × σ) : List α → σ → List β × σ
  | [], tally => ([], tally)
  | a :: rest, tally =>
    let (first, tally) := make a tally
    let (others, tally) := inTurn make rest tally
    (first :: others, tally)

/-- Making things in turn and changing each of them afterwards is making the changed things in
turn. -/
theorem inTurn_map {α β γ σ : Type} {make : α → σ → β × σ} {make' : α → σ → γ × σ} (change : β → γ)
    (h : ∀ a tally, make' a tally = (change (make a tally).1, (make a tally).2)) (as : List α)
    (tally : σ) :
    inTurn make' as tally = ((inTurn make as tally).1.map change, (inTurn make as tally).2) := by
  induction as generalizing tally with
  | nil => rfl
  | cons a as ih =>
    rw [inTurn, inTurn, h]
    dsimp only
    rw [ih]
    rfl

theorem snd_inTurn_append {α β σ : Type} {make : α → σ → β × σ} (as bs : List α) (tally : σ) :
    (inTurn make (as ++ bs) tally).2 = (inTurn make bs (inTurn make as tally).2).2 := by
  induction as generalizing tally with
  | nil => rfl
  | cons a as ih => exact ih _

theorem mem_inTurn {α β σ : Type} {make : α → σ → β × σ} {as : List α} {tally : σ} {x : β}
    (h : x ∈ (inTurn make as tally).1) : ∃ a ∈ as, ∃ tally', x = (make a tally').1 := by
  induction as generalizing tally with
  | nil => cases h
  | cons a as ih =>
    rcases List.mem_cons.1 h with rfl | h
    · exact ⟨a, .head _, tally, rfl⟩
    · obtain ⟨a', ha', tally', rfl⟩ := ih h
      exact ⟨a', .tail _ ha', tally', rfl⟩

namespace Job

/-- Where the fields of the copy for a bound item come from. -/
def sourceOf (job : Job) (b : Binding) : FieldSource := job.copySource b.name b.item

/-- The items for which copies of a template are made, each bound to the variable, and the tally
with these copies in it. There are none if the directive cannot be read, if its path names no list,
or if the copies would be too many. -/
def bindings (job : Job) (directive : String) (template : Forest) (tally : ExpansionTally) :
    List Binding × ExpansionTally :=
  match Directive.ofText? directive with
  | none => ([], { tally with unsupported := tally.unsupported + 1 })
  | some d =>
    match (job.data.at? d.path).bind Datum.items? with
    | none => ([], tally)
    | some items =>
      if job.exceeds tally items.length then ([], { tally with limitReached := true })
      else
        let bound := items.map (Binding.mk d.variableName)
        (bound,
          { tally with
            expanded := tally.expanded + 1
            iterations := tally.iterations + items.length
            replaced :=
              tally.replaced + total (bound.map fun b => template.countFilled (job.sourceOf b)) })

end Job

namespace Forest

/-- Expands a document in one pass from left to right. A template gives way to its copies in the
order of the items, and what is within a copy is expanded before the next copy. -/
def expandOnce (job : Job) : Forest → ExpansionTally → Forest × ExpansionTally
  | .nil, tally => (.nil, tally)
  | .text content next, tally =>
    let (next, tally) := next.expandOnce job tally
    (.text content next, tally)
  | .element tag children next, tally =>
    match tag.attributes.get? job.settings.repeatAttribute with
    | none =>
      let (children, tally) := children.expandOnce job tally
      let (next, tally) := next.expandOnce job tally
      (.element tag children next, tally)
    | some directive =>
      let bare := tag.without job.settings.repeatAttribute
      let (bound, tally) := job.bindings directive (.element bare children .nil) tally
      let (copies, tally) := inTurn (fun b tally =>
        let (inside, tally) := (children.fill (job.sourceOf b)).expandOnce job tally
        (.element (bare.fill (job.sourceOf b)) inside .nil, tally)) bound tally
      let (next, tally) := next.expandOnce job tally
      (join copies ++ next, tally)
termination_by f => f.size
decreasing_by all_goals simp only [size, size_fill]; omega

/-- The expanded copy of an element for a bound item, given its tag and its children. -/
def copyOnce (job : Job) (tag : Tag) (children : Forest) (b : Binding) (tally : ExpansionTally) :
    Forest × ExpansionTally :=
  let (inside, tally) := (children.fill (job.sourceOf b)).expandOnce job tally
  (.element (tag.fill (job.sourceOf b)) inside .nil, tally)

/-! ## Its equations -/

section

variable {job : Job} {tally tally' : ExpansionTally}

@[simp] theorem expandOnce_nil : nil.expandOnce job tally = (nil, tally) := by rw [expandOnce]

theorem expandOnce_text (content : String) (next : Forest) :
    (text content next).expandOnce job tally =
      (text content (next.expandOnce job tally).1, (next.expandOnce job tally).2) := by
  rw [expandOnce]

theorem expandOnce_plain {tag : Tag} (children next : Forest)
    (h : tag.attributes.get? job.settings.repeatAttribute = none) :
    (element tag children next).expandOnce job tally =
      let inside := children.expandOnce job tally
      let behind := next.expandOnce job inside.2
      (element tag inside.1 behind.1, behind.2) := by
  rw [expandOnce, h]

theorem expandOnce_repeat {tag : Tag} {directive : String} (children next : Forest)
    (h : tag.attributes.get? job.settings.repeatAttribute = some directive) :
    (element tag children next).expandOnce job tally =
      let bare := tag.without job.settings.repeatAttribute
      let bound := job.bindings directive (element bare children nil) tally
      let copies := inTurn (copyOnce job bare children) bound.1 bound.2
      let behind := next.expandOnce job copies.2
      (join copies.1 ++ behind.1, behind.2) := by
  rw [expandOnce, h]
  rfl

/-- Siblings are expanded one after the other. -/
theorem expandOnce_append (f g : Forest) :
    (f ++ g).expandOnce job tally =
      let before := f.expandOnce job tally
      let behind := g.expandOnce job before.2
      (before.1 ++ behind.1, behind.2) := by
  induction f generalizing tally with
  | nil => simp
  | text s next ih => simp only [text_append, expandOnce_text, ih]
  | element tag cs next _ ih =>
    rw [element_append]
    cases h : tag.attributes.get? job.settings.repeatAttribute with
    | none => simp only [expandOnce_plain _ _ h, ih, element_append]
    | some directive => simp only [expandOnce_repeat _ _ h, ih, append_assoc]

/-- Where no directive is left there is nothing to do. -/
theorem expandOnce_of_hasAttribute_eq_false {f : Forest}
    (h : f.hasAttribute job.settings.repeatAttribute = false) :
    f.expandOnce job tally = (f, tally) := by
  induction f generalizing tally with
  | nil => exact expandOnce_nil
  | text s next ih => rw [expandOnce_text, ih h]
  | element tag cs next ihc ihn =>
    simp only [hasAttribute, Entries.contains, Bool.or_eq_false_iff, Option.isSome_eq_false_iff,
      Option.isNone_iff_eq_none] at h
    obtain ⟨⟨htag, hcs⟩, hnext⟩ := h
    simp only [expandOnce_plain _ _ htag, ihc hcs, ihn hnext]

/-! ## Rounds -/

/-- What a round puts in the place of a template, made of the bound items. -/
theorem unroll_eq (job : Job) (directive : String) (template : Forest) (tally : ExpansionTally) :
    job.unroll directive template tally =
      let bound := job.bindings directive template tally
      (join (bound.1.map fun b => template.fill (job.sourceOf b)), bound.2) := by
  unfold Job.unroll Job.bindings
  cases Directive.ofText? directive with
  | none => rfl
  | some d =>
    cases hi : (job.data.at? d.path).bind Datum.items? with
    | none => simp only [hi]; rfl
    | some items =>
      simp only [hi]
      by_cases hx : job.exceeds tally items.length = true
      · rw [if_pos hx, if_pos hx]
        rfl
      · rw [if_neg hx, if_neg hx]
        simp only [Job.copies, Job.countCopied, List.map_map]
        rfl

/-- The copies that a round makes become, expanded one after the other, the copies of the pass. -/
theorem expandOnce_join_fill {tag : Tag} (children : Forest) (bound : List Binding)
    (h : tag.attributes.get? job.settings.repeatAttribute = none) :
    (join (bound.map fun b => (element tag children nil).fill (job.sourceOf b))).expandOnce
        job tally =
      let copies := inTurn (copyOnce job tag children) bound tally
      (join copies.1, copies.2) := by
  induction bound generalizing tally with
  | nil => exact expandOnce_nil
  | cons b rest ih =>
    have hb : (tag.fill (job.sourceOf b)).attributes.get? job.settings.repeatAttribute = none := by
      simp [Tag.fill, h]
    have hjoin : join ((b :: rest).map fun b => (element tag children nil).fill (job.sourceOf b)) =
        (element tag children nil).fill (job.sourceOf b) ++
          join (rest.map fun b => (element tag children nil).fill (job.sourceOf b)) := rfl
    have hcopy : ((element tag children nil).fill (job.sourceOf b)).expandOnce job tally =
        copyOnce job tag children b tally := by
      rw [fill, expandOnce_plain _ _ hb]
      simp only [fill, expandOnce_nil]
      rfl
    rw [hjoin, expandOnce_append, hcopy]
    simp only [ih]
    rfl

/-- A round does not change what the pass gives. -/
theorem expandOnce_eq_of_expandNext? {f g : Forest}
    (h : f.expandNext? job tally = some (g, tally')) :
    f.expandOnce job tally = g.expandOnce job tally' := by
  rw [expandNext?_eq_some_iff] at h
  induction h with
  | @unroll tag directive hdirective children next =>
    have hbare : (tag.without job.settings.repeatAttribute).attributes.get?
        job.settings.repeatAttribute = none := by simp [Tag.without]
    rw [unroll_eq, expandOnce_append, expandOnce_join_fill _ _ hbare,
      expandOnce_repeat _ _ hdirective]
  | text content round ih => rw [expandOnce_text, expandOnce_text, ih]
  | children hplain round next ih =>
    rw [expandOnce_plain _ _ hplain, expandOnce_plain _ _ hplain, ih]
  | next hplain hchildren round ih =>
    -- The children have no directive left, so the pass leaves them alone on both sides.
    simp only [expandOnce_plain _ _ hplain, expandOnce_of_hasAttribute_eq_false hchildren, ih]

theorem expandRounds_eq_expandOnce {rounds : Nat} {f : Forest}
    (h : f.pendingRounds job.settings.repeatAttribute job.data.longestList ≤ rounds) :
    expandRounds job rounds f tally = f.expandOnce job tally := by
  induction rounds generalizing f tally with
  | zero =>
    have hnone : f.expandNext? job tally = none := by
      cases hn : f.expandNext? job tally with
      | none => rfl
      | some r =>
        have := pendingRounds_expandNext?_lt hn
        omega
    rw [expandRounds, expandOnce_of_hasAttribute_eq_false (expandNext?_eq_none_iff.1 hnone)]
  | succ rounds ih =>
    rw [expandRounds]
    cases hn : f.expandNext? job tally with
    | none => exact (expandOnce_of_hasAttribute_eq_false (expandNext?_eq_none_iff.1 hn)).symm
    | some r =>
      obtain ⟨g, t⟩ := r
      have hlt := pendingRounds_expandNext?_lt hn
      rw [expandOnce_eq_of_expandNext? hn]
      exact ih (by omega)

end

/-- Expanding a document round by round gives the same document and the same tally as going
through it once. -/
theorem expand_eq_expandOnce (job : Job) (f : Forest) :
    f.expand job = f.expandOnce job {} :=
  expandRounds_eq_expandOnce (Nat.le_refl _)

end Forest

end FormLetter
