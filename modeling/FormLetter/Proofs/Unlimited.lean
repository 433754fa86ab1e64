import FormLetter.Proofs.OnePass

/-!
# Expansion without a ceiling

A ceiling lets the copies made by one repeat decide about the next one. Without a ceiling every part
of a document is expanded by itself: what becomes of it does not depend on the parts before it, and
what it adds to the tally is always the same.

* `Job.itemsOf`: the items that a repeat is copied for.
* `Forest.addsUp_expandOnce`: a tally to start from changes nothing but the tally at the end.
* `Forest.expand_append`: two parts of a document are expanded each by itself.
* `Forest.expand_text`, `Forest.expand_plain`, `Forest.fst_expand_repeat`: so are the nodes of a
  document. In the place of a repeat there is one element for each of its items, with expanded
  children.
-/

namespace FormLetter

/-! ## Adding up tallies -/

namespace ExpansionTally

/-- What two parts of an expansion have done together. -/
instance : Add ExpansionTally :=
  ⟨fun s t => ⟨s.expanded + t.expanded, s.iterations + t.iterations, s.unsupported + t.unsupported,
    s.replaced + t.replaced, s.limitReached || t.limitReached⟩⟩

theorem add_def (s t : ExpansionTally) :
    s + t = ⟨s.expanded + t.expanded, s.iterations + t.iterations, s.unsupported + t.unsupported,
      s.replaced + t.replaced, s.limitReached || t.limitReached⟩ := rfl

@[simp] theorem add_zero (s : ExpansionTally) : s + {} = s := by
  simp [add_def]

@[simp] theorem zero_add (s : ExpansionTally) : {} + s = s := by
  simp [add_def]

theorem add_assoc (s t u : ExpansionTally) : s + t + u = s + (t + u) := by
  simp [add_def, Nat.add_assoc, Bool.or_assoc]

end ExpansionTally

/-- Something is made as if it came first, and it adds to a tally what it adds to the empty one. -/
def AddsUp {β : Type} (make : ExpansionTally → β × ExpansionTally) : Prop :=
  ∀ tally, make tally = ((make {}).1, tally + (make {}).2)

/-- If each of some things adds up, then so do all of them in turn, and each is made as if it came
first. -/
theorem inTurn_of_addsUp {α β : Type} {make : α → ExpansionTally → β × ExpansionTally}
    {as : List α} (h : ∀ a ∈ as, AddsUp (make a)) (tally : ExpansionTally) :
    inTurn make as tally = (as.map fun a => (make a {}).1, tally + (inTurn make as {}).2) := by
  induction as generalizing tally with
  | nil => simp [inTurn]
  | cons a as ih =>
    obtain ⟨ha, has⟩ := List.forall_mem_cons.1 h
    have hothers := ih has
    simp only [inTurn]
    rw [ha tally, hothers, hothers (make a {}).2, List.map_cons, ExpansionTally.add_assoc]

/-! ## One repeat -/

namespace Job

/-- The items that a directive repeats its element for if there is no ceiling, each bound to the
variable. -/
def itemsOf (job : Job) (directive : String) : List Binding :=
  match Directive.ofText? directive with
  | none => []
  | some d =>
    match (job.data.at? d.path).bind Datum.items? with
    | none => []
    | some items => items.map (Binding.mk d.variableName)

variable {job : Job}

theorem exceeds_eq_false (hfree : job.settings.maxIterations = none) (tally : ExpansionTally)
    (more : Nat) : job.exceeds tally more = false := by
  rw [exceeds, hfree]

/-- Without a ceiling a repeat binds all its items, and it adds to a tally what it adds to the empty
one. -/
theorem bindings_of_unlimited (hfree : job.settings.maxIterations = none) (directive : String)
    (template : Forest) (tally : ExpansionTally) :
    job.bindings directive template tally =
      (job.itemsOf directive, tally + (job.bindings directive template {}).2) := by
  unfold bindings itemsOf
  cases Directive.ofText? directive with
  | none => simp [ExpansionTally.add_def]
  | some d =>
    cases hlist : (job.data.at? d.path).bind Datum.items? with
    | none => simp [hlist]
    | some items => simp [hlist, exceeds_eq_false hfree, ExpansionTally.add_def]

end Job

/-! ## Documents -/

namespace Forest

variable {job : Job}

theorem addsUp_copyOnce {tag : Tag} {children : Forest} {b : Binding}
    (h : AddsUp ((children.fill (job.sourceOf b)).expandOnce job)) :
    AddsUp (copyOnce job tag children b) := by
  intro tally
  rw [copyOnce, copyOnce, h tally]

/-- What expansion makes of a document does not depend on the tally to start from. What it adds to
the tally does not either. -/
theorem addsUp_expandOnce (hfree : job.settings.maxIterations = none) (f : Forest) :
    AddsUp (f.expandOnce job) := by
  induction f using induction_fill with
  | nil =>
    intro tally
    simp
  | text content next ih =>
    intro tally
    rw [expandOnce_text, expandOnce_text, ih tally]
  | element tag children next ihc ihfill ihn =>
    intro tally
    cases hdirective : tag.attributes.get? job.settings.repeatAttribute with
    | none =>
      rw [expandOnce_plain _ _ hdirective, expandOnce_plain _ _ hdirective]
      dsimp only
      rw [ihc tally, ihn (_ + _), ihn (children.expandOnce job {}).2, ExpansionTally.add_assoc]
    | some directive =>
      have hcopy : ∀ b ∈ job.itemsOf directive,
          AddsUp (copyOnce job (tag.without job.settings.repeatAttribute) children b) :=
        fun b _ => addsUp_copyOnce (ihfill (job.sourceOf b))
      rw [expandOnce_repeat _ _ hdirective, expandOnce_repeat _ _ hdirective]
      dsimp only
      rw [Job.bindings_of_unlimited hfree, Job.bindings_of_unlimited hfree _ _ {}]
      dsimp only
      -- Both sides come to three parts: what the repeat itself adds, its copies, and what follows.
      rw [inTurn_of_addsUp hcopy, ihn (_ + _), inTurn_of_addsUp hcopy ({} + _), ihn ({} + _ + _)]
      simp only [ExpansionTally.zero_add, ExpansionTally.add_assoc]

/-- Two parts of a document are expanded each by itself. -/
theorem expand_append (hfree : job.settings.maxIterations = none) (f g : Forest) :
    (f ++ g).expand job =
      ((f.expand job).1 ++ (g.expand job).1, (f.expand job).2 + (g.expand job).2) := by
  simp only [expand_eq_expandOnce]
  rw [expandOnce_append]
  dsimp only
  rw [addsUp_expandOnce hfree g (f.expandOnce job {}).2]

theorem expand_text (content : String) (next : Forest) :
    (text content next).expand job =
      (text content (next.expand job).1, (next.expand job).2) := by
  simp only [expand_eq_expandOnce]
  exact expandOnce_text content next

/-- So are the children of an element that is not repeated and what follows it. -/
theorem expand_plain (hfree : job.settings.maxIterations = none) {tag : Tag}
    (h : tag.attributes.get? job.settings.repeatAttribute = none) (children next : Forest) :
    (element tag children next).expand job =
      (element tag (children.expand job).1 (next.expand job).1,
        (children.expand job).2 + (next.expand job).2) := by
  simp only [expand_eq_expandOnce]
  rw [expandOnce_plain _ _ h]
  dsimp only
  rw [addsUp_expandOnce hfree next (children.expandOnce job {}).2]

/-- In the place of a repeat there is one element for each of its items, and what is within it is
expanded by itself. -/
theorem fst_expand_repeat (hfree : job.settings.maxIterations = none) {tag : Tag}
    {directive : String} (h : tag.attributes.get? job.settings.repeatAttribute = some directive)
    (children next : Forest) :
    ((element tag children next).expand job).1 =
      join ((job.itemsOf directive).map fun b =>
        element ((tag.without job.settings.repeatAttribute).fill (job.sourceOf b))
          ((children.fill (job.sourceOf b)).expand job).1 nil) ++ (next.expand job).1 := by
  have hcopy : ∀ b ∈ job.itemsOf directive,
      AddsUp (copyOnce job (tag.without job.settings.repeatAttribute) children b) :=
    fun _ _ => addsUp_copyOnce (addsUp_expandOnce hfree _)
  simp only [expand_eq_expandOnce]
  rw [expandOnce_repeat _ _ h]
  dsimp only
  rw [Job.bindings_of_unlimited hfree]
  dsimp only
  rw [inTurn_of_addsUp hcopy, addsUp_expandOnce hfree next (_ + _)]
  rfl

end Forest

end FormLetter
