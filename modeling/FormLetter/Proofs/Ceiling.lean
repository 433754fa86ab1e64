import FormLetter.Renderer

/-!
# Ceilings

A ceiling on the number of copies drops the repeats that would go over it. Up to the first one
that does, expansion goes on as without a ceiling, and after it the report says so.

* `Job.unroll_withCeiling`: what a ceiling changes about one repeat.
  `Forest.expandNext?_withCeiling`: about one round. `Forest.expandRounds_withCeiling`: about all
  rounds.
* `Forest.rel_expandRounds`: what each repeat does to the tally, all rounds do.
* `Renderer.render_withCeiling`: a ceiling changes nothing unless it is needed, and the report says
  exactly then that it is reached.
-/

namespace FormLetter

/-- The settings with another ceiling, or with none. -/
def Settings.withCeiling (settings : Settings) (ceiling : Option Nat) : Settings :=
  { settings with maxIterations := ceiling }

/-- The job with another ceiling, or with none. -/
def Job.withCeiling (job : Job) (ceiling : Option Nat) : Job :=
  { job with settings := job.settings.withCeiling ceiling }

/-- The renderer with another ceiling, or with none. -/
def Renderer.withCeiling (r : Renderer) (ceiling : Option Nat) : Renderer :=
  ⟨r.settings.withCeiling ceiling⟩

/-! ## One repeat -/

namespace Job

/-- One repeat takes no copies back, and it does not forget that the ceiling was reached. -/
theorem unroll_extends (job : Job) (directive : String) (template : Forest)
    (tally : ExpansionTally) :
    tally.iterations ≤ (job.unroll directive template tally).2.iterations ∧
      (tally.limitReached = true →
        (job.unroll directive template tally).2.limitReached = true) := by
  cases hd : Directive.ofText? directive with
  | none =>
    rw [job.unroll_of_unreadable hd]
    exact ⟨Nat.le_refl _, id⟩
  | some d =>
    cases hlist : (job.data.at? d.path).bind Datum.items? with
    | none =>
      rw [job.unroll_of_no_list hd hlist]
      exact ⟨Nat.le_refl _, id⟩
    | some items =>
      rw [job.unroll_of_list hd hlist]
      split
      · exact ⟨Nat.le_refl _, fun _ => rfl⟩
      · exact ⟨Nat.le_add_right _ _, id⟩

/-- Without a ceiling none is reached. -/
theorem limitReached_unroll (job : Job) (directive : String) (template : Forest)
    (tally : ExpansionTally) :
    ((job.withCeiling none).unroll directive template tally).2.limitReached =
      tally.limitReached := by
  cases hd : Directive.ofText? directive with
  | none => rw [(job.withCeiling none).unroll_of_unreadable hd]
  | some d =>
    cases hlist : (job.data.at? d.path).bind Datum.items? with
    | none => rw [(job.withCeiling none).unroll_of_no_list hd hlist]
    | some items =>
      have hfree : (job.withCeiling none).exceeds tally items.length = false := rfl
      rw [(job.withCeiling none).unroll_of_list hd hlist, hfree, if_neg Bool.false_ne_true]

/-- A repeat goes over the ceiling if the copies made without one do; then it is dropped. Otherwise
it does what it does without a ceiling. -/
theorem unroll_withCeiling (job : Job) {most : Nat} (directive : String) (template : Forest)
    {tally : ExpansionTally} (h : shownCount tally.iterations ≤ most) :
    (job.withCeiling (some most)).unroll directive template tally =
      if shownCount ((job.withCeiling none).unroll directive template tally).2.iterations ≤ most then
        (job.withCeiling none).unroll directive template tally
      else (.nil, { tally with limitReached := true }) := by
  cases hd : Directive.ofText? directive with
  | none =>
    have hunroll := fun ceiling => (job.withCeiling ceiling).unroll_of_unreadable hd template tally
    rw [hunroll, hunroll]
    exact (if_pos h).symm
  | some d =>
    cases hlist : (job.data.at? d.path).bind Datum.items? with
    | none =>
      have hunroll := fun ceiling =>
        (job.withCeiling ceiling).unroll_of_no_list hd hlist template tally
      rw [hunroll, hunroll]
      exact (if_pos h).symm
    | some items =>
      have hunroll := fun ceiling =>
        (job.withCeiling ceiling).unroll_of_list hd hlist template tally
      have hfree : (job.withCeiling none).exceeds tally items.length = false := rfl
      have hbounded : (job.withCeiling (some most)).exceeds tally items.length =
          decide (most < shownCount (tally.iterations + items.length)) := rfl
      rw [hunroll, hunroll, hfree, hbounded, if_neg Bool.false_ne_true]
      dsimp only
      by_cases hover : most < shownCount (tally.iterations + items.length)
      · rw [if_pos (decide_eq_true hover), if_neg (Nat.not_le.2 hover)]
      · rw [if_neg (by simpa using hover), if_pos (Nat.not_lt.1 hover)]
        rfl

end Job

/-! ## One round -/

namespace Forest

/-- A round puts something in the place of one repeat. -/
theorem exists_unroll_of_expandNext? {job : Job} {tally tally' : ExpansionTally} {f g : Forest}
    (h : f.expandNext? job tally = some (g, tally')) :
    ∃ directive template, tally' = (job.unroll directive template tally).2 := by
  rw [expandNext?_eq_some_iff] at h
  induction h with
  | unroll hdirective children next => exact ⟨_, _, rfl⟩
  | text content round ih => exact ih
  | children hplain round next ih => exact ih
  | next hplain hchildren round ih => exact ih

theorem expandNext?_withCeiling_eq_none (job : Job) (ceiling : Option Nat) {f : Forest}
    {tally tally' : ExpansionTally} (h : f.expandNext? (job.withCeiling none) tally = none) :
    f.expandNext? (job.withCeiling ceiling) tally' = none :=
  expandNext?_eq_none_iff.2 (expandNext?_eq_none_iff.1 h :)

/-- A round does what it does without a ceiling, unless the copies that it makes then go over the
ceiling; in that case it drops its repeat. -/
theorem expandNext?_withCeiling (job : Job) {most : Nat} {tally tally' : ExpansionTally}
    (hstart : shownCount tally.iterations ≤ most) {f g : Forest}
    (h : f.expandNext? (job.withCeiling none) tally = some (g, tally')) :
    (shownCount tally'.iterations ≤ most →
        f.expandNext? (job.withCeiling (some most)) tally = some (g, tally')) ∧
      (most < shownCount tally'.iterations →
        ∃ g', f.expandNext? (job.withCeiling (some most)) tally =
          some (g', { tally with limitReached := true })) := by
  simp only [expandNext?_eq_some_iff] at h ⊢
  induction h with
  | @unroll tag directive hdirective children next =>
    have hunroll := job.unroll_withCeiling directive
      (element (tag.without job.settings.repeatAttribute) children nil) hstart
    have hround : ∀ result, (job.withCeiling (some most)).unroll directive
        (element (tag.without job.settings.repeatAttribute) children nil) tally = result →
          Round (job.withCeiling (some most)) tally (element tag children next)
            (result.1 ++ next) result.2 := by
      rintro _ rfl
      have hdirective' : tag.attributes.get? (job.withCeiling (some most)).settings.repeatAttribute =
        some directive := hdirective
      exact .unroll hdirective' children next
    exact ⟨fun hle => hround _ (hunroll.trans (if_pos hle)),
      fun hlt => ⟨_, hround _ (hunroll.trans (if_neg (Nat.not_le.2 hlt)))⟩⟩
  | text content round ih =>
    obtain ⟨hbelow, hover⟩ := ih
    refine ⟨fun hle => .text content (hbelow hle), fun hlt => ?_⟩
    obtain ⟨next', hnext'⟩ := hover hlt
    exact ⟨_, .text content hnext'⟩
  | @children tag hplain _ _ _ round next ih =>
    have hplain' : tag.attributes.get? (job.withCeiling (some most)).settings.repeatAttribute =
      none := hplain
    obtain ⟨hbelow, hover⟩ := ih
    refine ⟨fun hle => .children hplain' (hbelow hle) next, fun hlt => ?_⟩
    obtain ⟨children', hchildren'⟩ := hover hlt
    exact ⟨_, .children hplain' hchildren' next⟩
  | @next tag hplain _ hchildren _ _ _ round ih =>
    have hplain' : tag.attributes.get? (job.withCeiling (some most)).settings.repeatAttribute =
      none := hplain
    obtain ⟨hbelow, hover⟩ := ih
    refine ⟨fun hle => .next hplain' hchildren (hbelow hle), fun hlt => ?_⟩
    obtain ⟨next', hnext'⟩ := hover hlt
    exact ⟨_, .next hplain' hchildren hnext'⟩

/-! ## All rounds -/

/-- What each repeat does to the tally, all rounds together do. -/
theorem rel_expandRounds {job : Job} (rel : ExpansionTally → ExpansionTally → Prop)
    (hrefl : ∀ tally, rel tally tally)
    (htrans : ∀ {first second third}, rel first second → rel second third → rel first third)
    (hunroll : ∀ directive template tally, rel tally (job.unroll directive template tally).2)
    (rounds : Nat) (f : Forest) (tally : ExpansionTally) :
    rel tally (expandRounds job rounds f tally).2 := by
  refine expandRounds_induction (fun _ after => rel tally after) (fun hbefore hnext => ?_) rounds
    (hrefl tally)
  obtain ⟨directive, template, rfl⟩ := exists_unroll_of_expandNext? hnext
  exact htrans hbefore (hunroll directive template _)

theorem expandRounds_extends (job : Job) (rounds : Nat) (f : Forest) (tally : ExpansionTally) :
    tally.iterations ≤ (expandRounds job rounds f tally).2.iterations ∧
      (tally.limitReached = true → (expandRounds job rounds f tally).2.limitReached = true) :=
  rel_expandRounds
    (fun before after => before.iterations ≤ after.iterations ∧
      (before.limitReached = true → after.limitReached = true))
    (fun _ => ⟨Nat.le_refl _, id⟩) (fun h h' => ⟨Nat.le_trans h.1 h'.1, h'.2 ∘ h.2⟩)
    job.unroll_extends rounds f tally

theorem limitReached_expandRounds (job : Job) (rounds : Nat) (f : Forest) (tally : ExpansionTally) :
    (expandRounds (job.withCeiling none) rounds f tally).2.limitReached = tally.limitReached :=
  rel_expandRounds (fun before after => after.limitReached = before.limitReached)
    (fun _ => rfl) (fun h h' => h'.trans h) job.limitReached_unroll rounds f tally

/-- All rounds together do what they do without a ceiling, unless the copies that they make then go
over the ceiling; in that case the ceiling is reached. -/
theorem expandRounds_withCeiling (job : Job) {most : Nat} (rounds : Nat) {f : Forest}
    {tally : ExpansionTally} (hstart : shownCount tally.iterations ≤ most) :
    let free := expandRounds (job.withCeiling none) rounds f tally
    let bounded := expandRounds (job.withCeiling (some most)) rounds f tally
    (shownCount free.2.iterations ≤ most → bounded = free) ∧
      (most < shownCount free.2.iterations → bounded.2.limitReached = true) := by
  induction rounds generalizing f tally with
  | zero => exact ⟨fun _ => rfl, fun hlt => absurd hstart (Nat.not_le.2 hlt)⟩
  | succ rounds ih =>
    intro free bounded
    cases hfree : f.expandNext? (job.withCeiling none) tally with
    | none =>
      have hbounded : f.expandNext? (job.withCeiling (some most)) tally = none :=
        expandNext?_withCeiling_eq_none job _ hfree
      have hsame : bounded = free := by
        simp only [bounded, free, expandRounds, hfree, hbounded]
      have hstay : free.2 = tally := by simp only [free, expandRounds, hfree]
      refine ⟨fun _ => hsame, fun hlt => ?_⟩
      rw [hstay] at hlt
      exact absurd hstart (Nat.not_le.2 hlt)
    | some r =>
      obtain ⟨g, tally'⟩ := r
      obtain ⟨hbelow, hover⟩ := expandNext?_withCeiling job hstart hfree
      have hfree' : free = expandRounds (job.withCeiling none) rounds g tally' := by
        simp only [free, expandRounds, hfree]
      by_cases hle : shownCount tally'.iterations ≤ most
      · have hbounded' : bounded = expandRounds (job.withCeiling (some most)) rounds g tally' := by
          simp only [bounded, expandRounds, hbelow hle]
        rw [hfree', hbounded']
        exact ih hle
      · -- From here on the two part, but the copies stay made and the report stays.
        have hlt := Nat.not_le.1 hle
        have hmore := (expandRounds_extends (job.withCeiling none) rounds g tally').1
        obtain ⟨g', hdropped⟩ := hover hlt
        have hreached := (expandRounds_extends (job.withCeiling (some most)) rounds g'
          { tally with limitReached := true }).2 rfl
        refine ⟨fun hfit => ?_, fun _ => ?_⟩
        · rw [hfree'] at hfit
          exact absurd (Nat.le_trans (shownCount_le_shownCount hmore) hfit) hle
        · simpa only [bounded, expandRounds, hdropped] using hreached

/-- Expansion with a ceiling is expansion without one, unless that goes over the ceiling, and it
says exactly then that the ceiling is reached. -/
theorem expand_withCeiling (job : Job) (most : Nat) (f : Forest) :
    let free := f.expand (job.withCeiling none)
    let bounded := f.expand (job.withCeiling (some most))
    (shownCount free.2.iterations ≤ most → bounded = free) ∧
      (bounded.2.limitReached = true ↔ most < shownCount free.2.iterations) := by
  intro free bounded
  have hstart : shownCount (ExpansionTally.iterations {}) ≤ most := Nat.zero_le most
  obtain ⟨hbelow, hover⟩ := expandRounds_withCeiling job
    (f.pendingRounds job.settings.repeatAttribute job.data.longestList) hstart
  refine ⟨hbelow, fun hreached => ?_, hover⟩
  rw [← Nat.not_le]
  intro hle
  have hnever : free.2.limitReached = false := limitReached_expandRounds job _ f {}
  have hsame : bounded = free := hbelow hle
  rw [hsame, hnever] at hreached
  exact Bool.false_ne_true hreached

theorem selectVisible_withCeiling (job : Job) (ceiling : Option Nat) (f : Forest)
    (tally : VisibilityTally) :
    f.selectVisible (job.withCeiling ceiling) tally = f.selectVisible job tally := by
  induction f generalizing tally with
  | nil => rfl
  | text content next ih => rw [selectVisible, selectVisible, ih]
  | element tag children next ihc ihn =>
    have hjudge : (job.withCeiling ceiling).judgeTag tag tally = job.judgeTag tag tally := rfl
    rw [selectVisible, selectVisible, hjudge]
    rcases job.judgeTag tag tally with ⟨_ | _, tally'⟩
    · exact ihn tally'
    · simp only [ihc, ihn]
      rfl

end Forest

/-! ## Letters -/

/-- A ceiling is reached exactly if more copies are made without it than it allows. If not, the
letter and the report are those without a ceiling. -/
theorem Renderer.render_withCeiling (r : Renderer) (document : Forest) (values : Entries String)
    (data : Datum) (most : Nat) :
    let free := (r.withCeiling none).render document values data
    let bounded := (r.withCeiling (some most)).render document values data
    (bounded.report.limitReached = true ↔ most < free.report.repeatIterations) ∧
      (free.report.repeatIterations ≤ most → bounded = free) := by
  intro free bounded
  obtain ⟨hbelow, hreached⟩ := document.expand_withCeiling (r.job values data) most
  refine ⟨hreached, fun hle => ?_⟩
  have hjob : ∀ ceiling, (r.withCeiling ceiling).job values data =
      (r.job values data).withCeiling ceiling := fun _ => rfl
  simp only [bounded, free, render, renderWith, hjob, hbelow hle, Forest.selectVisible_withCeiling]

end FormLetter
