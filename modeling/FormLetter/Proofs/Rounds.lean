import Mathlib.Algebra.Order.Ring.Nat
import FormLetter.Proofs.Occurrence
import FormLetter.Proofs.OnePass

/-!
# How many rounds expansion takes

A round expands one repeat and makes copies, and each copy has the repeats within it again. So the
number of repeats can grow from round to round. It is bounded all the same: a repeat is copied at
most once for each way to choose an item for each of the repeats around it, and each of these
copies takes one round.

* `Forest.exists_template_of_round`: a round puts copies in the place of the first repeat.
* `Forest.Rounds`: what a document becomes by some rounds, and the copies that each of them makes.
* `Forest.Rounds.length_add_pendingRounds_le`: rounds that are done and rounds to come are never
  more than the document needed at the start.
* `Forest.pow_mul_pendingRounds_le`: what it needs, from the number of repeats, how deep they are
  nested, and the longest list.
* `Forest.length_rounds_le`: so many rounds find something at most, and then no repeat is left.
-/

namespace FormLetter

/-- The element is to be repeated. -/
def Job.isRepeated (job : Job) (tag : Tag) : Bool :=
  tag.attributes.contains job.settings.repeatAttribute

/-- How many elements on the way from the root to a node have a tag of some kind, the node
included. -/
def Occurrence.countOnWay (kind : Tag → Bool) (o : Occurrence) : Nat :=
  o.around.countP kind + (o.isElement kind).toNat

namespace Forest

/-! ## Rounds one after the other -/

/-- The directive of the first element in document order that has one, and the element without
it. -/
def firstRepeat? (repeatAttribute : String) : Forest → Option (String × Forest)
  | .nil => none
  | .text _ next => next.firstRepeat? repeatAttribute
  | .element tag children next =>
    match tag.attributes.get? repeatAttribute with
    | some directive => some (directive, element (tag.without repeatAttribute) children .nil)
    | none => (children.firstRepeat? repeatAttribute).or (next.firstRepeat? repeatAttribute)

/-- The copies that the next round makes: one of the first repeat for each item bound to its
variable. -/
def nextCopies (job : Job) (tally : ExpansionTally) (f : Forest) : List Forest :=
  match f.firstRepeat? job.settings.repeatAttribute with
  | some (directive, template) =>
    (job.bindings directive template tally).1.map fun b => template.fill (job.sourceOf b)
  | none => []

/-- The document with something else in the place of its first repeat. -/
def replaceFirst (repeatAttribute : String) : Forest → Forest → Forest
  | .nil, _ => .nil
  | .text content next, other => .text content (next.replaceFirst repeatAttribute other)
  | .element tag children next, other =>
    match tag.attributes.get? repeatAttribute, children.firstRepeat? repeatAttribute with
    | some _, _ => other ++ next
    | none, some _ => .element tag (children.replaceFirst repeatAttribute other) next
    | none, none => .element tag children (next.replaceFirst repeatAttribute other)

theorem firstRepeat?_eq_none {name : String} {f : Forest} (h : f.hasAttribute name = false) :
    f.firstRepeat? name = none := by
  induction f with
  | nil => rfl
  | text content next ih => exact ih h
  | element tag children next ihc ihn =>
    simp only [hasAttribute, Entries.contains, Bool.or_eq_false_iff, Option.isSome_eq_false_iff,
      Option.isNone_iff_eq_none] at h
    obtain ⟨⟨htag, hchildren⟩, hnext⟩ := h
    rw [firstRepeat?, htag]
    dsimp only
    rw [ihc hchildren, ihn hnext]
    rfl

/-- A round puts copies in the place of the first repeat. -/
theorem exists_template_of_round {job : Job} {tally tally' : ExpansionTally} {f g : Forest}
    (h : Round job tally f g tally') :
    ∃ directive template,
      f.firstRepeat? job.settings.repeatAttribute = some (directive, template) ∧
        tally' = (job.bindings directive template tally).2 ∧
          g = f.replaceFirst job.settings.repeatAttribute
            (join ((job.bindings directive template tally).1.map
              fun b => template.fill (job.sourceOf b))) := by
  induction h with
  | unroll hdirective children next =>
    refine ⟨_, _, by rw [firstRepeat?, hdirective], by rw [unroll_eq], ?_⟩
    rw [replaceFirst, hdirective, unroll_eq]
  | text content round ih =>
    obtain ⟨directive, template, hfirst, htally, rfl⟩ := ih
    exact ⟨directive, template, hfirst, htally, rfl⟩
  | children hplain round next ih =>
    obtain ⟨directive, template, hfirst, htally, rfl⟩ := ih
    refine ⟨directive, template, ?_, htally, ?_⟩
    · rw [firstRepeat?, hplain, hfirst]
      rfl
    · rw [replaceFirst, hplain, hfirst]
  | next hplain hchildren round ih =>
    obtain ⟨directive, template, hfirst, htally, rfl⟩ := ih
    have hnone := firstRepeat?_eq_none hchildren
    refine ⟨directive, template, ?_, htally, ?_⟩
    · rw [firstRepeat?, hplain, hnone, hfirst]
      rfl
    · rw [replaceFirst, hplain, hnone]

theorem nextCopies_of_firstRepeat? {job : Job} {f template : Forest} {directive : String}
    (h : f.firstRepeat? job.settings.repeatAttribute = some (directive, template))
    (tally : ExpansionTally) :
    f.nextCopies job tally =
      (job.bindings directive template tally).1.map fun b => template.fill (job.sourceOf b) := by
  rw [nextCopies, h]

theorem eq_replaceFirst_of_expandNext? {job : Job} {tally tally' : ExpansionTally} {f g : Forest}
    (h : f.expandNext? job tally = some (g, tally')) :
    g = f.replaceFirst job.settings.repeatAttribute (join (f.nextCopies job tally)) := by
  obtain ⟨directive, template, hfirst, -, rfl⟩ :=
    exists_template_of_round (expandNext?_eq_some_iff.1 h)
  rw [nextCopies_of_firstRepeat? hfirst]

/-- The round that expands a given repeat puts its copies in its place. -/
theorem expandNext?_of_firstRepeat? {job : Job} {tally : ExpansionTally}
    {f template : Forest} {text : String}
    (h : f.firstRepeat? job.settings.repeatAttribute = some (text, template)) :
    f.expandNext? job tally =
      some (f.replaceFirst job.settings.repeatAttribute (join (f.nextCopies job tally)),
        (job.bindings text template tally).2) := by
  cases hnext : f.expandNext? job tally with
  | none =>
    rw [firstRepeat?_eq_none (expandNext?_eq_none_iff.1 hnext)] at h
    cases h
  | some result =>
    obtain ⟨g, tally'⟩ := result
    obtain ⟨text', template', hfirst, rfl, rfl⟩ :=
      exists_template_of_round (expandNext?_eq_some_iff.1 hnext)
    obtain ⟨rfl, rfl⟩ : text' = text ∧ template' = template := by
      rw [h] at hfirst
      simpa using hfirst.symm
    rw [nextCopies_of_firstRepeat? h]

/-- What a document has become by rounds that found something each, with the copies that each round
has made. Their number is not bounded. -/
inductive Rounds (job : Job) (document : Forest) :
    List (List Forest) → Forest → ExpansionTally → Prop where
  | start : Rounds job document [] document {}
  | next {made : List (List Forest)} {f g : Forest} {tally tally' : ExpansionTally}
      (before : Rounds job document made f tally)
      (round : f.expandNext? job tally = some (g, tally')) :
      Rounds job document (made ++ [f.nextCopies job tally]) g tally'

namespace Rounds

variable {job : Job} {document f : Forest} {made : List (List Forest)} {tally : ExpansionTally}

/-- Expansion is rounds one after the other. -/
theorem of_expand (job : Job) (document : Forest) :
    ∃ made, Rounds job document made (document.expand job).1 (document.expand job).2 :=
  expandRounds_induction (fun f tally => ∃ made, Rounds job document made f tally)
    (fun h hround => h.elim fun _ before => ⟨_, before.next hround⟩) _ ⟨[], .start⟩

/-- Each round that is done leaves one round less to come. -/
theorem length_add_pendingRounds_le (h : Rounds job document made f tally) :
    made.length + f.pendingRounds job.settings.repeatAttribute job.data.longestList ≤
      document.pendingRounds job.settings.repeatAttribute job.data.longestList := by
  induction h with
  | start => exact Nat.le_of_eq (Nat.zero_add _)
  | next before round ih =>
    have hlt := pendingRounds_expandNext?_lt round
    rw [List.length_append, List.length_singleton]
    omega

end Rounds

/-! ## How many rounds there can be -/

/-- A repeat takes at most one round for each choice of items of the repeats around it. Those
around all of the siblings count, too. -/
theorem pow_mul_pendingRounds_le (job : Job) (most deepest : Nat) (f : Forest) (around : List Tag)
    (h : ∀ o ∈ f.occurrencesWithin around, o.countOnWay job.isRepeated ≤ deepest) :
    max 1 most ^ around.countP job.isRepeated *
        f.pendingRounds job.settings.repeatAttribute most ≤
      (f.occurrencesWithin around).countP (Occurrence.isElement job.isRepeated) *
        max 1 most ^ (deepest - 1) := by
  induction f generalizing around with
  | nil => exact Nat.zero_le _
  | text content next ih =>
    rw [occurrencesWithin, List.countP_cons_of_neg Bool.false_ne_true]
    exact ih around fun o ho => h o (.tail _ ho)
  | element tag children next ihc ihn =>
    have htag := h ⟨around, .element tag⟩ (.head _)
    have hchildren := ihc (around ++ [tag]) fun o ho => h o (.tail _ (List.mem_append_left _ ho))
    have hnext := ihn around fun o ho => h o (.tail _ (List.mem_append_right _ ho))
    have hwithin : (around ++ [tag]).countP job.isRepeated =
        around.countP job.isRepeated + (job.isRepeated tag).toNat := by
      rw [List.countP_append]
      cases hkind : job.isRepeated tag <;> simp [hkind]
    rw [hwithin] at hchildren
    rw [occurrencesWithin, List.countP_cons, List.countP_append, pendingRounds]
    change around.countP job.isRepeated + (job.isRepeated tag).toNat ≤ deepest at htag
    show _ * ((if job.isRepeated tag = true then _ else _) + _) ≤
      (_ + (if job.isRepeated tag = true then 1 else 0)) * _
    cases hkind : job.isRepeated tag with
    | false =>
      rw [hkind] at hchildren
      rw [if_neg Bool.false_ne_true, if_neg Bool.false_ne_true, Nat.mul_add, Nat.add_mul,
        Nat.add_mul, Nat.zero_mul, Nat.add_zero]
      exact Nat.add_le_add hchildren hnext
    | true =>
      rw [hkind] at hchildren htag
      have hpos : 0 < max 1 most := by omega
      -- The round for the repeat itself, in each of its copies.
      have hself : max 1 most ^ around.countP job.isRepeated ≤ max 1 most ^ (deepest - 1) := by
        refine Nat.pow_le_pow_right hpos ?_
        simp only [Bool.toNat_true] at htag
        omega
      -- The rounds within it, in one copy for each item.
      have hinside : max 1 most ^ around.countP job.isRepeated *
          (most * children.pendingRounds job.settings.repeatAttribute most) ≤
            (children.occurrencesWithin (around ++ [tag])).countP
              (Occurrence.isElement job.isRepeated) * max 1 most ^ (deepest - 1) := by
        refine Nat.le_trans ?_ hchildren
        rw [Bool.toNat_true, Nat.pow_succ, Nat.mul_assoc]
        exact Nat.mul_le_mul_left _ (Nat.mul_le_mul_right _ (Nat.le_max_right 1 most))
      rw [if_pos rfl, if_pos rfl, Nat.mul_add, Nat.mul_add, Nat.mul_one, Nat.add_mul, Nat.add_mul,
        Nat.one_mul]
      omega

/-- If at most a number of repeats are nested, then of the rounds of expansion at most this many
find something: the number of repeats, times the length of the longest list for each repeat that
can stand around one of them. After them no element has a directive, so that no round finds
anything any more. -/
theorem length_rounds_le (job : Job) (document : Forest) (deepest : Nat)
    (h : ∀ o ∈ document.occurrences, o.countOnWay job.isRepeated ≤ deepest) :
    let most := document.occurrences.countP (Occurrence.isElement job.isRepeated) *
      max 1 job.data.longestList ^ (deepest - 1)
    let final := document.expand job
    (∀ made f tally, Rounds job document made f tally → made.length ≤ most) ∧
      (∃ made, Rounds job document made final.1 final.2) ∧
      final.1.expandNext? job final.2 = none ∧
      final.1.hasAttribute job.settings.repeatAttribute = false := by
  intro most final
  have hnone : final.1.hasAttribute job.settings.repeatAttribute = false :=
    hasAttribute_expand job document
  refine ⟨fun made f tally hrounds => ?_, Rounds.of_expand job document,
    expandNext?_eq_none_iff.2 hnone, hnone⟩
  calc made.length
      ≤ document.pendingRounds job.settings.repeatAttribute job.data.longestList :=
        Nat.le_trans (Nat.le_add_right _ _) hrounds.length_add_pendingRounds_le
    _ = max 1 job.data.longestList ^ List.countP job.isRepeated [] *
          document.pendingRounds job.settings.repeatAttribute job.data.longestList := by
        rw [List.countP_nil, Nat.pow_zero, Nat.one_mul]
    _ ≤ most := pow_mul_pendingRounds_le job job.data.longestList deepest document [] h

/-- Two repeats stand within a third one. Its copies are two, so the rounds are five; three repeats
and at most three items allow for nine. -/
theorem length_rounds_le_nested :
    let job : Job := ⟨{}, .empty, .record [("xs", .list [.null, .null]),
      ("ys", .list [.null, .null, .null])]⟩
    let inner (next : Forest) : Forest :=
      .element ⟨"li", .ofList [("data-repeat", "y in Model.ys")]⟩ .nil next
    let document : Forest :=
      .element ⟨"ul", .ofList [("data-repeat", "x in Model.xs")]⟩ (inner (inner .nil)) .nil
    (∀ o ∈ document.occurrences, o.countOnWay job.isRepeated ≤ 2) ∧
      (∀ made f tally, Rounds job document made f tally → made.length ≤ 9) ∧
      (document.expand job).2.expanded = 5 ∧
      (document.expand job).1.hasAttribute "data-repeat" = false := by
  intro job inner document
  have hdeepest : ∀ o ∈ document.occurrences, o.countOnWay job.isRepeated ≤ 2 := by
    decide +kernel
  obtain ⟨hrounds, -, -, hnone⟩ := length_rounds_le job document 2 hdeepest
  have hmost : document.occurrences.countP (Occurrence.isElement job.isRepeated) *
      max 1 job.data.longestList ^ (2 - 1) = 9 := by decide +kernel
  exact ⟨hdeepest, fun made f tally h => hmost ▸ hrounds made f tally h, by decide +kernel, hnone⟩

end Forest

end FormLetter
