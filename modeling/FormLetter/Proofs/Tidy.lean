import FormLetter.Proofs.Scope

/-!
# Tidy texts

A text is tidy if each of its brackets is one of a placeholder. No placeholder reaches over the end
of a tidy text, so a row of tidy texts has the placeholders of its parts and no others. That is why
a pass that puts in values without brackets takes away the placeholders that have a value, and does
nothing else to them.

* `Tidy.pieces_append`: the pieces of a tidy text do not depend on what follows it.
* `FieldSource.placeholders_fill`: the placeholders of a filled text are those without a value.
* `FieldSource.tidy_fill`, `Forest.forall_contents_expand`: texts and documents stay tidy.
-/

namespace FormLetter

/-- Whether a piece is not a bracket that stands for itself. -/
def Piece.isTidy : Piece → Bool
  | .plain c => !isBracket c
  | .field _ _ => true

/-- Each bracket of a text is one of a placeholder. -/
def Tidy (cs : List Char) : Prop := ∀ x ∈ pieces cs, x.isTidy = true

instance (cs : List Char) : Decidable (Tidy cs) := List.decidableBAll _ _

/-! ## Texts in a row -/

section

variable {cs w : List Char} {p : Placeholder}

theorem readFirst?_of_isBracket_eq_false {c : Char} (hc : isBracket c = false) (cs : List Char) :
    Placeholder.readFirst? (c :: cs) = none := by
  cases hread : Placeholder.readFirst? (c :: cs) with
  | none => rfl
  | some r =>
    obtain ⟨source, p, rest⟩ := r
    obtain ⟨heq, content, rfl, -⟩ := Placeholder.readFirst?_eq_some_iff.1 hread
    obtain ⟨rfl, -⟩ := List.cons.inj heq
    cases hc

theorem BracketFree.pieces_eq (h : BracketFree cs) : pieces cs = cs.map .plain := by
  refine pieces_eq_map_plain fun before c behind he => readFirst?_of_isBracket_eq_false (h c ?_) _
  rw [he]
  exact List.mem_append_right _ (.head _)

theorem BracketFree.tidy (h : BracketFree cs) : Tidy cs := by
  rw [Tidy, h.pieces_eq, List.forall_mem_map]
  intro c hc
  rw [Piece.isTidy, h c hc]
  rfl

theorem Placeholder.Written.pieces_eq (hw : p.Written w) : pieces w = [.field w p] := by
  have h := pieces_append_of_written hw []
  rwa [List.append_nil, pieces_nil] at h

theorem Placeholder.Written.tidy (hw : p.Written w) : Tidy w := by
  rw [Tidy, hw.pieces_eq, List.forall_mem_singleton]
  rfl

/-- What follows a tidy text changes none of its pieces. -/
theorem Tidy.pieces_append (h : Tidy cs) (ds : List Char) :
    pieces (cs ++ ds) = pieces cs ++ pieces ds := by
  induction cs using pieces_induction with
  | nil =>
    rw [pieces_nil]
    rfl
  | plain c cs hnone ih =>
    rw [Tidy, pieces_cons hnone, List.forall_mem_cons] at h
    obtain ⟨hc, hcs⟩ := h
    have hplain := readFirst?_of_isBracket_eq_false (by simpa [Piece.isTidy] using hc) (cs ++ ds)
    rw [List.cons_append, pieces_cons hplain, ih hcs, pieces_cons hnone, List.cons_append]
  | field w p cs hw ih =>
    rw [Tidy, pieces_append_of_written hw, List.forall_mem_cons] at h
    rw [List.append_assoc, pieces_append_of_written hw, pieces_append_of_written hw, ih h.2,
      List.cons_append]

end

/-- A row of tidy texts has the pieces of its parts. -/
theorem pieces_flatMap {α : Type} {f : α → List Char} {xs : List α} (h : ∀ x ∈ xs, Tidy (f x)) :
    pieces (xs.flatMap f) = xs.flatMap fun x => pieces (f x) := by
  induction xs with
  | nil => exact pieces_nil
  | cons x xs ih =>
    obtain ⟨hx, hxs⟩ := List.forall_mem_cons.1 h
    rw [List.flatMap_cons, hx.pieces_append, ih hxs, List.flatMap_cons]

theorem Tidy.flatMap {α : Type} {f : α → List Char} {xs : List α} (h : ∀ x ∈ xs, Tidy (f x)) :
    Tidy (xs.flatMap f) := by
  intro y hy
  rw [pieces_flatMap h] at hy
  obtain ⟨x, hx, hy⟩ := List.mem_flatMap.1 hy
  exact h x hx y hy

/-! ## Filling in tidy texts -/

theorem bracketFree_escape {cs : List Char} (h : BracketFree cs) : BracketFree (escape cs) := by
  induction cs with
  | nil => exact h
  | cons c cs ih =>
    obtain ⟨hc, hcs⟩ := List.forall_mem_cons.1 h
    rw [escape]
    split
    · exact .cons (by decide) (.cons hc (ih hcs))
    · exact .cons hc (ih hcs)

theorem BracketFree.placeholders_eq {cs : List Char} (h : BracketFree cs) :
    (pieces cs).filterMap Piece.placeholder? = [] := by
  rw [h.pieces_eq, List.filterMap_map]
  exact List.filterMap_eq_nil_iff.2 fun _ _ => rfl

namespace FieldSource

variable {source : FieldSource}

/-- What stands for a piece of a tidy text is tidy, and it is a placeholder exactly if the piece is
one without a value. -/
theorem tidy_fillPiece (hsource : source.GivesBracketFree) (escaped : Bool) {cs : List Char}
    (h : Tidy cs) {x : Piece} (hx : x ∈ pieces cs) :
    Tidy (source.fillPiece escaped x) ∧
      (pieces (source.fillPiece escaped x)).filterMap Piece.placeholder? =
        x.placeholder?.toList.filter fun p => (source.get? p.path).isNone := by
  cases x with
  | plain c =>
    have hc : isBracket c = false := by simpa [Piece.isTidy] using h _ hx
    have hfree : BracketFree [c] := List.forall_mem_singleton.2 hc
    exact ⟨hfree.tidy, hfree.placeholders_eq⟩
  | field w p =>
    have hw : p.Written w := written_of_mem_pieces hx
    rw [fillPiece]
    cases hvalue : source.get? p.path with
    | some value =>
      have hfree : BracketFree (if escaped then escape value.toList else value.toList) := by
        split
        · exact bracketFree_escape (hsource _ _ hvalue)
        · exact hsource _ _ hvalue
      refine ⟨hfree.tidy, ?_⟩
      rw [hfree.placeholders_eq]
      simp [Piece.placeholder?, hvalue]
    | none =>
      refine ⟨hw.tidy, ?_⟩
      rw [hw.pieces_eq]
      simp [Piece.placeholder?, hvalue]

/-- Filling in leaves a tidy text tidy. -/
theorem tidy_fill (hsource : source.GivesBracketFree) (escaped : Bool) {s : String}
    (h : Tidy s.toList) : Tidy (source.fill escaped s).toList := by
  rw [fill, String.toList_ofList]
  exact .flatMap fun x hx => (tidy_fillPiece hsource escaped h hx).1

/-- The placeholders of a filled text are those that have no value. -/
theorem placeholders_fill (hsource : source.GivesBracketFree) (escaped : Bool) {s : String}
    (h : Tidy s.toList) : placeholders (source.fill escaped s) =
      (placeholders s).filter fun p => (source.get? p.path).isNone := by
  have htidy : ∀ x ∈ pieces s.toList, Tidy (source.fillPiece escaped x) :=
    fun x hx => (tidy_fillPiece hsource escaped h hx).1
  rw [placeholders, fill, String.toList_ofList, pieces_flatMap htidy, List.filterMap_flatMap,
    placeholders, List.filterMap_eq_flatMap_toList, List.filter_flatMap]
  exact List.flatMap_congr fun x hx => (tidy_fillPiece hsource escaped h hx).2

/-- So no required placeholder without a value comes or goes. -/
theorem missing_fill (hsource : source.GivesBracketFree) (escaped : Bool) {s : String}
    (h : Tidy s.toList) : source.missing (source.fill escaped s) = source.missing s := by
  rw [missing, missing, placeholders_fill hsource escaped h, List.filter_filter]
  refine congrArg _ (List.filter_congr fun p _ => ?_)
  rw [Bool.and_assoc, Bool.and_self]

end FieldSource

/-! ## The texts of a document -/

namespace Forest

theorem contents_append (f g : Forest) : (f ++ g).contents = f.contents ++ g.contents := by
  induction f with
  | nil => rfl
  | text content next ih => exact congrArg (content :: ·) ih
  | element tag children next _ ih =>
    rw [element_append, contents, contents, ih]
    simp only [List.append_assoc]

theorem contents_join (forests : List Forest) :
    (join forests).contents = forests.flatMap contents := by
  induction forests with
  | nil => rfl
  | cons f forests ih =>
    show (f ++ join forests).contents = _
    rw [contents_append, ih, List.flatMap_cons]

section

variable {kind : String → Prop}

theorem forall_contents_element {tag : Tag} {children next : Forest} :
    (∀ s ∈ (element tag children next).contents, kind s) ↔
      (∀ a ∈ tag.attributes.toList, kind a.2) ∧ (∀ s ∈ children.contents, kind s) ∧
        ∀ s ∈ next.contents, kind s := by
  rw [contents, List.forall_mem_append, List.forall_mem_append, List.forall_mem_map, and_assoc]

/-- The texts of a filled document are filled texts. -/
theorem forall_contents_fill {source : FieldSource} {kind' : String → Prop}
    (hkind : ∀ escaped s, kind s → kind' (source.fill escaped s)) {f : Forest}
    (h : ∀ s ∈ f.contents, kind s) : ∀ s ∈ (f.fill source).contents, kind' s := by
  induction f with
  | nil => exact List.forall_mem_nil _
  | text content next ih =>
    obtain ⟨hcontent, hnext⟩ := List.forall_mem_cons.1 h
    exact List.forall_mem_cons.2 ⟨hkind false content hcontent, ih hnext⟩
  | element tag children next ihc ihn =>
    obtain ⟨htag, hchildren, hnext⟩ := forall_contents_element.1 h
    refine forall_contents_element.2 ⟨?_, ihc hchildren, ihn hnext⟩
    intro a ha
    obtain ⟨a', ha', rfl⟩ := List.mem_map.1 ha
    exact hkind _ _ (htag a' ha')

/-- Deciding about elements leaves no other texts. -/
theorem forall_contents_selectVisible (job : Job) {f : Forest} (h : ∀ s ∈ f.contents, kind s)
    (tally : VisibilityTally) : ∀ s ∈ (f.selectVisible job tally).1.contents, kind s := by
  induction f generalizing tally with
  | nil => exact h
  | text content next ih =>
    obtain ⟨hcontent, hnext⟩ := List.forall_mem_cons.1 h
    exact List.forall_mem_cons.2 ⟨hcontent, ih hnext tally⟩
  | element tag children next ihc ihn =>
    obtain ⟨htag, hchildren, hnext⟩ := forall_contents_element.1 h
    rw [selectVisible]
    rcases job.judgeTag tag tally with ⟨_ | _, tally'⟩
    · exact ihn hnext tally'
    · exact forall_contents_element.2
        ⟨fun a ha => htag a (Tag.mem_of_mem_without ha), ihc hchildren tally', ihn hnext _⟩

variable {job : Job}

/-- A kind of texts that is kept whenever items of the data are filled in is kept by a round of
expansion. -/
theorem forall_contents_expandNext?
    (hkind : ∀ b : Binding, b.IsFrom job.data → ∀ escaped s, kind s →
      kind ((job.sourceOf b).fill escaped s))
    {tally tally' : ExpansionTally} {f g : Forest} (hf : ∀ s ∈ f.contents, kind s)
    (h : f.expandNext? job tally = some (g, tally')) : ∀ s ∈ g.contents, kind s := by
  rw [expandNext?_eq_some_iff] at h
  induction h with
  | @unroll tag directive hdirective children next =>
    obtain ⟨htag, hchildren, hnext⟩ := forall_contents_element.1 hf
    have htemplate :
        ∀ s ∈ (element (tag.without job.settings.repeatAttribute) children nil).contents, kind s :=
      forall_contents_element.2
        ⟨fun a ha => htag a (Tag.mem_of_mem_without ha), hchildren, List.forall_mem_nil _⟩
    rw [contents_append, unroll_eq, contents_join, List.forall_mem_append]
    refine ⟨fun s hs => ?_, hnext⟩
    obtain ⟨copy, hcopy, hs⟩ := List.mem_flatMap.1 hs
    obtain ⟨b, hb, rfl⟩ := List.mem_map.1 hcopy
    exact forall_contents_fill (hkind b (Job.isFrom_of_mem_bindings hb)) htemplate s hs
  | text content round ih =>
    obtain ⟨hcontent, hnext⟩ := List.forall_mem_cons.1 hf
    exact List.forall_mem_cons.2 ⟨hcontent, ih hnext⟩
  | children hplain round next ih =>
    obtain ⟨htag, hchildren, hnext⟩ := forall_contents_element.1 hf
    exact forall_contents_element.2 ⟨htag, ih hchildren, hnext⟩
  | next hplain hchildren round ih =>
    obtain ⟨htag, hwithin, hnext⟩ := forall_contents_element.1 hf
    exact forall_contents_element.2 ⟨htag, hwithin, ih hnext⟩

/-- So is it by all rounds. -/
theorem forall_contents_expand
    (hkind : ∀ b : Binding, b.IsFrom job.data → ∀ escaped s, kind s →
      kind ((job.sourceOf b).fill escaped s))
    {f : Forest} (hf : ∀ s ∈ f.contents, kind s) : ∀ s ∈ (f.expand job).1.contents, kind s :=
  expandRounds_induction (fun g _ => ∀ s ∈ g.contents, kind s)
    (forall_contents_expandNext? hkind) _ hf

end

/-- A tidy document is tidy still when its repeats are expanded and its conditions decided. -/
theorem tidy_selectVisible_expand (job : Job)
    (hvalues : ∀ e ∈ job.values.toList, BracketFree e.2.toList)
    (hdata : ∀ s ∈ job.data.texts, BracketFree s.toList) {f : Forest}
    (hf : ∀ s ∈ f.contents, Tidy s.toList) (tally : VisibilityTally) :
    ∀ s ∈ ((f.expand job).1.selectVisible job tally).1.contents, Tidy s.toList := by
  refine forall_contents_selectVisible job (forall_contents_expand ?_ hf) tally
  intro b hb escaped s hs
  exact FieldSource.tidy_fill (job.givesBracketFree_sourceOf hvalues hdata hb) escaped hs

end Forest

end FormLetter
