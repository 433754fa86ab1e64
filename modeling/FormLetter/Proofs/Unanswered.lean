import FormLetter.Proofs.Scope

/-!
# Placeholders that an item does not answer

A repeat never takes a field value for a placeholder that begins with its variable, whether its
item has a text for it or not. But it leaves a placeholder without a text as it is written, and the
last pass does not know of the variable any more. So a field value under the full path takes the
place of such a placeholder in the letter.

* `FieldSource.fill_append_field`: what a pass puts in the place of a placeholder.
* `Place.expanded_of_unanswered`: a placeholder that no repeat around it answers outlasts them all.
* `Renderer.render_unanswered`: what the letter shows, and when it still shows the placeholder.
-/

namespace FormLetter

/-! ## One pass -/

namespace FieldSource

variable {source : FieldSource} {p : Placeholder} {first written last : String}

/-- What stands before and behind a placeholder is filled in as if it stood alone. -/
theorem fill_append_field (source : FieldSource) (escaped : Bool) (hp : p.Written written.toList)
    (first last : String) :
    source.fill escaped (first ++ written ++ last) =
      source.fill escaped first ++
        String.ofList (source.fillPiece escaped (.field written.toList p)) ++
          source.fill escaped last := by
  apply String.toList_inj.1
  simp only [fill, String.toList_append, String.toList_ofList, List.append_assoc]
  rw [pieces_append_field hp, List.flatMap_append, List.flatMap_cons]

theorem fill_append_of_get?_eq_none (escaped : Bool) (hp : p.Written written.toList)
    (h : source.get? p.path = none) (first last : String) :
    source.fill escaped (first ++ written ++ last) =
      source.fill escaped first ++ written ++ source.fill escaped last := by
  rw [fill_append_field source escaped hp, fillPiece, h, String.ofList_toList]

end FieldSource

/-! ## Places -/

namespace Place

variable {job : Job} {p : Placeholder} {first written last : String}

/-- A placeholder that none of the repeats around it answers is left to the last pass. -/
theorem expanded_of_unanswered {bindings : List Binding} (hp : p.Written written.toList)
    (h : ∀ b ∈ bindings, (job.sourceOf b).get? p.path = none) (first last : String) :
    expanded job ⟨bindings, first ++ written ++ last⟩ =
      expanded job ⟨bindings, first⟩ ++ written ++ expanded job ⟨bindings, last⟩ := by
  induction bindings generalizing first last with
  | nil => rfl
  | cons b bindings ih =>
    obtain ⟨hb, hbindings⟩ := List.forall_mem_cons.1 h
    have hstep := FieldSource.fill_append_of_get?_eq_none false hp hb first last
    show expanded job ⟨bindings, (job.sourceOf b).fill false (first ++ written ++ last)⟩ = _
    rw [hstep]
    exact ih hbindings _ _

/-- The last pass puts in the field value under the full path, if there is one. -/
theorem shown_of_unanswered {bindings : List Binding} (hp : p.Written written.toList)
    (h : ∀ b ∈ bindings, (job.sourceOf b).get? p.path = none) (first last : String) :
    shown job ⟨bindings, first ++ written ++ last⟩ =
      shown job ⟨bindings, first⟩ ++
        ((FieldSource.ofValues job.values).get? p.path).getD written ++
          shown job ⟨bindings, last⟩ := by
  rw [shown, expanded_of_unanswered hp h, FieldSource.fill_append_field _ false hp,
    FieldSource.fillPiece]
  cases (FieldSource.ofValues job.values).get? p.path with
  | none =>
    dsimp only
    rw [String.ofList_toList]
    rfl
  | some value =>
    dsimp only
    rw [if_neg Bool.false_ne_true, String.ofList_toList]
    rfl

end Place

/-- No text without brackets is a written placeholder. -/
theorem Placeholder.Written.ne_of_bracketFree {p : Placeholder} {w value : List Char}
    (hw : p.Written w) (hvalue : BracketFree value) : value ≠ w := by
  rintro rfl
  obtain ⟨content, rfl, -⟩ := hw
  exact absurd (hvalue '[' (by simp)) (by decide)

/-! ## Letters -/

/-- A letter shows the places of its draft. Where the template has a placeholder for a field of the
only repeat around it, and the item has no text for the field, the letter shows the field value
under the full path if there is one, and the placeholder as it is written if there is none. -/
theorem Renderer.render_unanswered (r : Renderer) (document : Forest) (values : Entries String)
    (data : Datum) :
    let job := r.job values data
    let lastPass := FieldSource.ofValues values
    (r.render document values data).document = (job.draft document).letter job ∧
      ∀ b first written last rest, ∀ p : Placeholder,
        ⟨[b], first ++ written ++ last⟩ ∈ (job.draft document).places →
        p.Written written.toList → b.pathWithin? p.path = some rest → b.get? rest = none →
        Place.shown job ⟨[b], first ++ written ++ last⟩ =
            Place.shown job ⟨[b], first⟩ ++ (lastPass.get? p.path).getD written ++
              Place.shown job ⟨[b], last⟩ ∧
          ((∀ e ∈ values.toList, BracketFree e.2.toList) →
            (Place.shown job ⟨[b], first ++ written ++ last⟩ =
                Place.shown job ⟨[b], first⟩ ++ written ++ Place.shown job ⟨[b], last⟩ ↔
              lastPass.get? p.path = none)) := by
  intro job lastPass
  refine ⟨document_render r document values data, ?_⟩
  intro b first written last rest p _ hp hrest hnone
  have hunanswered : ∀ c ∈ [b], (job.sourceOf c).get? p.path = none := by
    intro c hc
    rw [List.mem_singleton.1 hc, Job.get?_sourceOf hrest, hnone]
  have hshown := Place.shown_of_unanswered hp hunanswered first last
  refine ⟨hshown, fun hvalues => ?_⟩
  rw [hshown]
  show _ ++ (lastPass.get? p.path).getD written ++ _ = _ ↔ _
  cases hvalue : lastPass.get? p.path with
  | none => exact ⟨fun _ => rfl, fun _ => rfl⟩
  | some value =>
    refine ⟨fun heq => ?_, nofun⟩
    have hsame : value.toList = written.toList := by
      simpa [← String.toList_inj, String.toList_append] using heq
    have hfree := FieldSource.givesBracketFree_ofValues hvalues p.path value hvalue
    exact absurd hsame (hp.ne_of_bracketFree hfree)

/-- The item has nothing under the name. The repeat leaves the placeholder alone, and the last pass
puts in the field value that the repeat would not take. -/
theorem render_unanswered_field_value :
    let item : Datum := .record []
    let data : Datum := .record [("xs", .list [item])]
    let values : Entries String := .ofList [("k.n", "V")]
    let document : Forest :=
      .element ⟨"p", .ofList [("data-repeat", "k in Model.xs")]⟩ (.text "[[k.n]]" .nil) .nil
    let job := Renderer.default.job values data
    (∀ e ∈ values.toList, BracketFree e.2.toList) ∧ (∀ s ∈ data.texts, BracketFree s.toList) ∧
      Binding.get? ⟨"k", item⟩ "n" = none ∧
      (document.expand job).1 = .element ⟨"p", .empty⟩ (.text "[[k.n]]" .nil) .nil ∧
      (Renderer.default.render document values data).document =
        .element ⟨"p", .empty⟩ (.text "V" .nil) .nil ∧
      (Renderer.default.render document values data).document ≠
        .element ⟨"p", .empty⟩ (.text "[[k.n]]" .nil) .nil := by
  decide +kernel

end FormLetter
