import FormLetter.Proofs.Rereading

/-!
# Texts that are filled in twice

Filling in a text a second time changes nothing if no placeholder with a value reaches into a value
of the first time. Such a placeholder can be a part of a value, begin or end in one, or stand
around one.

* `FieldSource.fillChars_fillChars_eq_iff`: only the pieces between the first value and the last
  one matter.
* `FieldSource.flatMap_fillPiece_eq_iff_keeps`: values that do not begin with a bracket change every
  text that they are put into.
* `FieldSource.fill_again`: when the second time changes nothing.
-/

namespace FormLetter

namespace FieldSource

variable {source : FieldSource}

/-- What stands before the first value and behind the last one is found again alone, and stays. -/
theorem fillChars_of_keeps {ps : List Piece} (hscanned : Scanned ps)
    (h : ∀ x ∈ ps, source.Keeps x) :
    source.fillChars (ps.flatMap Piece.source) = ps.flatMap Piece.source := by
  rw [fillChars, hscanned, flatMap_fillPiece_of_keeps false h]

/-- Filling in twice gives what filling in once gives exactly if the second time leaves the pieces
that reach into the text from the first value on to the last one as they are. -/
theorem fillChars_fillChars_eq_iff {cs : List Char} {left middle right : List Piece}
    (hpieces : pieces cs = left ++ (middle ++ right)) (hleft : ∀ x ∈ left, source.Keeps x)
    (hright : ∀ x ∈ right, source.Keeps x) :
    source.fillChars (source.fillChars cs) = source.fillChars cs ↔
      let start := (left.flatMap Piece.source).length
      let across := reaching start (start + (middle.flatMap (source.fillPiece false)).length)
        (pieces (source.fillChars cs))
      across.flatMap (source.fillPiece false) = across.flatMap Piece.source := by
  have hall : Scanned (left ++ (middle ++ right)) := hpieces ▸ scanned_pieces cs
  have honce : source.fillChars cs = left.flatMap Piece.source ++
      (middle.flatMap (source.fillPiece false) ++ right.flatMap Piece.source) := by
    rw [fillChars, hpieces, List.flatMap_append, List.flatMap_append,
      flatMap_fillPiece_of_keeps false hleft, flatMap_fillPiece_of_keeps false hright]
  have hiff := source.fillChars_append_iff (left.flatMap Piece.source)
    (middle.flatMap (source.fillPiece false)) (right.flatMap Piece.source)
  rw [fillChars_of_keeps hall.of_append.1 hleft,
    fillChars_of_keeps hall.of_append.2.of_append.2 hright] at hiff
  rw [honce]
  exact hiff

/-- The second time changes nothing if no placeholder that reaches into a value has a value. -/
theorem fillChars_fillChars_of_introduces {cs : List Char}
    (h : ∀ p, source.Introduces cs p → source.get? p.path = none) :
    source.fillChars (source.fillChars cs) = source.fillChars cs := by
  have hkeeps : ∀ x ∈ pieces (source.fillChars cs), source.Keeps x := by
    rintro x hx w p rfl
    rcases mem_pieces_or_introduces hx with ⟨-, hnone⟩ | hintroduced
    · exact hnone
    · exact h p hintroduced
  exact (flatMap_fillPiece_of_keeps false hkeeps).trans (source_pieces _)

/-- A value that does not begin with an opening bracket differs from every placeholder in its
first character. So together such values leave a text as it is only if none is put in. -/
theorem flatMap_fillPiece_eq_iff_keeps
    (hvalues : ∀ path value, source.get? path = some value → value.toList.head? ≠ some '[')
    {ps : List Piece} (hwritten : ∀ w p, Piece.field w p ∈ ps → p.Written w) :
    ps.flatMap (source.fillPiece false) = ps.flatMap Piece.source ↔
      ∀ x ∈ ps, source.Keeps x := by
  refine ⟨fun h => ?_, flatMap_fillPiece_of_keeps false⟩
  induction ps with
  | nil => exact List.forall_mem_nil _
  | cons x ps ih =>
    have htail := ih fun w p hmem => hwritten w p (.tail _ hmem)
    rw [List.flatMap_cons, List.flatMap_cons] at h
    rcases source.keeps_or_exists x with hkeeps | ⟨w, p, value, rfl, hvalue, hx⟩
    · rw [hkeeps.fillPiece_eq] at h
      exact List.forall_mem_cons.2 ⟨hkeeps, htail (List.append_cancel_left h)⟩
    · obtain ⟨content, rfl, -⟩ := hwritten w p (.head _)
      obtain ⟨c, cs, hcs⟩ := List.exists_cons_of_ne_nil (toList_ne_nil_of_get? hvalue)
      rw [hx, hcs] at h
      obtain ⟨rfl, -⟩ := List.cons.inj h
      exact absurd (congrArg List.head? hcs) (hvalues _ _ hvalue)

/-- Filling in a text twice gives what filling it in once gives exactly if the second time leaves
the pieces that reach into the text from the first value on to the last one as they are. It does
so if no placeholder that reaches into a value has a value itself, and only then if no value begins
with an opening bracket. -/
theorem fill_again (source : FieldSource) (s : String) :
    let once := source.fill false s
    let twice := source.fill false once
    (∀ left middle right, pieces s.toList = left ++ (middle ++ right) →
      (∀ x ∈ left, source.Keeps x) → (∀ x ∈ right, source.Keeps x) →
      (twice = once ↔
        let start := (left.flatMap Piece.source).length
        let across := reaching start (start + (middle.flatMap (source.fillPiece false)).length)
          (pieces once.toList)
        across.flatMap (source.fillPiece false) = across.flatMap Piece.source)) ∧
    ((∀ p, source.Introduces s.toList p → source.get? p.path = none) → twice = once) ∧
    ((∀ path value, source.get? path = some value → value.toList.head? ≠ some '[') →
      twice = once → ∀ p, source.Introduces s.toList p → source.get? p.path = none) := by
  simp only [← String.toList_inj, toList_fill]
  refine ⟨fun _ _ _ => fillChars_fillChars_eq_iff, fillChars_fillChars_of_introduces, ?_⟩
  intro hvalues htwice p hintroduced
  have hkeeps : ∀ x ∈ pieces (source.fillChars s.toList), source.Keeps x := by
    refine (flatMap_fillPiece_eq_iff_keeps hvalues fun _ _ => written_of_mem_pieces).1 ?_
    rw [source_pieces]
    exact htwice
  obtain ⟨before, w, q, behind, value, -, -, written, hreaches⟩ := hintroduced
  exact hkeeps _ (mem_of_mem_reaching hreaches) written p rfl

/-- A value that is a placeholder gives way to the value of that one at the second time. And two
brackets on either side of a value make it the path of a placeholder. -/
theorem fill_again_changes :
    let nested := ofValues (.ofList [("a", "[[b]]"), ("b", "x")])
    let bare := ofValues (.ofList [("a", "b"), ("b", "x")])
    nested.fill false "[[a]]" = "[[b]]" ∧
      nested.fill false (nested.fill false "[[a]]") = "x" ∧
      nested.fill false (nested.fill false "[[a]]") ≠ nested.fill false "[[a]]" ∧
      bare.fill false "[[[[a]]]]" = "[[b]]" ∧
      bare.fill false (bare.fill false "[[[[a]]]]") ≠ bare.fill false "[[[[a]]]]" := by
  decide +kernel

end FieldSource

end FormLetter
