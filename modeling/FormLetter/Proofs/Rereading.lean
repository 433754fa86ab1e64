import FormLetter.Proofs.Scope

/-!
# Texts that are read again

What a pass has put into a text is part of the text for the next pass, which looks for
placeholders there too. So a text of the data can be changed after it was put in, and a field can
be missing that no template asks for. Both happen only through placeholders that reach into a text
that was put in.

* `FieldSource.mem_pieces_or_introduces`: a pass adds no other placeholders to a text.
* `Place.mem_pieces_expanded`: neither do all passes over a place.
* `Renderer.render_put_in`: exactly when a text that was put in is shown as it is, and exactly when
  a field is missing that the template does not require.
-/

namespace FormLetter

namespace FieldSource

/-- The value put in for one of the pieces takes up characters from one place of the filled text
up to another. -/
def PutsIn (source : FieldSource) (ps : List Piece) (start stop : Nat) : Prop :=
  ∃ before w q behind value, ps = before ++ .field w q :: behind ∧
    source.get? q.path = some value ∧
    (before.flatMap (source.fillPiece false)).length < stop ∧
    start < (before.flatMap (source.fillPiece false)).length + value.toList.length

variable {source : FieldSource}

theorem PutsIn.cons {ps : List Piece} {start stop start' stop' : Nat}
    (h : source.PutsIn ps start stop) (x : Piece)
    (hstart : start' ≤ (source.fillPiece false x).length + start)
    (hstop : (source.fillPiece false x).length + stop ≤ stop') :
    source.PutsIn (x :: ps) start' stop' := by
  obtain ⟨before, w, q, behind, value, rfl, hvalue, hlt, hgt⟩ := h
  refine ⟨x :: before, w, q, behind, value, rfl, hvalue, ?_, ?_⟩
  · rw [List.flatMap_cons, List.length_append]
    omega
  · rw [List.flatMap_cons, List.length_append]
    omega

variable (source) in
/-- No value is put in for the piece. -/
def Keeps (x : Piece) : Prop := ∀ w q, x = .field w q → source.get? q.path = none

theorem Keeps.fillPiece_eq {x : Piece} (h : source.Keeps x) (escaped : Bool) :
    source.fillPiece escaped x = x.source := by
  cases x with
  | plain c => rfl
  | field w q =>
    rw [fillPiece, h w q rfl]
    rfl

/-- Pieces for which no value is put in stay as they are written. -/
theorem flatMap_fillPiece_of_keeps (escaped : Bool) {ps : List Piece}
    (h : ∀ x ∈ ps, source.Keeps x) :
    ps.flatMap (source.fillPiece escaped) = ps.flatMap Piece.source :=
  List.flatMap_congr fun x hx => (h x hx).fillPiece_eq escaped

variable (source) in
/-- A piece stays as it is written, or a value is put in for it. -/
theorem keeps_or_exists (x : Piece) :
    source.Keeps x ∨ ∃ w q value, x = .field w q ∧ source.get? q.path = some value ∧
      source.fillPiece false x = value.toList := by
  cases x with
  | plain c => exact .inl fun _ _ h => (nomatch h)
  | field w q =>
    rw [fillPiece_field]
    cases hvalue : source.get? q.path with
    | none =>
      refine .inl fun w' q' h => ?_
      cases h
      exact hvalue
    | some value => exact .inr ⟨w, q, value, rfl, hvalue, rfl⟩

/-- The beginning of a filled text takes up characters of a value, or it stands there before, in
pieces that stay. -/
theorem putsIn_or_exists_prefix {ps : List Piece} {w last : List Char}
    (h : ps.flatMap (source.fillPiece false) = w ++ last) :
    source.PutsIn ps 0 w.length ∨
      ∃ kept right behind, ps = kept ++ right ∧ (∀ x ∈ kept, source.Keeps x) ∧
        kept.flatMap Piece.source = w ++ behind := by
  induction ps generalizing w with
  | nil =>
    obtain ⟨rfl, -⟩ := List.append_eq_nil_iff.1 h.symm
    exact .inr ⟨[], [], [], rfl, List.forall_mem_nil _, rfl⟩
  | cons x ps ih =>
    obtain rfl | hw := eq_or_ne w []
    · exact .inr ⟨[], _, [], rfl, List.forall_mem_nil _, rfl⟩
    have hpos := List.length_pos_iff.2 hw
    rw [List.flatMap_cons] at h
    rcases source.keeps_or_exists x with hkeeps | ⟨w', q, value, rfl, hvalue, -⟩
    · have hx := hkeeps.fillPiece_eq false
      rw [hx] at h
      rcases List.append_eq_append_iff.1 h with ⟨w₂, rfl, hps⟩ | ⟨more, hsource, -⟩
      · rcases ih hps with hin | ⟨kept, right, behind, rfl, hkept, heq⟩
        · rw [List.length_append]
          exact .inl (hin.cons x (Nat.zero_le _) (by rw [hx]))
        · refine .inr ⟨x :: kept, right, behind, rfl, List.forall_mem_cons.2 ⟨hkeeps, hkept⟩, ?_⟩
          rw [List.flatMap_cons, heq, List.append_assoc]
      · refine .inr ⟨[x], ps, more, rfl, List.forall_mem_singleton.2 hkeeps, ?_⟩
        rw [List.flatMap_singleton, hsource]
    · have hvaluePos := List.length_pos_iff.2 (toList_ne_nil_of_get? hvalue)
      exact .inl ⟨[], w', q, ps, value, rfl, hvalue, hpos, by simpa using hvaluePos⟩

/-- A part of a filled text takes up characters of a value, or it stands there before, in pieces
that stay. -/
theorem putsIn_or_exists_kept {ps : List Piece} {first w last : List Char} (hw : w ≠ [])
    (h : ps.flatMap (source.fillPiece false) = first ++ (w ++ last)) :
    source.PutsIn ps first.length (first.length + w.length) ∨
      ∃ left kept right before behind, ps = left ++ (kept ++ right) ∧
        (∀ x ∈ kept, source.Keeps x) ∧ kept.flatMap Piece.source = before ++ (w ++ behind) := by
  induction ps generalizing first with
  | nil =>
    obtain ⟨-, hnil⟩ := List.append_eq_nil_iff.1 h.symm
    exact absurd (List.append_eq_nil_iff.1 hnil).1 hw
  | cons x ps ih =>
    have hpos := List.length_pos_iff.2 hw
    rw [List.flatMap_cons] at h
    rcases Nat.lt_or_ge first.length (source.fillPiece false x).length with hlt | hge
    · -- The part begins within the piece, or right behind it.
      obtain ⟨rest, hrest⟩ := List.prefix_of_prefix_length_le ⟨_, h.symm⟩ ⟨_, rfl⟩
        (Nat.le_of_lt hlt)
      rcases source.keeps_or_exists x with hkeeps | ⟨w', q, value, rfl, hvalue, hx⟩
      · have hx := hkeeps.fillPiece_eq false
        rw [← hrest, List.append_assoc] at h
        rcases List.append_eq_append_iff.1 (List.append_cancel_left h) with
          ⟨w₂, rfl, hps⟩ | ⟨more, rfl, -⟩
        · rcases putsIn_or_exists_prefix hps with hin | ⟨kept, right, behind, rfl, hkept, heq⟩
          · refine .inl (hin.cons x (by omega) ?_)
            rw [← hrest, List.length_append, List.length_append]
            omega
          · refine .inr ⟨[], x :: kept, right, first, behind, rfl,
              List.forall_mem_cons.2 ⟨hkeeps, hkept⟩, ?_⟩
            rw [List.flatMap_cons, heq, ← hx, ← hrest]
            simp only [List.append_assoc]
        · refine .inr ⟨[], [x], ps, first, more, rfl, List.forall_mem_singleton.2 hkeeps, ?_⟩
          rw [List.flatMap_singleton, ← hx, ← hrest]
      · rw [hx] at hlt
        refine .inl ⟨[], w', q, ps, value, rfl, hvalue, ?_, ?_⟩
        · rw [List.flatMap_nil, List.length_nil]
          omega
        · rw [List.flatMap_nil, List.length_nil]
          omega
    · obtain ⟨first₂, rfl⟩ := List.prefix_of_prefix_length_le ⟨_, h⟩ ⟨_, rfl⟩ hge
      rw [List.append_assoc] at h
      rcases ih (List.append_cancel_left h) with
        hin | ⟨left, kept, right, before, behind, rfl, hkept, heq⟩
      · refine .inl (hin.cons x ?_ ?_)
        · rw [List.length_append]
        · rw [List.length_append]
          omega
      · exact .inr ⟨x :: left, kept, right, before, behind, rfl, hkept, heq⟩

/-- A value is put into the text, and then the placeholder reaches into it. -/
def Introduces (source : FieldSource) (cs : List Char) (p : Placeholder) : Prop :=
  ∃ before w q behind value, pieces cs = before ++ .field w q :: behind ∧
    source.get? q.path = some value ∧
    let start := (before.flatMap (source.fillPiece false)).length
    ∃ written, .field written p ∈
      reaching start (start + value.toList.length) (pieces (source.fillChars cs))

/-- A placeholder of a filled text was there before and has no value, or it reaches into a value. -/
theorem mem_pieces_or_introduces {cs w : List Char} {p : Placeholder}
    (h : .field w p ∈ pieces (source.fillChars cs)) :
    .field w p ∈ pieces cs ∧ source.get? p.path = none ∨ source.Introduces cs p := by
  have hw := written_of_mem_pieces h
  obtain ⟨left, right, he⟩ := List.append_of_mem h
  have hfilled : source.fillChars cs =
      left.flatMap Piece.source ++ (w ++ right.flatMap Piece.source) := by
    rw [← source_pieces (source.fillChars cs), he, List.flatMap_append, List.flatMap_cons]
    rfl
  rcases putsIn_or_exists_kept hw.ne_nil hfilled with
    hin | ⟨first, kept, last, _, _, hps, hkept, heq⟩
  · obtain ⟨before, w', q, behind, value, hps, hvalue, hlt, hgt⟩ := hin
    refine .inr ⟨before, w', q, behind, value, hps, hvalue, w, ?_⟩
    rw [he]
    exact mem_reaching hw.ne_nil hlt hgt
  · -- The pieces that stay are found again in their part of the text, so it is one of them.
    have hall : Scanned (first ++ (kept ++ last)) := hps ▸ scanned_pieces cs
    have hscanned : Scanned kept := hall.of_append.2.of_append.1
    have hmem : .field w p ∈ kept := by
      rw [← hscanned, heq, pieces_append_field hw]
      exact List.mem_append_right _ (.head _)
    refine .inl ⟨?_, hkept _ hmem w p rfl⟩
    rw [hps]
    exact List.mem_append_right _ (List.mem_append_left _ hmem)

theorem mem_missing_iff {s path : String} :
    path ∈ source.missing s ↔ ⟨path, true⟩ ∈ placeholders s ∧ source.get? path = none := by
  rw [missing, List.mem_map]
  constructor
  · rintro ⟨p, hp, rfl⟩
    obtain ⟨hmem, hnone⟩ := List.mem_filter.1 hp
    rw [Bool.and_eq_true, Option.isNone_iff_eq_none] at hnone
    obtain ⟨path, required⟩ := p
    obtain rfl : required = true := hnone.1
    exact ⟨hmem, hnone.2⟩
  · rintro ⟨hmem, hnone⟩
    refine ⟨⟨path, true⟩, List.mem_filter.2 ⟨hmem, ?_⟩, rfl⟩
    rw [hnone]
    rfl

end FieldSource

namespace Place

variable {job : Job}

/-- A placeholder of an expanded place is one of the template, or one of the passes over the place
has made it reach into a value. -/
theorem mem_pieces_expanded {place : Place} {w : List Char} {p : Placeholder}
    (h : .field w p ∈ pieces (place.expanded job).toList) :
    .field w p ∈ pieces place.content.toList ∨
      ∃ outer b inner, place.bindings = outer ++ b :: inner ∧
        (job.sourceOf b).Introduces (Place.expanded job ⟨outer, place.content⟩).toList p := by
  obtain ⟨bindings, content⟩ := place
  induction bindings generalizing content with
  | nil => exact .inl h
  | cons b bindings ih =>
    rcases ih ((job.sourceOf b).fill false content) h with h | ⟨outer, b', inner, rfl, h⟩
    · rw [FieldSource.toList_fill] at h
      rcases FieldSource.mem_pieces_or_introduces h with ⟨h, -⟩ | h
      · exact .inl h
      · exact .inr ⟨[], b, bindings, rfl, h⟩
    · exact .inr ⟨b :: outer, b', inner, rfl, h⟩

/-- A repeat puts the text of its item in the place of a placeholder. -/
theorem expanded_eq {b : Binding} {first written last rest text : String} {p : Placeholder}
    (hp : p.Written written.toList) (hrest : b.pathWithin? p.path = some rest)
    (htext : b.get? rest = some text) :
    expanded job ⟨[b], first ++ written ++ last⟩ =
      expanded job ⟨[b], first⟩ ++ text ++ expanded job ⟨[b], last⟩ := by
  have hvalue : (job.sourceOf b).get? p.path = some text := by rw [Job.get?_sourceOf hrest, htext]
  apply String.toList_inj.1
  simp only [toList_expanded, String.toList_append, List.append_assoc]
  show (job.sourceOf b).fillChars _ =
    (job.sourceOf b).fillChars _ ++ (_ ++ (job.sourceOf b).fillChars _)
  rw [FieldSource.fillChars_append_field _ hp, hvalue]
  rfl

/-- The text of an item is shown as it is, and the rest as if it stood alone, exactly if the last
pass leaves the pieces that reach into the text as they are. -/
theorem shown_eq_iff {b : Binding} {first written last rest text : String} {p : Placeholder}
    (hp : p.Written written.toList) (hrest : b.pathWithin? p.path = some rest)
    (htext : b.get? rest = some text) :
    shown job ⟨[b], first ++ written ++ last⟩ =
        shown job ⟨[b], first⟩ ++ text ++ shown job ⟨[b], last⟩ ↔
      let start := (expanded job ⟨[b], first⟩).toList.length
      let across := reaching start (start + text.toList.length)
        (pieces (expanded job ⟨[b], first ++ written ++ last⟩).toList)
      across.flatMap ((FieldSource.ofValues job.values).fillPiece false) =
        across.flatMap Piece.source := by
  have hexpanded : expanded job ⟨[b], first ++ written ++ last⟩ =
      expanded job ⟨[b], first⟩ ++ text ++ expanded job ⟨[b], last⟩ := expanded_eq hp hrest htext
  have hiff := (FieldSource.ofValues job.values).fillChars_append_iff
    (expanded job ⟨[b], first⟩).toList text.toList (expanded job ⟨[b], last⟩).toList
  rw [hexpanded]
  simp only [← String.toList_inj, shown, String.toList_append, FieldSource.toList_fill, hexpanded,
    List.append_assoc]
  exact hiff

end Place

namespace Renderer

/-- A letter shows the places of its draft. The text of an item that the only repeat around a place
puts in is shown as it is exactly if the last pass leaves the pieces that reach into it as they
are. And a field that no text of the template requires is missing exactly if it has no value and
a placeholder that requires it reaches into a text that a pass puts in. -/
theorem render_put_in (r : Renderer) (document : Forest) (values : Entries String) (data : Datum) :
    let job := r.job values data
    let lastPass := FieldSource.ofValues values
    (r.render document values data).document = (job.draft document).letter job ∧
      (∀ b first written last rest text, ∀ p : Placeholder,
        ⟨[b], first ++ written ++ last⟩ ∈ (job.draft document).places →
        p.Written written.toList → b.pathWithin? p.path = some rest → b.get? rest = some text →
        (Place.shown job ⟨[b], first ++ written ++ last⟩ =
            Place.shown job ⟨[b], first⟩ ++ text ++ Place.shown job ⟨[b], last⟩ ↔
          let start := (Place.expanded job ⟨[b], first⟩).toList.length
          let across := reaching start (start + text.toList.length)
            (pieces (Place.expanded job ⟨[b], first ++ written ++ last⟩).toList)
          across.flatMap (lastPass.fillPiece false) = across.flatMap Piece.source)) ∧
      ∀ path, (∀ s ∈ document.contents, ⟨path, true⟩ ∉ placeholders s) →
        (path ∈ (r.render document values data).report.missingRequired ↔
          lastPass.get? path = none ∧
            ∃ place ∈ (job.draft document).places,
              ⟨path, true⟩ ∈ placeholders (place.expanded job) ∧
                ∃ outer b inner, place.bindings = outer ++ b :: inner ∧
                  (job.sourceOf b).Introduces
                    (Place.expanded job ⟨outer, place.content⟩).toList ⟨path, true⟩) := by
  refine ⟨document_render r document values data, ?_, ?_⟩
  · intro b first written last rest text p _ hp hrest htext
    exact Place.shown_eq_iff hp hrest htext
  · intro path hpath
    rw [missingRequired_render, List.mem_eraseDups, List.mem_flatMap]
    constructor
    · rintro ⟨place, hplace, hmissing⟩
      obtain ⟨hmem, hnone⟩ := FieldSource.mem_missing_iff.1 hmissing
      refine ⟨hnone, place, hplace, hmem, ?_⟩
      obtain ⟨w, hw⟩ := mem_placeholders_iff.1 hmem
      have hcontent := hpath _ (Job.isFrom_of_mem_places hplace).1
      rcases Place.mem_pieces_expanded hw with hw | hintroduced
      · exact absurd (mem_placeholders_iff.2 ⟨w, hw⟩) hcontent
      · exact hintroduced
    · rintro ⟨hnone, place, hplace, hmem, -⟩
      exact ⟨place, hplace, FieldSource.mem_missing_iff.2 ⟨hmem, hnone⟩⟩

end Renderer

/-- The item of the only repeat has a text with two placeholders. The letter shows the value of
the first instead of it, and the second is reported as missing. -/
theorem render_reads_items_again :
    let item : Datum := .record [("n", .text "[[a]] [[*b]]")]
    let data : Datum := .record [("xs", .list [item])]
    let values : Entries String := .ofList [("a", "V")]
    let document : Forest :=
      .element ⟨"p", .ofList [("data-repeat", "k in Model.xs")]⟩ (.text "[[k.n]]" .nil) .nil
    let rendering := Renderer.default.render document values data
    Binding.get? ⟨"k", item⟩ "n" = some "[[a]] [[*b]]" ∧
      rendering.document = .element ⟨"p", .empty⟩ (.text "V [[*b]]" .nil) .nil ∧
      rendering.document ≠ .element ⟨"p", .empty⟩ (.text "[[a]] [[*b]]" .nil) .nil ∧
      "b" ∈ rendering.report.missingRequired ∧
      ∀ s ∈ document.contents, ⟨"b", true⟩ ∉ placeholders s := by
  decide +kernel

end FormLetter
