import Mathlib.Data.List.Infix
import FormLetter.Proofs.Splicing

/-!
# Texts without brackets

A text without brackets can become part of a placeholder only between two double brackets that
belong to no other one. Filling in texts without brackets makes no such brackets.

* `pieces_append_of_not_enclosed`: elsewhere its characters are plain.
* `FieldSource.not_enclosed_fillChars`: a place that is not enclosed stays so.
* `FieldSource.fillAll_append_field`: pass after pass, a placeholder at such a place takes the
  first value that it is offered, and keeps it.
-/

namespace FormLetter

/-- No character is a bracket. -/
def BracketFree (cs : List Char) : Prop := ∀ c ∈ cs, isBracket c = false

instance (cs : List Char) : Decidable (BracketFree cs) := List.decidableBAll _ cs

/-- No character of a kind without brackets is one. -/
theorem isBracket_eq_false {kind : Char → Bool} (hopening : kind '[' = false)
    (hclosing : kind ']' = false) {c : Char} (h : kind c = true) : isBracket c = false := by
  by_contra hc
  rw [Bool.not_eq_false, isBracket, Bool.or_eq_true, beq_iff_eq, beq_iff_eq] at hc
  rcases hc with rfl | rfl
  · exact Bool.false_ne_true (hopening.symm.trans h)
  · exact Bool.false_ne_true (hclosing.symm.trans h)

theorem bracketFree_of_forall {kind : Char → Bool} (hopening : kind '[' = false)
    (hclosing : kind ']' = false) {cs : List Char} (h : ∀ d ∈ cs, kind d = true) :
    BracketFree cs := fun d hd => isBracket_eq_false hopening hclosing (h d hd)

theorem BracketFree.append {cs ds : List Char} (hcs : BracketFree cs) (hds : BracketFree ds) :
    BracketFree (cs ++ ds) := by
  intro c hc
  rcases List.mem_append.1 hc with hc | hc
  · exact hcs c hc
  · exact hds c hc

theorem BracketFree.cons {c : Char} {cs : List Char} (hc : isBracket c = false)
    (hcs : BracketFree cs) : BracketFree (c :: cs) := by
  intro d hd
  rcases List.mem_cons.1 hd with rfl | hd
  · exact hc
  · exact hcs d hd

/-- A character stands twice in a row outside placeholders. -/
def HasDouble (c : Char) (ps : List Piece) : Prop := [Piece.plain c, .plain c] <:+: ps

instance (c : Char) (ps : List Piece) : Decidable (HasDouble c ps) :=
  inferInstanceAs (Decidable (_ <:+: _))

/-- Two opening brackets that belong to no placeholder stand before a place, and two closing ones
behind it. -/
def Enclosed (before behind : List Char) : Prop :=
  HasDouble '[' (pieces before) ∧ HasDouble ']' (pieces behind)

instance (before behind : List Char) : Decidable (Enclosed before behind) :=
  inferInstanceAs (Decidable (_ ∧ _))

/-! ## Placeholders around a text without brackets -/

section

variable {before middle behind cs : List Char}

theorem eq_map_plain_of_forall {ps : List Piece} (h : ∀ w p, Piece.field w p ∉ ps) :
    ps = (ps.flatMap Piece.source).map .plain := by
  induction ps with
  | nil => rfl
  | cons x ps ih =>
    have htail := ih fun w p hmem => h w p (.tail _ hmem)
    cases x with
    | plain c => exact congrArg (Piece.plain c :: ·) htail
    | field w p => exact absurd (.head _) (h w p)

/-- A bracket does not stand within a text without brackets. -/
theorem outside_of_append_eq (hfree : BracketFree middle) {c : Char} (hc : isBracket c = true)
    {first rest : List Char} (h : before ++ (middle ++ behind) = first ++ c :: rest) :
    first.length < before.length ∨ before.length + middle.length ≤ first.length := by
  by_contra hin
  have hat : (before ++ (middle ++ behind))[first.length]? = some c := by
    rw [h, List.getElem?_append_right (Nat.le_refl _), Nat.sub_self]
    rfl
  rw [List.getElem?_append_right (by omega), List.getElem?_append_left (by omega)] at hat
  rw [hfree c (List.mem_of_getElem? hat)] at hc
  cases hc

/-- Neither do two brackets in a row reach into it. -/
theorem outside_of_append_eq_double (hfree : BracketFree middle) (hne : middle ≠ []) {c : Char}
    (hc : isBracket c = true) {first rest : List Char}
    (h : before ++ (middle ++ behind) = first ++ c :: c :: rest) :
    first.length + 2 ≤ before.length ∨ before.length + middle.length ≤ first.length := by
  have hpos := List.length_pos_iff.2 hne
  have hfirst := outside_of_append_eq hfree hc h
  have hnext : before ++ (middle ++ behind) = (first ++ [c]) ++ c :: rest := by
    rw [h, List.append_assoc]
    rfl
  have hsecond := outside_of_append_eq hfree hc hnext
  rw [List.length_append, List.length_singleton] at hsecond
  omega

/-- Two brackets in a row that begin before the end of a text without brackets stand before it. -/
theorem exists_of_append_eq_left (hfree : BracketFree middle) (hne : middle ≠ []) {c : Char}
    (hc : isBracket c = true) {first rest : List Char}
    (h : before ++ (middle ++ behind) = first ++ c :: c :: rest)
    (hlt : first.length < before.length + middle.length) :
    ∃ more, before = first ++ c :: c :: more := by
  have hle : (first ++ [c, c]).length ≤ before.length := by
    have hout := outside_of_append_eq_double hfree hne hc h
    rw [List.length_append, List.length_cons, List.length_singleton]
    omega
  obtain ⟨more, hmore⟩ := List.prefix_of_prefix_length_le
    ⟨rest, by rw [h, List.append_assoc]; rfl⟩ ⟨middle ++ behind, rfl⟩ hle
  exact ⟨more, by rw [← hmore, List.append_assoc]; rfl⟩

/-- Two brackets in a row that end behind the start of a text without brackets stand behind it. -/
theorem exists_of_append_eq_right (hfree : BracketFree middle) (hne : middle ≠ []) {c : Char}
    (hc : isBracket c = true) {first rest : List Char}
    (h : before ++ (middle ++ behind) = first ++ c :: c :: rest)
    (hlt : before.length < first.length + 2) :
    ∃ less, behind = less ++ c :: c :: rest := by
  have hle : (before ++ middle).length ≤ first.length := by
    have hout := outside_of_append_eq_double hfree hne hc h
    rw [List.length_append]
    omega
  obtain ⟨less, hless⟩ := List.prefix_of_prefix_length_le
    ⟨behind, by rw [List.append_assoc, h]⟩ ⟨c :: c :: rest, rfl⟩ hle
  rw [← hless, ← List.append_assoc, List.append_assoc _ less] at h
  exact ⟨less, List.append_cancel_left h⟩

theorem hasDouble_map_plain (c : Char) (first rest : List Char) :
    HasDouble c ((first ++ c :: c :: rest).map .plain) := by
  rw [List.map_append]
  exact ⟨first.map .plain, rest.map .plain, by simp⟩

/-- What reaches into a text without brackets at a place that is not enclosed is plain. -/
theorem Parted.across_eq {left across right : List Piece} {opening closing : List Char}
    (h : Parted before middle behind left opening across closing right)
    (hfree : BracketFree middle) (hne : middle ≠ []) (hplace : ¬Enclosed before behind) :
    across = (opening ++ (middle ++ closing)).map .plain := by
  rw [← h.source_across]
  refine eq_map_plain_of_forall fun w p hmem => hplace ?_
  obtain ⟨first, last, he⟩ := List.append_of_mem hmem
  have hreach := h.allReach first _ last he
  have hall : Piece.field w p ∈ pieces (before ++ (middle ++ behind)) := by
    rw [h.pieces_eq]
    exact List.mem_append_right _ (List.mem_append_left _ hmem)
  obtain ⟨content, rfl, -⟩ := written_of_mem_pieces hall
  have hsource := h.source_across
  rw [he, List.flatMap_append, List.flatMap_cons] at hsource
  simp only [Piece.source, List.length_cons, List.length_append, List.length_nil] at hsource hreach
  constructor
  · obtain ⟨more, hmore⟩ := exists_of_append_eq_left hfree hne (by decide) hsource.symm hreach.2
    rw [h.pieces_before, hmore]
    exact (hasDouble_map_plain _ _ _).trans (List.suffix_append _ _).isInfix
  · have hclose : opening ++ (middle ++ closing) =
        (first.flatMap Piece.source ++ '[' :: '[' :: content) ++
          ']' :: ']' :: last.flatMap Piece.source := by
      rw [← hsource]
      simp
    obtain ⟨less, hless⟩ := exists_of_append_eq_right hfree hne (by decide) hclose (by
      simp only [List.length_append, List.length_cons]
      omega)
    rw [h.pieces_behind, hless]
    exact (hasDouble_map_plain _ _ _).trans (List.prefix_append _ _).isInfix

/-- At a place that is not enclosed, the characters of a text without brackets are plain. -/
theorem pieces_append_of_not_enclosed (hfree : BracketFree middle) (hne : middle ≠ [])
    (hplace : ¬Enclosed before behind) :
    pieces (before ++ (middle ++ behind)) =
      pieces before ++ (middle.map .plain ++ pieces behind) := by
  obtain ⟨left, opening, across, closing, right, h⟩ := exists_parted before middle behind
  rw [h.pieces_eq, h.across_eq hfree hne hplace, h.pieces_before, h.pieces_behind]
  simp only [List.map_append, List.append_assoc]

/-! ## Filling in texts without brackets -/

/-- The pieces are found again in the text that they make up. -/
def Scanned (ps : List Piece) : Prop := pieces (ps.flatMap Piece.source) = ps

theorem scanned_pieces (cs : List Char) : Scanned (pieces cs) := by
  rw [Scanned, source_pieces]

/-- What is found in a part of a text that ends and begins with whole pieces is found in the part
alone. -/
theorem Scanned.of_append {ps qs : List Piece} (h : Scanned (ps ++ qs)) :
    Scanned ps ∧ Scanned qs := by
  induction ps with
  | nil => exact ⟨pieces_nil, h⟩
  | cons x ps ih =>
    have hx : pieces (x.source ++ (ps ++ qs).flatMap Piece.source) = x :: (ps ++ qs) := h
    cases x with
    | plain c =>
      cases hread : Placeholder.readFirst? (c :: (ps ++ qs).flatMap Piece.source) with
      | some r =>
        obtain ⟨w, p, rest⟩ := r
        cases (pieces_of_readFirst? hread).symm.trans hx
      | none =>
        obtain ⟨hps, hqs⟩ := ih (List.cons.inj ((pieces_cons hread).symm.trans hx)).2
        have hnone : Placeholder.readFirst? (c :: ps.flatMap Piece.source) = none := by
          cases hsome : Placeholder.readFirst? (c :: ps.flatMap Piece.source) with
          | none => rfl
          | some r =>
            have hmore := Placeholder.readFirst?_append hsome (qs.flatMap Piece.source)
            rw [List.cons_append, ← List.flatMap_append, hread] at hmore
            cases hmore
        exact ⟨(pieces_cons hnone).trans (congrArg _ hps), hqs⟩
    | field w p =>
      have hw : p.Written w := written_of_mem_pieces (by rw [hx]; exact .head _)
      obtain ⟨hps, hqs⟩ := ih (List.cons.inj ((pieces_append_of_written hw _).symm.trans hx)).2
      exact ⟨(pieces_append_of_written hw _).trans (congrArg _ hps), hqs⟩

/-- A text without brackets between two runs of pieces joins no brackets. -/
theorem HasDouble.of_append_plain {c : Char} (hc : isBracket c = true) (hfree : BracketFree middle)
    (hne : middle ≠ []) {ps qs : List Piece}
    (h : HasDouble c (ps ++ (middle.map .plain ++ qs))) : HasDouble c ps ∨ HasDouble c qs := by
  have hmiddle : Piece.plain c ∉ middle.map Piece.plain := by
    intro hmem
    obtain ⟨d, hd, heq⟩ := List.mem_map.1 hmem
    cases heq
    rw [hfree c hd] at hc
    cases hc
  have hall : ∀ first last, [Piece.plain c, .plain c] = first ++ last →
      ∀ x ∈ first ++ last, x = .plain c := by
    intro first last he x hx
    rw [← he] at hx
    simpa using hx
  rcases List.infix_append_iff_ne_nil.1 h with h | h | ⟨first, last, -, hlast, he, -, hprefix⟩
  · exact .inl h
  · rcases List.infix_append_iff_ne_nil.1 h with h | h | ⟨first, last, hfirst, -, he, hsuffix, -⟩
    · exact absurd (h.subset (.head _)) hmiddle
    · exact .inr h
    · obtain ⟨x, hx⟩ := List.exists_mem_of_ne_nil _ hfirst
      obtain rfl := hall first last he x (List.mem_append_left _ hx)
      exact absurd (hsuffix.subset hx) hmiddle
  · obtain ⟨d, cs, rfl⟩ := List.exists_cons_of_ne_nil hne
    obtain ⟨x, xs, rfl⟩ := List.exists_cons_of_ne_nil hlast
    obtain rfl := hall first (x :: xs) he x (List.mem_append_right _ (.head _))
    obtain ⟨heq, -⟩ := List.cons_prefix_cons.1 hprefix
    rw [heq] at hmiddle
    exact absurd (.head _) hmiddle

theorem HasDouble.append_field {c : Char} {ps qs : List Piece} (w : List Char) (p : Placeholder)
    (h : HasDouble c ps ∨ HasDouble c qs) : HasDouble c (ps ++ .field w p :: qs) := by
  rcases h with h | h
  · exact h.trans (List.prefix_append _ _).isInfix
  · exact h.trans (List.suffix_append_of_suffix (List.suffix_cons _ _)).isInfix

end

namespace FieldSource

variable {source : FieldSource}

/-- All values that the source gives are without brackets. -/
def GivesBracketFree (source : FieldSource) : Prop :=
  ∀ path value, source.get? path = some value → BracketFree value.toList

/-- The pieces that stand for a piece of a text once the values are filled in, if these have no
placeholders. -/
def fillPlain (source : FieldSource) : Piece → List Piece
  | .plain c => [.plain c]
  | .field w p =>
    match source.get? p.path with
    | some value => value.toList.map .plain
    | none => [.field w p]

variable (source) in
theorem fillPiece_field (w : List Char) (p : Placeholder) :
    source.fillPiece false (.field w p) = (source.get? p.path).elim w String.toList := by
  rw [fillPiece]
  cases source.get? p.path with
  | none => rfl
  | some value => rfl

theorem flatMap_source_fillPlain (x : Piece) :
    (source.fillPlain x).flatMap Piece.source = source.fillPiece false x := by
  cases x with
  | plain c => rfl
  | field w p =>
    rw [fillPlain, fillPiece_field]
    cases source.get? p.path with
    | some value => exact flatMap_source_map_plain _
    | none => exact List.append_nil _

theorem toList_ne_nil_of_get? {path value : String} (h : source.get? path = some value) :
    value.toList ≠ [] := by
  have hne : value.isEmpty = false := by
    unfold get? at h
    split at h
    · rename_i found hfound
      obtain ⟨b, -, hb⟩ := Option.bind_eq_some_iff.1 hfound
      obtain ⟨rest, -, rfl⟩ := Option.map_eq_some_iff.1 hb
      simpa using (Option.filter_eq_some_iff.1 h).2
    · simpa using (Option.filter_eq_some_iff.1 h).2
  intro hnil
  rw [String.toList_eq_nil_iff.1 hnil] at hne
  cases hne

/-- What is kept whenever a value is put in for one placeholder is kept by filling in. -/
theorem fillPlain_induction {P : List Piece → Prop}
    (step : ∀ ps w p value qs, source.get? p.path = some value → P (ps ++ .field w p :: qs) →
      P (ps ++ (value.toList.map .plain ++ qs)))
    (done todo : List Piece) (h : P (done ++ todo)) :
    P (done ++ todo.flatMap source.fillPlain) := by
  induction todo generalizing done with
  | nil => exact h
  | cons x todo ih =>
    have hkeep : P (done ++ ([x] ++ todo.flatMap source.fillPlain)) := by
      rw [← List.append_assoc]
      exact ih (done ++ [x]) (by rwa [List.append_assoc])
    cases x with
    | plain c => exact hkeep
    | field w p =>
      rw [List.flatMap_cons, fillPlain]
      split
      · rename_i value hvalue
        rw [← List.append_assoc]
        refine ih _ ?_
        rw [List.append_assoc]
        exact step _ _ _ _ _ hvalue h
      · exact hkeep

/-- Filling in texts without brackets joins no brackets. -/
theorem hasDouble_of_fillChars (hsource : source.GivesBracketFree) {c : Char}
    (hc : c = '[' ∨ c = ']') {cs : List Char} (h : HasDouble c (pieces (source.fillChars cs))) :
    HasDouble c (pieces cs) := by
  by_contra hnot
  have hbracket : isBracket c = true := by
    rcases hc with rfl | rfl <;> decide
  have hkept : Scanned ([] ++ (pieces cs).flatMap source.fillPlain) ∧
      ¬HasDouble c ([] ++ (pieces cs).flatMap source.fillPlain) := by
    refine fillPlain_induction (P := fun ps => Scanned ps ∧ ¬HasDouble c ps) ?_ [] (pieces cs)
      ⟨scanned_pieces cs, hnot⟩
    intro ps w p value qs hvalue hps
    obtain ⟨hscanned, hno⟩ := hps
    obtain ⟨hleft, hfield⟩ := hscanned.of_append
    have hsplit : Scanned ([.field w p] ++ qs) := hfield
    obtain ⟨-, hright⟩ := hsplit.of_append
    have hfree := hsource _ _ hvalue
    have hne := toList_ne_nil_of_get? hvalue
    have hno' : ¬(HasDouble c ps ∨ HasDouble c qs) := fun h => hno (HasDouble.append_field w p h)
    have hplace : ¬Enclosed (ps.flatMap Piece.source) (qs.flatMap Piece.source) := by
      rintro ⟨hopen, hclose⟩
      rw [hleft] at hopen
      rw [hright] at hclose
      rcases hc with rfl | rfl
      · exact hno' (.inl hopen)
      · exact hno' (.inr hclose)
    constructor
    · rw [Scanned, List.flatMap_append, List.flatMap_append, flatMap_source_map_plain,
        pieces_append_of_not_enclosed hfree hne hplace, hleft, hright]
    · exact fun h => hno' (h.of_append_plain hbracket hfree hne)
  rw [List.nil_append] at hkept
  obtain ⟨hscanned, hno⟩ := hkept
  have hfilled : ((pieces cs).flatMap source.fillPlain).flatMap Piece.source =
      source.fillChars cs := by
    rw [List.flatMap_assoc, fillChars]
    simp only [flatMap_source_fillPlain]
  rw [Scanned, hfilled] at hscanned
  rw [hscanned] at h
  exact hno h

/-- A place that is not enclosed stays so. -/
theorem not_enclosed_fillChars (hsource : source.GivesBracketFree) {before behind : List Char}
    (h : ¬Enclosed before behind) :
    ¬Enclosed (source.fillChars before) (source.fillChars behind) := by
  rintro ⟨hopen, hclose⟩
  exact h ⟨hasDouble_of_fillChars hsource (.inl rfl) hopen,
    hasDouble_of_fillChars hsource (.inr rfl) hclose⟩

variable (source) in
theorem fillChars_append_of_not_enclosed {before middle behind : List Char}
    (hfree : BracketFree middle) (hne : middle ≠ []) (h : ¬Enclosed before behind) :
    source.fillChars (before ++ (middle ++ behind)) =
      source.fillChars before ++ (middle ++ source.fillChars behind) := by
  rw [fillChars, pieces_append_of_not_enclosed hfree hne h, List.flatMap_append,
    List.flatMap_append, flatMap_fillPiece_plain]
  rfl

variable (source) in
/-- A placeholder gives way to its value if it has one. What stands before and behind it is filled
in as if it stood alone. -/
theorem fillChars_append_field {p : Placeholder} {w : List Char} (hw : p.Written w)
    (before behind : List Char) :
    source.fillChars (before ++ (w ++ behind)) =
      source.fillChars before ++
        ((source.get? p.path).elim w String.toList ++ source.fillChars behind) := by
  rw [fillChars, pieces_append_field hw, List.flatMap_append, List.flatMap_cons, fillPiece_field]
  rfl

/-! ## Passes one after the other -/

/-- Fills in values from one source after the other. -/
def fillAll (sources : List FieldSource) (cs : List Char) : List Char :=
  sources.foldl (fun cs source => source.fillChars cs) cs

section

variable {sources : List FieldSource} {before behind : List Char}

/-- A text without brackets at a place that is not enclosed is never changed. -/
theorem fillAll_append_of_not_enclosed (hsources : ∀ source ∈ sources, source.GivesBracketFree)
    {middle : List Char} (hfree : BracketFree middle) (hne : middle ≠ [])
    (h : ¬Enclosed before behind) :
    fillAll sources (before ++ (middle ++ behind)) =
      fillAll sources before ++ (middle ++ fillAll sources behind) := by
  induction sources generalizing before behind with
  | nil => rfl
  | cons source sources ih =>
    have hsource := hsources source (.head _)
    show fillAll sources (source.fillChars (before ++ (middle ++ behind))) = _
    rw [fillChars_append_of_not_enclosed source hfree hne h]
    exact ih (fun s hs => hsources s (.tail _ hs)) (not_enclosed_fillChars hsource h)

/-- A placeholder at a place that is not enclosed takes the first value that it is offered. -/
theorem fillAll_append_field (hsources : ∀ source ∈ sources, source.GivesBracketFree)
    {p : Placeholder} {w : List Char} (hw : p.Written w) (h : ¬Enclosed before behind) :
    fillAll sources (before ++ (w ++ behind)) =
      fillAll sources before ++
        ((sources.findSome? fun source => source.get? p.path).elim w String.toList ++
          fillAll sources behind) := by
  induction sources generalizing before behind with
  | nil => rfl
  | cons source sources ih =>
    have hsource := hsources source (.head _)
    have hothers : ∀ s ∈ sources, s.GivesBracketFree := fun s hs => hsources s (.tail _ hs)
    have hplace := not_enclosed_fillChars hsource h
    show fillAll sources (source.fillChars (before ++ (w ++ behind))) = _
    rw [fillChars_append_field source hw, List.findSome?_cons]
    cases hvalue : source.get? p.path with
    | none => exact ih hothers hplace
    | some value =>
      exact fillAll_append_of_not_enclosed hothers (hsource _ _ hvalue)
        (toList_ne_nil_of_get? hvalue) hplace

end

end FieldSource

end FormLetter
