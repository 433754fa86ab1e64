import FormLetter.Field.Placeholder

/-!
# Where placeholders are found

Dividing a text into pieces looks at each place for a placeholder that begins there. What is found
in a part of a text depends on the rest only where a placeholder reaches over the border.

* `Placeholder.readFirst?_eq_some_iff`: what is written where a placeholder is read.
* `Placeholder.Written.length_le`: no placeholder begins within another one.
* `pieces_induction`: induction on a text piece by piece.
* `pieces_append_field`: a placeholder is found as one, whatever stands before and behind it.
* `exists_pieces_append_left`, `exists_pieces_append_right`: the pieces of a text are those of a
  part at its beginning or at its end, but for one placeholder that reaches over the border.
-/

namespace FormLetter

namespace Placeholder

/-- The characters write the placeholder. -/
def Written (p : Placeholder) (source : List Char) : Prop :=
  ∃ content, source = '[' :: '[' :: (content ++ [']', ']']) ∧
    (∀ c ∈ content, isBracket c = false) ∧ ofContent? content = some p

variable {p q : Placeholder} {source cs rest : List Char}

/-- A placeholder is read at the start of a text exactly if it is written there. -/
theorem readFirst?_eq_some_iff :
    readFirst? cs = some (source, p, rest) ↔ cs = source ++ rest ∧ p.Written source := by
  constructor
  · intro h
    refine ⟨(append_readFirst? h).symm, ?_⟩
    unfold readFirst? at h
    split at h
    · rename_i cs
      dsimp only at h
      split at h
      · obtain ⟨r, hr, he⟩ := Option.map_eq_some_iff.1 h
        simp only [Prod.mk.injEq] at he
        obtain ⟨rfl, rfl, rfl⟩ := he
        refine ⟨_, rfl, fun c hc => ?_, hr⟩
        simpa using List.all_eq_true.1 List.all_takeWhile c hc
      · cases h
    · cases h
  · rintro ⟨rfl, content, rfl, hplain, hcontent⟩
    have htake : (content ++ ']' :: ']' :: rest).takeWhile (fun c => !isBracket c) = content := by
      rw [List.takeWhile_append_of_pos (by simpa using hplain),
        List.takeWhile_cons_of_neg (by decide), List.append_nil]
    have hdrop : (content ++ ']' :: ']' :: rest).dropWhile (fun c => !isBracket c) =
        ']' :: ']' :: rest := by
      rw [List.dropWhile_append_of_pos (by simpa using hplain),
        List.dropWhile_cons_of_neg (by decide)]
    simp only [List.cons_append, List.append_assoc, List.nil_append]
    rw [readFirst?]
    simp only [htake, hdrop, hcontent]
    simp

theorem Written.readFirst? (h : p.Written source) (rest : List Char) :
    readFirst? (source ++ rest) = some (source, p, rest) :=
  readFirst?_eq_some_iff.2 ⟨rfl, h⟩

/-- What is read at the start of a text does not depend on how the text goes on. -/
theorem readFirst?_append (h : Placeholder.readFirst? cs = some (source, p, rest))
    (more : List Char) : Placeholder.readFirst? (cs ++ more) = some (source, p, rest ++ more) := by
  obtain ⟨rfl, hp⟩ := readFirst?_eq_some_iff.1 h
  rw [List.append_assoc]
  exact hp.readFirst? _

theorem Written.ne_nil (h : p.Written source) : source ≠ [] := by
  obtain ⟨content, rfl, -⟩ := h
  simp

/-- At one place at most one placeholder is written. -/
theorem Written.unique (hp : p.Written source) {other : List Char} (hq : q.Written other)
    {more : List Char} (h : source ++ rest = other ++ more) : source = other ∧ p = q := by
  have hread := hp.readFirst? rest
  rw [h, hq.readFirst? more] at hread
  simp only [Option.some.injEq, Prod.mk.injEq] at hread
  exact ⟨hread.1.symm, hread.2.1.symm⟩

/-- Two brackets that open stand in a text that begins with characters other than brackets and two
brackets that close only behind these. -/
theorem length_le_of_append_eq {content : List Char} (hplain : ∀ c ∈ content, isBracket c = false)
    {before behind : List Char}
    (h : content ++ ']' :: ']' :: rest = before ++ '[' :: '[' :: behind) :
    content.length + 2 ≤ before.length := by
  induction content generalizing before with
  | nil =>
    obtain _ | ⟨b, before⟩ := before
    · simp at h
    · obtain _ | ⟨b', before⟩ := before
      · simp at h
      · simp
  | cons c content ih =>
    obtain _ | ⟨b, before⟩ := before
    · have hc := hplain c (.head _)
      simp only [List.cons_append, List.nil_append, List.cons.injEq] at h
      rw [h.1] at hc
      exact absurd hc (by decide)
    · have htail := ih (fun x hx => hplain x (.tail _ hx)) (List.cons.inj h).2
      simp only [List.length_cons]
      omega

/-- No placeholder begins within another one. -/
theorem Written.length_le (hp : p.Written source) (hq : q.Written cs) {before behind : List Char}
    (hbefore : before ≠ []) (h : source ++ rest = before ++ (cs ++ behind)) :
    source.length ≤ before.length := by
  obtain ⟨content, rfl, hplain, hcontent⟩ := hp
  obtain ⟨other, rfl, -⟩ := hq
  obtain _ | ⟨b, before⟩ := before
  · exact absurd rfl hbefore
  simp only [List.cons_append, List.append_assoc, List.nil_append, List.cons.injEq] at h
  obtain ⟨-, h⟩ := h
  obtain _ | ⟨b', before⟩ := before
  · -- The second bracket of the outer one would be the first of the inner one.
    obtain _ | ⟨c, content⟩ := content
    · have hempty : ofContent? [] = none := by decide
      rw [hempty] at hcontent
      cases hcontent
    · have hc := hplain c (.head _)
      simp only [List.cons_append, List.nil_append, List.cons.injEq, true_and] at h
      rw [h.1] at hc
      exact absurd hc (by decide)
  · have hle := length_le_of_append_eq hplain (List.cons.inj h).2
    simp only [List.length_cons, List.length_append, List.length_nil]
    omega

end Placeholder

/-! ## Induction on the pieces of a text -/

theorem pieces_append_of_written {p : Placeholder} {source : List Char} (hp : p.Written source)
    (rest : List Char) : pieces (source ++ rest) = .field source p :: pieces rest :=
  pieces_of_readFirst? (hp.readFirst? rest)

/-- A text is empty, or it begins with a character at which no placeholder begins, or with a
placeholder. -/
theorem pieces_induction {motive : List Char → Prop} (nil : motive [])
    (plain : ∀ c cs, Placeholder.readFirst? (c :: cs) = none → motive cs → motive (c :: cs))
    (field : ∀ (source : List Char) (p : Placeholder) (rest : List Char), p.Written source →
      motive rest → motive (source ++ rest)) (cs : List Char) : motive cs := by
  induction hn : cs.length using Nat.strongRecOn generalizing cs with
  | _ n ih =>
    subst hn
    cases hread : Placeholder.readFirst? cs with
    | some r =>
      obtain ⟨source, p, rest⟩ := r
      obtain ⟨rfl, hp⟩ := Placeholder.readFirst?_eq_some_iff.1 hread
      exact field source p rest hp (ih _ (Placeholder.readFirst?_length hread) rest rfl)
    | none =>
      obtain _ | ⟨c, cs⟩ := cs
      · exact nil
      · exact plain c cs hread (ih _ (Nat.lt_succ_self _) cs rfl)

/-- A placeholder that is found is written there. -/
theorem written_of_mem_pieces {cs w : List Char} {p : Placeholder}
    (h : Piece.field w p ∈ pieces cs) : p.Written w := by
  induction cs using pieces_induction with
  | nil =>
    rw [pieces_nil] at h
    cases h
  | plain c cs hnone ih =>
    rw [pieces_cons hnone] at h
    rcases List.mem_cons.1 h with heq | h
    · cases heq
    · exact ih h
  | field source q rest hq ih =>
    rw [pieces_append_of_written hq] at h
    rcases List.mem_cons.1 h with heq | h
    · cases heq
      exact hq
    · exact ih h

theorem source_ne_nil_of_mem_pieces {cs : List Char} {x : Piece} (h : x ∈ pieces cs) :
    x.source ≠ [] := by
  cases x with
  | plain c => exact List.cons_ne_nil _ _
  | field w p => exact (written_of_mem_pieces h).ne_nil

theorem mem_placeholders_iff {s : String} {p : Placeholder} :
    p ∈ placeholders s ↔ ∃ w, .field w p ∈ pieces s.toList := by
  rw [placeholders, List.mem_filterMap]
  constructor
  · rintro ⟨x, hx, hp⟩
    cases x with
    | plain c => cases hp
    | field w q =>
      cases hp
      exact ⟨w, hx⟩
  · rintro ⟨w, hw⟩
    exact ⟨_, hw, rfl⟩

/-! ## Texts in which no placeholder begins -/

/-- Where no placeholder begins in the first part of a text, its characters are plain. -/
theorem pieces_append_of_readFirst?_eq_none {cs rest : List Char}
    (h : ∀ before c behind, cs = before ++ c :: behind →
      Placeholder.readFirst? (c :: behind ++ rest) = none) :
    pieces (cs ++ rest) = cs.map .plain ++ pieces rest := by
  induction cs with
  | nil => rfl
  | cons c cs ih =>
    have htail := ih fun before d behind he => h (c :: before) d behind (by rw [he]; rfl)
    have hhead : Placeholder.readFirst? (c :: (cs ++ rest)) = none := h [] c cs rfl
    rw [List.cons_append, pieces_cons hhead, htail]
    rfl

theorem pieces_eq_map_plain {cs : List Char}
    (h : ∀ before c behind, cs = before ++ c :: behind →
      Placeholder.readFirst? (c :: behind) = none) : pieces cs = cs.map .plain := by
  have happend : pieces (cs ++ []) = cs.map .plain ++ pieces [] := by
    refine pieces_append_of_readFirst?_eq_none fun before c behind he => ?_
    rw [List.append_nil]
    exact h before c behind he
  rwa [List.append_nil, pieces_nil, List.append_nil] at happend

/-! ## The two sides of a border -/

theorem flatMap_source_map_plain (cs : List Char) :
    (cs.map Piece.plain).flatMap Piece.source = cs := by
  induction cs with
  | nil => rfl
  | cons c cs ih =>
    rw [List.map_cons, List.flatMap_cons, ih]
    rfl

section

variable {p : Placeholder} {source : List Char}

/-- A part of a placeholder at its beginning is plain by itself. -/
theorem pieces_of_append_eq_source (hp : p.Written source) {cs more : List Char}
    (h : source = cs ++ more) (hmore : more ≠ []) : pieces cs = cs.map .plain := by
  refine pieces_eq_map_plain fun before c behind he => ?_
  cases hread : Placeholder.readFirst? (c :: behind) with
  | none => rfl
  | some r =>
    obtain ⟨other, q, rest⟩ := r
    obtain ⟨heq, hq⟩ := Placeholder.readFirst?_eq_some_iff.1 hread
    have hsource : source ++ [] = before ++ (other ++ (rest ++ more)) := by
      rw [h, he, heq]
      simp
    have hlen := congrArg List.length hsource
    have hpos := List.length_pos_iff.2 hmore
    cases before with
    | nil =>
      have hsame := hp.unique hq hsource
      rw [hsame.1] at hlen
      simp only [List.length_append, List.length_nil] at hlen
      omega
    | cons b before =>
      have hle := hp.length_le hq (by simp) hsource
      have hother := List.length_pos_iff.2 hq.ne_nil
      simp only [List.length_append, List.length_nil] at hlen
      omega

/-- A part of a placeholder at its end is plain, whatever follows it. -/
theorem pieces_append_of_append_eq_source (hp : p.Written source) {before cs : List Char}
    (h : source = before ++ cs) (hbefore : before ≠ []) (rest : List Char) :
    pieces (cs ++ rest) = cs.map .plain ++ pieces rest := by
  refine pieces_append_of_readFirst?_eq_none fun first c behind he => ?_
  cases hread : Placeholder.readFirst? (c :: behind ++ rest) with
  | none => rfl
  | some r =>
    obtain ⟨other, q, more⟩ := r
    obtain ⟨heq, hq⟩ := Placeholder.readFirst?_eq_some_iff.1 hread
    have hsource : source ++ rest = before ++ first ++ (other ++ more) := by
      rw [← heq, h, he]
      simp
    have hle := hp.length_le hq (by simp [hbefore]) hsource
    rw [h, he] at hle
    simp only [List.length_append, List.length_cons] at hle
    omega

/-- A placeholder is found as one, whatever stands before and behind it. -/
theorem pieces_append_field (hp : p.Written source) (before behind : List Char) :
    pieces (before ++ (source ++ behind)) = pieces before ++ .field source p :: pieces behind := by
  induction before using pieces_induction with
  | nil =>
    rw [pieces_nil]
    exact pieces_append_of_written hp behind
  | plain c before hnone ih =>
    have hnone' : Placeholder.readFirst? (c :: (before ++ (source ++ behind))) = none := by
      cases hsome : Placeholder.readFirst? (c :: (before ++ (source ++ behind))) with
      | none => rfl
      | some r =>
        obtain ⟨other, q, rest⟩ := r
        obtain ⟨heq, hq⟩ := Placeholder.readFirst?_eq_some_iff.1 hsome
        -- It would end before the placeholder, so it would have been found there.
        have hle : other.length ≤ (c :: before).length :=
          hq.length_le hp (List.cons_ne_nil _ _) heq.symm
        obtain ⟨more, hmore⟩ := List.prefix_of_prefix_length_le
          ⟨rest, heq.symm⟩ ⟨source ++ behind, rfl⟩ hle
        rw [← hmore, hq.readFirst? more] at hnone
        cases hnone
    rw [pieces_cons hnone, List.cons_append, pieces_cons hnone', ih]
    rfl
  | field other q before hq ih =>
    rw [List.append_assoc, pieces_append_of_written hq, pieces_append_of_written hq, ih]
    rfl

/-- The pieces of a text up to a border are those of what stands before the border, but for a
placeholder that begins there and reaches over it. -/
theorem exists_pieces_append_left (before behind : List Char) :
    ∃ ps cs, before = ps.flatMap Piece.source ++ cs ∧ pieces before = ps ++ cs.map .plain ∧
      pieces (before ++ behind) = ps ++ pieces (cs ++ behind) ∧
      (cs = [] ∨ ∃ source p rest, Placeholder.Written p source ∧
        cs ++ behind = source ++ rest ∧ cs.length < source.length) := by
  induction before using pieces_induction with
  | nil => exact ⟨[], [], rfl, pieces_nil, rfl, .inl rfl⟩
  | field other q before hq ih =>
    obtain ⟨ps, cs, hbefore, hpieces, happend, hover⟩ := ih
    refine ⟨.field other q :: ps, cs, ?_, ?_, ?_, hover⟩
    · rw [List.flatMap_cons, List.append_assoc, ← hbefore]
      rfl
    · rw [pieces_append_of_written hq, hpieces, List.cons_append]
    · rw [List.append_assoc, pieces_append_of_written hq, happend, List.cons_append]
  | plain c before hnone ih =>
    cases hover : Placeholder.readFirst? (c :: (before ++ behind)) with
    | none =>
      obtain ⟨ps, cs, hbefore, hpieces, happend, hcs⟩ := ih
      refine ⟨.plain c :: ps, cs, ?_, ?_, ?_, hcs⟩
      · rw [List.flatMap_cons, List.append_assoc, ← hbefore]
        rfl
      · rw [pieces_cons hnone, hpieces, List.cons_append]
      · rw [List.cons_append, pieces_cons hover, happend, List.cons_append]
    | some r =>
      obtain ⟨source, p, rest⟩ := r
      obtain ⟨heq, hp⟩ := Placeholder.readFirst?_eq_some_iff.1 hover
      have hwhole : (c :: before) ++ behind = source ++ rest := heq
      have hlt : (c :: before).length < source.length := by
        rw [← Nat.not_le]
        intro hle
        obtain ⟨more, hmore⟩ := List.prefix_of_prefix_length_le ⟨rest, heq.symm⟩
          ⟨behind, rfl⟩ hle
        rw [← hmore, hp.readFirst? more] at hnone
        cases hnone
      obtain ⟨more, hmore⟩ := List.prefix_of_prefix_length_le ⟨behind, hwhole⟩
        ⟨rest, rfl⟩ (Nat.le_of_lt hlt)
      have hne : more ≠ [] := by
        rintro rfl
        rw [← hmore, List.append_nil] at hlt
        exact Nat.lt_irrefl _ hlt
      exact ⟨[], c :: before, rfl, pieces_of_append_eq_source hp hmore.symm hne, rfl,
        .inr ⟨source, p, rest, hp, hwhole, hlt⟩⟩

/-- The pieces of a text from a border on are those of what stands behind the border, but for a
placeholder that reaches over it and ends there. -/
theorem exists_pieces_append_right (before behind : List Char) :
    ∃ qs cs ps, pieces (before ++ behind) = qs ++ ps ∧ behind = cs ++ ps.flatMap Piece.source ∧
      pieces behind = cs.map .plain ++ ps ∧
      (cs = [] ∨ ∃ qs' source p, qs = qs' ++ [.field source p] ∧ cs.length < source.length) := by
  induction hn : before.length using Nat.strongRecOn generalizing before with
  | _ n ih =>
    subst hn
    obtain _ | ⟨c, before⟩ := before
    · exact ⟨[], [], pieces behind, rfl, (source_pieces behind).symm, rfl, .inl rfl⟩
    cases hread : Placeholder.readFirst? (c :: before ++ behind) with
    | none =>
      obtain ⟨qs, cs, ps, hpieces, hbehind, hpiecesBehind, hover⟩ :=
        ih _ (Nat.lt_succ_self _) before rfl
      have hplain : Placeholder.readFirst? (c :: (before ++ behind)) = none := hread
      refine ⟨.plain c :: qs, cs, ps, ?_, hbehind, hpiecesBehind, hover.imp_right ?_⟩
      · rw [List.cons_append, pieces_cons hplain, hpieces, List.cons_append]
      · rintro ⟨qs', source, p, rfl, hlt⟩
        exact ⟨.plain c :: qs', source, p, rfl, hlt⟩
    | some r =>
      obtain ⟨source, p, rest⟩ := r
      obtain ⟨heq, hp⟩ := Placeholder.readFirst?_eq_some_iff.1 hread
      by_cases hle : source.length ≤ (c :: before).length
      · obtain ⟨more, hmore⟩ := List.prefix_of_prefix_length_le ⟨rest, heq.symm⟩
          ⟨behind, rfl⟩ hle
        have hrest : rest = more ++ behind := by
          rw [← hmore, List.append_assoc] at heq
          exact (List.append_cancel_left heq).symm
        have hshort : more.length < (c :: before).length := by
          have := List.length_pos_iff.2 hp.ne_nil
          rw [← hmore, List.length_append]
          omega
        obtain ⟨qs, cs, ps, hpieces, hbehind, hpiecesBehind, hover⟩ := ih _ hshort more rfl
        refine ⟨.field source p :: qs, cs, ps, ?_, hbehind, hpiecesBehind, hover.imp_right ?_⟩
        · rw [pieces_of_readFirst? hread, hrest, hpieces, List.cons_append]
        · rintro ⟨qs', source', p', rfl, hlt⟩
          exact ⟨.field source p :: qs', source', p', rfl, hlt⟩
      · obtain ⟨cs, hcs⟩ := List.prefix_of_prefix_length_le ⟨behind, rfl⟩
          ⟨rest, heq.symm⟩ (Nat.le_of_not_le hle)
        have hbehind : behind = cs ++ rest := by
          rw [← hcs, List.append_assoc] at heq
          exact List.append_cancel_left heq
        have hlt : cs.length < source.length := by
          rw [← hcs, List.length_append, List.length_cons]
          omega
        refine ⟨[.field source p], cs, pieces rest, pieces_of_readFirst? hread, ?_, ?_,
          .inr ⟨[], source, p, rfl, hlt⟩⟩
        · rw [source_pieces, hbehind]
        · rw [hbehind]
          exact pieces_append_of_append_eq_source hp hcs.symm (by simp) rest

end

end FormLetter
