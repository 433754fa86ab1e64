import FormLetter.Proofs.Letter
import FormLetter.Proofs.PlaceholderText
import FormLetter.Proofs.Rounds

/-!
# What filling in replaces

Values are put into a text from left to right: for each placeholder that has one, and for nothing
else. A pass over a document does so with its texts and with its attributes, and the report counts
the placeholders that gave way.

* `Replaces`: going through a text from each placeholder on to the next one.
  `FieldSource.replaces_iff`: what becomes of a text, and how many placeholders had a value.
* `FieldSource.get?_eq_some_iff`: which value a path has.
* `FieldSource.ReplacesForest`: going through all texts and attributes of a document.
  `FieldSource.replacesForest_iff`: what becomes of it, and how many placeholders had a value.
* `Renderer.render_replaced`: what the report of a letter counts.
-/

namespace FormLetter

variable {cs : List Char}

/-! ## Going through a text -/

/-- What becomes of a text in which placeholders give way to their values, and how many have one.
The first placeholder of the text gives way to its value, or stays if it has none. Then it goes on
behind the placeholder. -/
inductive Replaces (valueOf : Placeholder → Option (List Char)) :
    List Char → List Char → Nat → Prop where
  | rest {cs : List Char}
      (hnone : ∀ before w behind p, cs = before ++ (w ++ behind) → ¬ Placeholder.Written p w) :
      Replaces valueOf cs cs 0
  | next {before w behind out : List Char} {p : Placeholder} {n : Nat} (hp : p.Written w)
      (hfirst : ∀ before' w' behind' p', before ++ (w ++ behind) = before' ++ (w' ++ behind') →
        Placeholder.Written p' w' → before.length ≤ before'.length)
      (hbehind : Replaces valueOf behind out n) :
      Replaces valueOf (before ++ (w ++ behind)) (before ++ ((valueOf p).getD w ++ out))
        ((valueOf p).isSome.toNat + n)

namespace Replaces

variable {valueOf : Placeholder → Option (List Char)} {out : List Char} {n : Nat}

/-- A character at which no placeholder begins stays. -/
theorem cons {c : Char} (hnone : Placeholder.readFirst? (c :: cs) = none)
    (h : Replaces valueOf cs out n) : Replaces valueOf (c :: cs) (c :: out) n := by
  have hbegin : ∀ w behind p, c :: cs = w ++ behind → ¬ Placeholder.Written p w := by
    rintro w behind p hcs hp
    rw [hcs, hp.readFirst?] at hnone
    cases hnone
  cases h with
  | rest h =>
    refine .rest fun before w behind p hcs hp => ?_
    cases before with
    | nil => exact hbegin w behind p hcs hp
    | cons b before => exact h before w behind p (List.cons.inj hcs).2 hp
  | @next before w behind out p n hp hfirst hbehind =>
    refine @next valueOf (c :: before) _ _ _ _ _ hp (fun before' w' behind' p' hcs hp' => ?_)
      hbehind
    cases before' with
    | nil => exact absurd hp' (hbegin w' behind' p' hcs)
    | cons b before' =>
      exact Nat.succ_le_succ (hfirst before' w' behind' p' (List.cons.inj hcs).2 hp')

/-- What is done to a piece of a text. -/
def fillPiece (valueOf : Placeholder → Option (List Char)) : Piece → List Char
  | .plain c => [c]
  | .field w p => (valueOf p).getD w

/-- The pieces are gone through one after the other. -/
theorem of_pieces (valueOf : Placeholder → Option (List Char)) (cs : List Char) :
    Replaces valueOf cs ((pieces cs).flatMap (fillPiece valueOf))
      (((pieces cs).filterMap Piece.placeholder?).countP fun p => (valueOf p).isSome) := by
  induction cs using pieces_induction with
  | nil =>
    rw [pieces_nil]
    refine .rest fun before w behind p hcs hp => hp.ne_nil ?_
    exact (List.append_eq_nil_iff.1 (List.append_eq_nil_iff.1 hcs.symm).2).1
  | plain c cs hnone ih =>
    rw [pieces_cons hnone]
    exact ih.cons hnone
  | field w p rest hp ih =>
    rw [pieces_append_of_written hp]
    have hnext := @Replaces.next valueOf [] _ _ _ _ _ hp (fun _ _ _ _ _ _ => Nat.zero_le _) ih
    have hcount : (((Piece.field w p :: pieces rest).filterMap Piece.placeholder?).countP
          fun p => (valueOf p).isSome) =
        (valueOf p).isSome.toNat +
          ((pieces rest).filterMap Piece.placeholder?).countP fun p => (valueOf p).isSome := by
      show ((p :: (pieces rest).filterMap Piece.placeholder?).countP _) = _
      rw [List.countP_cons, Nat.add_comm]
      cases (valueOf p).isSome <;> rfl
    rw [hcount]
    exact hnext

theorem flatMap_fillPiece_map_plain (cs : List Char) :
    (cs.map Piece.plain).flatMap (fillPiece valueOf) = cs := by
  rw [List.flatMap_map]
  exact List.flatMap_singleton' cs

theorem filterMap_placeholder?_map_plain (cs : List Char) :
    (cs.map Piece.plain).filterMap Piece.placeholder? = [] := by
  rw [List.filterMap_map]
  exact List.filterMap_eq_nil_iff.2 fun _ _ => rfl

/-- There is no other way to go through a text. -/
theorem eq_of_pieces (h : Replaces valueOf cs out n) :
    out = (pieces cs).flatMap (fillPiece valueOf) ∧
      n = ((pieces cs).filterMap Piece.placeholder?).countP fun p => (valueOf p).isSome := by
  have hplain : ∀ {cs : List Char}, (∀ before w behind p, cs = before ++ (w ++ behind) →
      ¬ Placeholder.Written p w) → pieces cs = cs.map .plain := by
    intro cs hnone
    refine pieces_eq_map_plain fun before c behind hcs => ?_
    rw [Option.eq_none_iff_forall_ne_some]
    rintro ⟨w, p, rest⟩ hread
    obtain ⟨hw, hp⟩ := Placeholder.readFirst?_eq_some_iff.1 hread
    exact hnone before w rest p (hcs.trans (congrArg _ hw)) hp
  induction h with
  | rest hnone =>
    rw [hplain hnone, flatMap_fillPiece_map_plain, filterMap_placeholder?_map_plain]
    exact ⟨rfl, rfl⟩
  | @next before w behind out p n hp hfirst hbehind ih =>
    have hbefore : pieces before = before.map .plain := by
      refine hplain fun before' w' behind' p' hcs hp' => ?_
      have hle := hfirst before' w' (behind' ++ (w ++ behind)) p' (by rw [hcs]; simp) hp'
      have hpos := List.length_pos_iff.2 hp'.ne_nil
      rw [hcs] at hle
      simp only [List.length_append] at hle
      omega
    rw [pieces_append_field hp, hbefore, List.flatMap_append, flatMap_fillPiece_map_plain,
      List.flatMap_cons, List.filterMap_append, filterMap_placeholder?_map_plain,
      List.filterMap_cons_some (rfl : (Piece.field w p).placeholder? = some p), List.nil_append,
      List.countP_cons, ih.1, ih.2]
    refine ⟨rfl, ?_⟩
    rw [Nat.add_comm]
    cases (valueOf p).isSome <;> rfl

end Replaces

namespace FieldSource

variable {source : FieldSource} {escaped : Bool}

/-- What takes the place of a placeholder, if it has a value. -/
def replacement? (source : FieldSource) (escaped : Bool) (p : Placeholder) : Option (List Char) :=
  (source.get? p.path).map fun value => if escaped then escape value.toList else value.toList

theorem fillPiece_eq (source : FieldSource) (escaped : Bool) :
    Replaces.fillPiece (source.replacement? escaped) = source.fillPiece escaped := by
  funext piece
  cases piece with
  | plain c => rfl
  | field w p =>
    rw [Replaces.fillPiece, replacement?, fillPiece]
    cases source.get? p.path <;> rfl

/-- Filling in a text goes through it in this way, and counts what gives way to a value. -/
theorem replaces_iff {s : String} {out : List Char} {n : Nat} :
    Replaces (source.replacement? escaped) s.toList out n ↔
      out = (source.fill escaped s).toList ∧ n = source.countFilled s := by
  have hcount : source.countFilled s =
      ((pieces s.toList).filterMap Piece.placeholder?).countP fun p =>
        (source.replacement? escaped p).isSome := by
    rw [countFilled, placeholders]
    refine List.countP_congr fun p _ => ?_
    rw [replacement?, Option.isSome_map]
  rw [fill, String.toList_ofList, hcount, ← fillPiece_eq]
  constructor
  · exact Replaces.eq_of_pieces
  · rintro ⟨rfl, rfl⟩
    exact .of_pieces _ _

end FieldSource

/-! ## Looking up values -/

/-- The value of a path: the text that it has within the bound item if it begins with the bound
variable, and else the field value under the path, if that text or value is not empty. -/
theorem FieldSource.get?_eq_some_iff {source : FieldSource} {path value : String} :
    source.get? path = some value ↔ value ≠ "" ∧
      ((∃ b rest, source.binding = some b ∧ path = b.name ++ "." ++ rest ∧
          (b.item.at? rest).bind Datum.shown? = some value) ∨
        ((∀ b rest, source.binding = some b → path ≠ b.name ++ "." ++ rest) ∧
          source.values.get? path = some value)) := by
  by_cases h : ∃ b rest, source.binding = some b ∧ path = b.name ++ "." ++ rest
  · obtain ⟨b, rest, hbinding, hpath⟩ := h
    rw [get?_of_pathWithin? hbinding (Binding.pathWithin?_eq_some_iff.2 hpath),
      Binding.get?_eq_some_iff]
    refine and_congr_right fun _ => ⟨fun hfound => .inl ⟨b, rest, hbinding, hpath, hfound⟩, ?_⟩
    rintro (⟨b', rest', hbinding', hpath', hfound⟩ | ⟨hnone, -⟩)
    · obtain rfl : b = b' := Option.some.inj (hbinding.symm.trans hbinding')
      obtain rfl : rest = rest' := String.append_right_inj _ |>.1 (hpath.symm.trans hpath')
      exact hfound
    · exact absurd hpath (hnone b rest hbinding)
  · have hnone : ∀ b rest, source.binding = some b → path ≠ b.name ++ "." ++ rest :=
      fun b rest hbinding hpath => h ⟨b, rest, hbinding, hpath⟩
    rw [get?_of_forall_ne hnone, filter_isEmpty_eq_some_iff]
    refine and_congr_right fun _ => ⟨fun hfound => .inr ⟨hnone, hfound⟩, ?_⟩
    rintro (⟨b, rest, hbinding, hpath, -⟩ | ⟨-, hfound⟩)
    · exact absurd ⟨b, rest, hbinding, hpath⟩ h
    · exact hfound

/-! ## Going through documents -/

namespace FieldSource

variable {source : FieldSource}

/-- What becomes of attributes in which placeholders give way to their values, and how many have
one. The text of a condition takes the values in escaped form. -/
inductive ReplacesAttributes (source : FieldSource) :
    List (String × String) → List (String × String) → Nat → Prop where
  | nil : ReplacesAttributes source [] [] 0
  | cons {name text out : String} {rest rest' : List (String × String)} {m n : Nat}
      (htext : Replaces (source.replacement? (source.conditionAttribute == some name)) text.toList
        out.toList m)
      (hrest : ReplacesAttributes source rest rest' n) :
      ReplacesAttributes source ((name, text) :: rest) ((name, out) :: rest') (m + n)

/-- What becomes of a document in which placeholders give way to their values, and how many have
one. Its elements and their names stay. -/
inductive ReplacesForest (source : FieldSource) : Forest → Forest → Nat → Prop where
  | nil : ReplacesForest source .nil .nil 0
  | text {content out : String} {next next' : Forest} {m n : Nat}
      (hcontent : Replaces (source.replacement? false) content.toList out.toList m)
      (hnext : ReplacesForest source next next' n) :
      ReplacesForest source (.text content next) (.text out next') (m + n)
  | element {name : String} {attributes attributes' : Entries String}
      {children children' next next' : Forest} {k m n : Nat}
      (hattributes : ReplacesAttributes source attributes.toList attributes'.toList k)
      (hchildren : ReplacesForest source children children' m)
      (hnext : ReplacesForest source next next' n) :
      ReplacesForest source (.element ⟨name, attributes⟩ children next)
        (.element ⟨name, attributes'⟩ children' next') (k + m + n)

theorem replacesAttributes_iff {attributes out : List (String × String)} {n : Nat} :
    source.ReplacesAttributes attributes out n ↔
      out = attributes.map (fun a => (a.1, source.fillAttribute a.1 a.2)) ∧
        n = total (attributes.map fun a => source.countFilled a.2) := by
  constructor
  · intro h
    induction h with
    | nil => exact ⟨rfl, rfl⟩
    | cons htext hrest ih =>
      obtain ⟨hout, rfl⟩ := replaces_iff.1 htext
      obtain ⟨rfl, rfl⟩ := ih
      rw [String.toList_inj.1 hout]
      exact ⟨rfl, rfl⟩
  · rintro ⟨rfl, rfl⟩
    induction attributes with
    | nil => exact .nil
    | cons a rest ih => exact .cons (replaces_iff.2 ⟨rfl, rfl⟩) ih

theorem replacesAttributes_toList_iff {attributes out : Entries String} {n : Nat} :
    source.ReplacesAttributes attributes.toList out.toList n ↔
      out = attributes.mapValues source.fillAttribute ∧
        n = total (attributes.toList.map fun a => source.countFilled a.2) := by
  rw [replacesAttributes_iff]
  refine and_congr_left' ⟨fun hout => Entries.ext hout, ?_⟩
  rintro rfl
  rfl

/-- Filling in a document goes through it in this way, and counts what gives way to a value. -/
theorem replacesForest_iff {f g : Forest} {n : Nat} :
    source.ReplacesForest f g n ↔ g = f.fill source ∧ n = f.countFilled source := by
  constructor
  · intro h
    induction h with
    | nil => exact ⟨rfl, rfl⟩
    | text hcontent hnext ih =>
      obtain ⟨hout, rfl⟩ := replaces_iff.1 hcontent
      obtain ⟨rfl, rfl⟩ := ih
      rw [String.toList_inj.1 hout]
      exact ⟨rfl, rfl⟩
    | element hattributes hchildren hnext ihc ihn =>
      obtain ⟨rfl, rfl⟩ := replacesAttributes_toList_iff.1 hattributes
      obtain ⟨rfl, rfl⟩ := ihc
      obtain ⟨rfl, rfl⟩ := ihn
      exact ⟨rfl, rfl⟩
  · rintro ⟨rfl, rfl⟩
    induction f with
    | nil => exact .nil
    | text content next ih => exact .text (replaces_iff.2 ⟨rfl, rfl⟩) ih
    | element tag children next ihc ihn =>
      exact .element (replacesAttributes_toList_iff.2 ⟨rfl, rfl⟩) ihc ihn

end FieldSource

/-- A pass over a document counts what it does to its texts and attributes one by one. -/
theorem Forest.countFilled_eq_total (source : FieldSource) (f : Forest) :
    f.countFilled source = total (f.contents.map source.countFilled) := by
  induction f with
  | nil => rfl
  | text content next ih => rw [countFilled, contents, List.map_cons, total, ih]
  | element tag children next ihc ihn =>
    rw [countFilled, contents, List.map_append, List.map_append, total_append, total_append, ihc,
      ihn, Tag.countFilled, List.map_map]
    rfl

/-- The copies that are made of a template are filled in, and the tally counts what has been
replaced in them. -/
theorem Job.replaced_bindings (job : Job) (directive : String) (template : Forest)
    (tally : ExpansionTally) :
    let made := job.bindings directive template tally
    made.2.replaced = tally.replaced +
      total (made.1.map fun b => total (template.contents.map (job.sourceOf b).countFilled)) := by
  intro made
  have hcount : ∀ b, template.countFilled (job.sourceOf b) =
      total (template.contents.map (job.sourceOf b).countFilled) :=
    fun b => template.countFilled_eq_total (job.sourceOf b)
  simp only [made, Job.bindings, ← hcount]
  cases Directive.ofText? directive with
  | none => rfl
  | some d =>
    dsimp only
    cases (job.data.at? d.path).bind Datum.items? with
    | none => rfl
    | some items =>
      dsimp only
      split <;> rfl

/-- What is read as a placeholder are the texts that are spelled as one, and they are what a search
with backtracking finds first. A pass goes through a text from the first placeholder on to the first
one behind it, and puts the value of its path in the place of each that has one. All else stays as
it is, and the pass counts exactly the placeholders that gave way to a value. A pass over a document
does the same with all its texts and attributes. Expansion is rounds one after the other, and a
round puts copies in the place of a repeat. These copies and what is left of the expanded document
at the end are gone through in this way, and the report of a letter counts what was replaced in
them. -/
theorem Renderer.render_replaced (r : Renderer) (document : Forest) (values : Entries String)
    (data : Datum) :
    let job := r.job values data
    let expanded := document.expand job
    let kept := (expanded.1.dropWhere job.hides).mapTags (·.without job.settings.conditionAttribute)
    (∀ (p : Placeholder) (w : List Char), p.Written w ↔ p.Nameable ∧ p.Spelled w) ∧
      (∀ (cs : List Char) (p : Placeholder) (rest : List Char),
        (Placeholder.attempts cs).head? = some (p, rest) ↔ ∃ w, cs = w ++ rest ∧ p.Written w) ∧
      (∀ (source : FieldSource) (escaped : Bool) (s : String) (out : List Char) (n : Nat),
        Replaces (source.replacement? escaped) s.toList out n ↔
          out = (source.fill escaped s).toList ∧ n = source.countFilled s) ∧
      (∀ (source : FieldSource) (path value : String),
        source.get? path = some value ↔ value ≠ "" ∧
          ((∃ b rest, source.binding = some b ∧ path = b.name ++ "." ++ rest ∧
              (b.item.at? rest).bind Datum.shown? = some value) ∨
            ((∀ b rest, source.binding = some b → path ≠ b.name ++ "." ++ rest) ∧
              source.values.get? path = some value))) ∧
      (∀ (source : FieldSource) (f g : Forest) (n : Nat),
        source.ReplacesForest f g n ↔
          g = f.fill source ∧ n = total (f.contents.map source.countFilled)) ∧
      (∀ (directive : String) (template : Forest) (tally : ExpansionTally),
        let made := job.bindings directive template tally
        job.unroll directive template tally =
            (Forest.join (made.1.map fun b => template.fill (job.sourceOf b)), made.2) ∧
          made.2.replaced = tally.replaced + total (made.1.map fun b =>
            total (template.contents.map (job.sourceOf b).countFilled))) ∧
      (∀ (f g : Forest) (tally tally' : ExpansionTally),
        f.expandNext? job tally = some (g, tally') →
          ∃ directive template,
            f.firstRepeat? job.settings.repeatAttribute = some (directive, template) ∧
              g = f.replaceFirst job.settings.repeatAttribute
                (job.unroll directive template tally).1 ∧
              tally' = (job.unroll directive template tally).2) ∧
      (∃ made, Forest.Rounds job document made expanded.1 expanded.2) ∧
      (r.render document values data).document = kept.fill (.ofValues values) ∧
      (r.render document values data).report.fieldsReplaced = shownCount (expanded.2.replaced +
        total (kept.contents.map (FieldSource.ofValues values).countFilled)) := by
  intro job expanded kept
  have hvisible : (expanded.1.selectVisible job { memo := .empty }).1 = kept :=
    expanded.1.fst_selectVisible Memo.faithful_empty
  refine ⟨fun p w => Placeholder.written_iff, fun cs p rest => Placeholder.head?_attempts,
    fun source escaped s out n => FieldSource.replaces_iff,
    fun source path value => FieldSource.get?_eq_some_iff, fun source f g n => ?_,
    fun directive template tally => ⟨Forest.unroll_eq job directive template tally,
      job.replaced_bindings directive template tally⟩, fun f g tally tally' hround => ?_,
    Forest.Rounds.of_expand job document, ?_, ?_⟩
  · rw [FieldSource.replacesForest_iff, Forest.countFilled_eq_total]
  · obtain ⟨directive, template, hfirst, rfl, rfl⟩ :=
      Forest.exists_template_of_round (Forest.expandNext?_eq_some_iff.1 hround)
    exact ⟨directive, template, hfirst, by rw [Forest.unroll_eq], by rw [Forest.unroll_eq]⟩
  · rw [← hvisible]
    rfl
  · rw [← Forest.countFilled_eq_total, ← hvisible]
    rfl

end FormLetter
