import FormLetter.Proofs.DirectiveText
import FormLetter.Proofs.NumberCondition
import FormLetter.Proofs.Rounds
import FormLetter.Proofs.Unlimited

/-!
# Lists repeated and counted

A path is read in two ways: a repeat directive names the list to make copies for, and a condition
may ask how many items a list has. Both mean the same list. An element is copied as often as a
condition with the same path counts, and this count is compared with a numeral as a number.

* `Number.rank?_ofNat`: counts are exact numbers.
* `evaluate?_count`: what a count compared with a numeral says.
* `Job.itemsOf_of_readable`, `Job.snd_bindings_of_readable`: what a directive binds, and what it
  adds to the tally.
* `Job.copied_as_counted`: how often an element is copied, and what conditions say of that number.
-/

namespace FormLetter

/-! ## Exact counts -/

/-- Whole numbers of at most 53 bits are magnitudes. -/
theorem Magnitude.exists_units_eq {n : Nat} (h : n < power 2 53) :
    ∃ m : Magnitude, m.units = n * unitsPerOne := by
  by_cases h0 : n = 0
  · exact ⟨zero, by rw [h0, units_zero, Nat.zero_mul]⟩
  -- The leading bit is moved to the 53rd place.
  · have hlog : n.log2 < 53 := (log2_lt_iff h0).2 h
    obtain ⟨hlow, hhigh⟩ := (log2_eq_iff h0).1 rfl
    obtain ⟨shift, hshift⟩ : ∃ shift, n.log2 + shift = 52 := ⟨52 - n.log2, by omega⟩
    have hsmall : n * power 2 shift < power 2 53 := by
      have hlt := Nat.mul_lt_mul_of_pos_right hhigh (power_pos (by decide : 0 < 2) shift)
      rwa [← power_add, Nat.add_right_comm, hshift] at hlt
    have hnormal : power 2 52 ≤ n * power 2 shift := by
      have hle := Nat.mul_le_mul_right (power 2 shift) hlow
      rwa [← power_add, hshift] at hle
    have hplaces : shift + (unitPlaces - shift) = unitPlaces := by
      rw [unitPlaces]
      omega
    refine ⟨⟨n * power 2 shift, unitPlaces - shift, hsmall, ?_, .inr hnormal⟩, ?_⟩
    · exact Nat.le_trans (Nat.sub_le _ _) (by decide)
    · rw [units, Nat.mul_assoc, ← power_add, hplaces, unitsPerOne]

theorem Number.rank?_ofNat {n : Nat} (h : n < power 2 53) :
    (ofNat n).rank? = some ((n * Magnitude.unitsPerOne : Nat) : Int) := by
  obtain ⟨m, hm⟩ := Magnitude.exists_units_eq h
  have hnearest := m.nearest?_units Nat.one_pos
  rw [Nat.mul_one] at hnearest
  rw [ofNat_eq]
  dsimp only
  rw [← hm, hnearest]
  rfl

/-- What a comparison says about a count and a number. -/
def Comparison.RelatesCount (c : Comparison) (n : Nat) (k : Number) : Prop :=
  ∃ y, k.rank? = some y ∧ c.Relates ((n * Magnitude.unitsPerOne : Nat) : Int) y

theorem Comparison.holds_count {n : Nat} (h : n < power 2 53) {k : Number} (hk : k.isNaN = false)
    (c : Comparison) :
    c.holds (.number (.ofNat n)) (.number k) = true ↔ c.RelatesCount n k := by
  have hn : (Number.ofNat n).isNaN = false := by
    rw [Number.isNaN, Number.rank?_ofNat h]
    rfl
  rw [holds_number hn hk, RelatesNumbers, Number.rank?_ofNat h, RelatesCount]
  constructor
  · rintro ⟨x, y, hx, hy, hrelates⟩
    cases hx
    exact ⟨y, hy, hrelates⟩
  · rintro ⟨y, hy, hrelates⟩
    exact ⟨_, y, rfl, hy, hrelates⟩

/-! ## Conditions about a count -/

/-- A path before a comparison, asked for its number of items, is the first token. -/
theorem Token.readAll_count {path blanks cs : List Char} {c : Comparison} {k : Number}
    (hpath : ∀ d ∈ path, isWordChar d = true) (hblanks : ∀ d ∈ blanks, isBlank d = true)
    (hcs : ComparesWith c k cs) :
    readAll (blanks ++ ((dataRoot ++ ".").toList ++ (path ++ '.' :: countName.toList) ++ cs)) =
      [.reference ⟨String.ofList path, true⟩, .operator (.compare c), .literal (.number k)] := by
  obtain ⟨more, hroot⟩ : ∃ more, (dataRoot ++ ".").toList = 'M' :: more := ⟨_, rfl⟩
  have hmore : ∀ d ∈ more ++ (path ++ '.' :: countName.toList), isWordChar d = true := by
    intro d hd
    rcases List.mem_append.1 hd with hd | hd
    · have hall : (dataRoot ++ ".").toList.all isWordChar = true := by decide
      rw [hroot] at hall
      exact List.all_eq_true.1 hall d (.tail _ hd)
    · rcases List.mem_append.1 hd with hd | hd
      · exact hpath d hd
      · rcases List.mem_cons.1 hd with rfl | hd
        · decide
        · exact isWordChar_of_mem_countName d hd
  have hword := readAll_word hblanks (by decide : isWordStart 'M' = true) hmore
    hcs.isWordChar_eq_false
  rw [← List.cons_append, ← hroot, ofWord_path, Reference.ofPath_append_count, hcs.readAll] at hword
  exact hword

/-- A count compared with a numeral says what the comparison says about the two, if no list is too
long to be counted. -/
theorem evaluate?_count {condition path : String} {blanks cs : List Char} {c : Comparison}
    {k : Number} (hcondition : condition.toList =
      blanks ++ ((dataRoot ++ "." ++ path ++ "." ++ countName).toList ++ cs))
    (hblanks : ∀ d ∈ blanks, isBlank d = true) (hpath : ∀ d ∈ path.toList, isWordChar d = true)
    (hcs : ComparesWith c k cs) {data : Datum} (hlong : data.longestList ≤ maxCount) :
    ∃ holds, evaluate? condition data = some holds ∧
      (holds = true ↔ c.RelatesCount (data.countAt path) k) := by
  have hcount : data.countAt path ≤ maxCount := by
    rw [Datum.countAt]
    cases hlist : (data.at? path).bind Datum.items? with
    | none => exact Nat.zero_le _
    | some items =>
      obtain ⟨found, hfound, hitems⟩ := Option.bind_eq_some_iff.1 hlist
      exact Nat.le_trans (Datum.length_at?_le (Datum.items?_eq_some_iff.1 hitems ▸ hfound)) hlong
  have htokens : Token.ofText condition =
      [.reference ⟨path, true⟩, .operator (.compare c), .literal (.number k)] := by
    have hread := Token.readAll_count hpath hblanks hcs
    rw [String.ofList_toList] at hread
    rw [Token.ofText, hcondition, ← hread]
    simp
  have hread : Expression.ofText? condition =
      .ok (.binary (.compare c) (.reference ⟨path, true⟩) (.literal (.number k))) := by
    rw [Expression.ofText?, htokens]
    rfl
  refine ⟨c.holds (.number (.ofNat (data.countAt path))) (.number k), ?_,
    c.holds_count (Nat.lt_of_le_of_lt hcount (by decide)) hcs.isNaN_eq_false⟩
  rw [evaluate?, hread]
  have hvalue : (Reference.mk path true).value data =
      .number (.ofNat (data.countAt path)) := by
    rw [Reference.value, if_pos rfl, Nat.min_eq_left hcount]
  show some ((Datum.bool (c.holds ((Reference.mk path true).value data) (.number k))).isTrue) = _
  rw [hvalue]
  rfl

/-! ## Repeats over a list -/

/-- The items of the list that a path names, and none if it names no list. -/
def Datum.itemsAt (d : Datum) (path : String) : List Datum := ((d.at? path).bind items?).getD []

theorem Datum.length_itemsAt (d : Datum) (path : String) :
    (d.itemsAt path).length = d.countAt path := by
  rw [itemsAt, countAt]
  cases (d.at? path).bind items? <;> rfl

namespace Job

variable {job : Job} {text : String} {d : Directive}

/-- A directive binds the items at its path. -/
theorem itemsOf_of_readable (h : Directive.ofText? text = some d) :
    job.itemsOf text = (job.data.itemsAt d.path).map (Binding.mk d.variableName) := by
  rw [itemsOf, h, Datum.itemsAt]
  cases hlist : (job.data.at? d.path).bind Datum.items? <;> simp [hlist]

/-- A directive that can be read adds to a tally what its path counts, and one more directive if the
path names a list. -/
theorem snd_bindings_of_readable (hfree : job.settings.maxIterations = none)
    (h : Directive.ofText? text = some d) (template : Forest) (tally : ExpansionTally) :
    (job.bindings text template tally).2.iterations = tally.iterations + job.data.countAt d.path ∧
      (job.bindings text template tally).2.expanded =
        tally.expanded + ((job.data.at? d.path).bind Datum.items?).isSome.toNat := by
  unfold bindings
  rw [h, Datum.countAt]
  cases hlist : (job.data.at? d.path).bind Datum.items? with
  | none => simp [hlist]
  | some items => simp [hlist, exceeds_eq_false hfree]

end Job

/-- Without a ceiling, an element that is repeated for the items at a path gives way to one copy for
each of them, in their order, and there are as many as the path counts. So it does in the round that
comes to it, whatever was expanded before, and in the expanded document. The round counts one more
expanded repeat if the path names a list, and else none. A condition that compares the number of
items at the path with a numeral can be read, and it says what the comparison says about the two
numbers. The path may be any text of word characters. -/
theorem Job.copied_as_counted (job : Job) (hfree : job.settings.maxIterations = none)
    (hlong : job.data.longestList ≤ maxCount) {d : Directive} (hd : d.Nameable) :
    let items := job.data.itemsAt d.path
    items.length = job.data.countAt d.path ∧
      (∀ text : String, d.Spelled text.toList →
        (∀ (f template : Forest) (tally : ExpansionTally),
          f.firstRepeat? job.settings.repeatAttribute = some (text, template) →
          let copies := items.map fun item => template.fill (job.copySource d.variableName item)
          ∃ tally' : ExpansionTally,
            f.expandNext? job tally =
                some (f.replaceFirst job.settings.repeatAttribute (.join copies), tally') ∧
              tally'.iterations = tally.iterations + items.length ∧
              tally'.expanded =
                tally.expanded + ((job.data.at? d.path).bind Datum.items?).isSome.toNat) ∧
        ∀ (tag : Tag) (children next : Forest),
          tag.attributes.get? job.settings.repeatAttribute = some text →
          let bare := tag.without job.settings.repeatAttribute
          let copies := items.map fun item =>
            let source := job.copySource d.variableName item
            Forest.element (bare.fill source) ((children.fill source).expand job).1 .nil
          ((Forest.element tag children next).expand job).1 =
            .join copies ++ (next.expand job).1) ∧
      ∀ (c : Comparison) (k : Number) (condition : String) (blanks cs : List Char),
        condition.toList =
          blanks ++ ((dataRoot ++ "." ++ d.path ++ "." ++ countName).toList ++ cs) →
        (∀ b ∈ blanks, isBlank b = true) → ComparesWith c k cs →
        ∃ holds, evaluate? condition job.data = some holds ∧
          (holds = true ↔ c.RelatesCount items.length k) := by
  intro items
  have hlength : items.length = job.data.countAt d.path := Datum.length_itemsAt _ _
  refine ⟨hlength, fun text htext => ?_, fun c k condition blanks cs hcondition hblanks hcs => ?_⟩
  · have hread := Directive.ofText?_of_spelled hd htext
    have hitems : job.itemsOf text = items.map (Binding.mk d.variableName) :=
      itemsOf_of_readable hread
    refine ⟨fun f template tally hfirst => ?_, fun tag children next hdirective => ?_⟩
    · obtain ⟨hiterations, hexpanded⟩ := snd_bindings_of_readable hfree hread template tally
      rw [← hlength] at hiterations
      refine ⟨_, ?_, hiterations, hexpanded⟩
      rw [Forest.expandNext?_of_firstRepeat? hfirst, Forest.nextCopies_of_firstRepeat? hfirst,
        bindings_of_unlimited hfree, hitems, List.map_map]
      rfl
    · rw [Forest.fst_expand_repeat hfree hdirective, hitems, List.map_map]
      rfl
  · rw [hlength]
    exact evaluate?_count hcondition hblanks hd.isWordChar hcs hlong

open ComparedNumber in
/-- A path with an empty name, with one that begins with a digit and with the name of counts in it.
Its list has three items, so there are three copies, and the count is at least two and a half. -/
theorem Job.copied_as_counted_three :
    let path := "2x..Count"
    let data : Datum := .record [("2x", .record [("Count", .list [.text "a", .null, .bool true])])]
    let job : Job := ⟨{}, .empty, data⟩
    let copy (content : String) (next : Forest) : Forest :=
      .element ⟨"p", .empty⟩ (.text content .nil) next
    job.settings.maxIterations = none ∧ data.longestList ≤ maxCount ∧
      (Directive.mk "in" path).Nameable ∧
      ((Forest.element ⟨"p", .ofList [("data-repeat", " in  in Model.2x..Count ")]⟩
        (.text "[[in.]]" .nil) .nil).expand job).1 =
          copy "a" (copy "[[in.]]" (copy "true" .nil)) ∧
      evaluate? "Model.2x..Count.Count>=2.5" data = some true := by
  intro path data job copy
  have hlong : data.longestList ≤ maxCount := by decide +kernel
  have hnameable : (Directive.mk "in" path).Nameable :=
    ⟨by decide, List.all_eq_true.1 (by decide : "in".toList.all isNameChar = true), by decide,
      List.all_eq_true.1 (by decide : "2x..Count".toList.all isWordChar = true)⟩
  have hblank : ∀ c ∈ [' '], isBlank c = true :=
    List.all_eq_true.1 (by decide : [' '].all isBlank = true)
  have hblanks : ∀ c ∈ [' ', ' '], isBlank c = true :=
    List.all_eq_true.1 (by decide : [' ', ' '].all isBlank = true)
  have htext : " in  in Model.2x..Count ".toList = [' '] ++ ("in".toList ++ ([' ', ' '] ++
      ("in".toList ++ ([' '] ++ ((dataRoot ++ ".").toList ++ (path.toList ++ [' '])))))) := by
    decide +kernel
  have hspelled : (Directive.mk "in" path).Spelled " in  in Model.2x..Count ".toList := by
    rw [htext]
    exact Directive.Spelled.intro (d := ⟨"in", path⟩) hblank (List.cons_ne_nil _ _) hblanks
      (List.cons_ne_nil _ _) hblank hblank
  obtain ⟨-, hrepeat, hcompare⟩ := job.copied_as_counted rfl hlong hnameable
  refine ⟨rfl, hlong, hnameable, ?_, ?_⟩
  · refine ((hrepeat _ hspelled).2 ⟨"p", .ofList [("data-repeat", " in  in Model.2x..Count ")]⟩
      (.text "[[in.]]" .nil) .nil rfl).trans ?_
    decide +kernel
  · obtain ⟨holds, hevaluate, hiff⟩ := hcompare .greaterOrEqual (.finite false twoAndAHalf)
      "Model.2x..Count.Count>=2.5" [] ">=2.5".toList (by decide +kernel) nofun comparesWith
    have hrelates : Comparison.greaterOrEqual.RelatesCount 3 (.finite false twoAndAHalf) := by
      refine ⟨_, rfl, ?_⟩
      show Number.signed false twoAndAHalf.units ≤ _
      decide +kernel
    have hthree : (job.data.itemsAt path).length = 3 := by decide +kernel
    have hholds : holds = true := by
      rw [hiff, hthree]
      exact hrelates
    rw [hevaluate, hholds]

end FormLetter
