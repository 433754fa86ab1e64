import FormLetter.Proofs.LooseEquality

/-!
# Order in conditions

A condition can order two operands that can be read as numbers, and no others. Equality looks at
truth values first, and where the operands are no numbers at their texts; but a truth value cannot
be read as a number, so wherever two operands are ordered, equality and order are about the same two
numbers. Numbers other than `nan` have a place among all numbers, which is an integer, and every
comparison says about two numbers what it says about their places.

* `Datum.Numeric`: the operands that can be read as numbers. `Datum.numeric_iff`: that is what
  `Datum.asNumber?` finds out.
* `Comparison.holds_iff_relatesNumbers`: a comparison of such operands relates their numbers.
* `Expression.ordering_laws`: how `<`, `<=`, `>`, `>=` and `==` between two expressions fit
  together.
-/

namespace FormLetter

/-! ## Places of numbers -/

/-- What a comparison says about integers. -/
def Comparison.Relates (x y : Int) : Comparison → Prop
  | .equal => x = y
  | .notEqual => x ≠ y
  | .greater => y < x
  | .less => x < y
  | .greaterOrEqual => y ≤ x
  | .lessOrEqual => x ≤ y

/-- What a comparison says about numbers: it relates the places that they have among all numbers. -/
def Comparison.RelatesNumbers (c : Comparison) (a b : Number) : Prop :=
  ∃ x y, a.rank? = some x ∧ b.rank? = some y ∧ c.Relates x y

theorem Comparison.relatesNumbers_iff {a b : Number} {x y : Int} (ha : a.rank? = some x)
    (hb : b.rank? = some y) (c : Comparison) : c.RelatesNumbers a b ↔ c.Relates x y := by
  constructor
  · rintro ⟨x', y', ha', hb', h⟩
    obtain rfl : x = x' := Option.some.inj (ha.symm.trans ha')
    obtain rfl : y = y' := Option.some.inj (hb.symm.trans hb')
    exact h
  · intro h
    exact ⟨x, y, ha, hb, h⟩

/-- The comparison that says the same about two operands in the other order. -/
def Comparison.reverse : Comparison → Comparison
  | .equal => .equal
  | .notEqual => .notEqual
  | .greater => .less
  | .less => .greater
  | .greaterOrEqual => .lessOrEqual
  | .lessOrEqual => .greaterOrEqual

/-- The comparisons that order their operands. -/
def Comparison.orderings : List Comparison := [.greater, .less, .greaterOrEqual, .lessOrEqual]

/-- Of two integers exactly one is smaller, or they are equal. -/
theorem Comparison.existsUnique_relates (x y : Int) :
    ∃! c : Comparison, c ∈ [.less, .equal, .greater] ∧ c.Relates x y := by
  have hsome : ∃ c : Comparison, c ∈ [.less, .equal, .greater] ∧ c.Relates x y := by
    rcases Int.lt_trichotomy x y with hlt | heq | hgt
    · exact ⟨.less, by decide, hlt⟩
    · exact ⟨.equal, by decide, heq⟩
    · exact ⟨.greater, by decide, hgt⟩
  refine existsUnique_of_exists_of_unique hsome ?_
  rintro c c' ⟨hc, h⟩ ⟨hc', h'⟩
  simp only [List.mem_cons, List.not_mem_nil, or_false] at hc hc'
  rcases hc with rfl | rfl | rfl <;> rcases hc' with rfl | rfl | rfl <;> grind [Relates]

/-! ## Operands that can be read as numbers -/

namespace Datum

variable {a b : Datum}

/-- The operand can be read as a number: it is one other than `nan`, or it is a text that spells a
finite number, perhaps between blanks. -/
inductive Numeric : Datum → Prop where
  | number {value : Number} (h : value ≠ .nan) : Numeric (.number value)
  | text {value : String} {spelled : Number}
      (h : Number.ofText? (trim value.toList) = some spelled) (hfinite : spelled.isFinite = true) :
      Numeric (.text value)

/-- A number that an operand is read as has a place among all numbers. -/
theorem exists_rank?_of_asNumber? {n : Number} (h : a.asNumber? = some n) :
    ∃ x, n.rank? = some x := by
  have hnan : n ≠ .nan := by
    rintro rfl
    cases a with
    | number value =>
      rw [asNumber?] at h
      split at h
      · cases h
      · rename_i hvalue
        cases h
        exact hvalue rfl
    | text value =>
      rw [asNumber?, Option.filter_eq_some_iff] at h
      cases h.2
    | _ => cases h
  cases n with
  | nan => exact absurd rfl hnan
  | infinite negative => exact ⟨_, rfl⟩
  | finite negative magnitude => exact ⟨_, rfl⟩

theorem numeric_iff : a.Numeric ↔ ∃ n, a.asNumber? = some n := by
  constructor
  · intro h
    cases h with
    | @number value hvalue =>
      refine ⟨value, ?_⟩
      cases value with
      | nan => exact absurd rfl hvalue
      | _ => rfl
    | @text value spelled hspelled hfinite =>
      exact ⟨spelled, by rw [asNumber?, hspelled, Option.filter_some_pos hfinite]⟩
  · rintro ⟨n, hn⟩
    cases a with
    | number value =>
      refine .number ?_
      rintro rfl
      cases hn
    | text value =>
      rw [asNumber?, Option.filter_eq_some_iff] at hn
      exact .text hn.1 hn.2
    | _ => cases hn

theorem isBool_eq_false_of_asNumber? {n : Number} (h : a.asNumber? = some n) :
    a.isBool = false := by
  cases a with
  | bool => cases h
  | _ => rfl

theorem ordered_eq_false (h : ¬(a.Numeric ∧ b.Numeric)) (related : Number → Number → Bool) :
    a.ordered related b = false := by
  unfold ordered
  split
  · rename_i x y hx hy
    exact absurd ⟨numeric_iff.2 ⟨x, hx⟩, numeric_iff.2 ⟨y, hy⟩⟩ h
  · rfl

end Datum

namespace Comparison

variable {a b : Datum}

/-- A comparison of operands that can be read as numbers is one of these numbers. -/
theorem holds_iff_relatesNumbers {m n : Number} (ha : a.asNumber? = some m)
    (hb : b.asNumber? = some n) (c : Comparison) :
    c.holds a b = true ↔ c.RelatesNumbers m n := by
  obtain ⟨x, hx⟩ := Datum.exists_rank?_of_asNumber? ha
  obtain ⟨y, hy⟩ := Datum.exists_rank?_of_asNumber? hb
  rw [relatesNumbers_iff hx hy]
  -- Neither operand is a truth value, so equality is that of numbers, too.
  have hequals : a.looselyEquals b = a.equalsByValue b :=
    Datum.looselyEquals_of_not_bool (Datum.isBool_eq_false_of_asNumber? ha)
      (Datum.isBool_eq_false_of_asNumber? hb)
  cases c <;>
    simp [holds, hequals, Datum.equalsByValue, Datum.ordered, ha, hb, Number.eqv, Number.lt,
      Number.le, hx, hy, Relates]

/-- Operands that cannot both be read as numbers are in no order. -/
theorem holds_eq_false_of_mem_orderings (h : ¬(a.Numeric ∧ b.Numeric)) {c : Comparison}
    (hc : c ∈ orderings) : c.holds a b = false := by
  simp only [orderings, List.mem_cons, List.not_mem_nil, or_false] at hc
  rcases hc with rfl | rfl | rfl | rfl <;> exact Datum.ordered_eq_false h _

/-- A comparison says the same about its operands in the other order as its reverse. -/
theorem holds_reverse (c : Comparison) (a b : Datum) : c.reverse.holds a b = c.holds b a := by
  cases c with
  | equal => exact a.looselyEquals_comm b
  | notEqual => exact congrArg not (a.looselyEquals_comm b)
  | _ =>
    simp only [reverse, holds, Datum.ordered]
    cases a.asNumber? <;> cases b.asNumber? <;> rfl

end Comparison

/-! ## Expressions -/

namespace Expression

/-- Whether a comparison of two expressions holds of some data. -/
def compares (data : Datum) (c : Comparison) (a b : Expression) : Bool :=
  (binary (.compare c) a b).holds data

theorem compares_eq (data : Datum) (c : Comparison) (a b : Expression) :
    compares data c a b = c.holds (a.value data) (b.value data) := rfl

/-- How order and equality between two expressions fit together over any data. If both can be read
as numbers, exactly one of `<`, `==` and `>` holds between them, and `<=` and `>=` allow for
equality. If they cannot, they are in no order. -/
theorem ordering_laws (data : Datum) (a b : Expression) :
    ((a.value data).Numeric ∧ (b.value data).Numeric →
      (∃! c, c ∈ [.less, .equal, .greater] ∧ compares data c a b = true) ∧
      compares data .lessOrEqual a b = (compares data .less a b || compares data .equal a b) ∧
      compares data .greaterOrEqual a b =
        (compares data .greater a b || compares data .equal a b)) ∧
    (¬((a.value data).Numeric ∧ (b.value data).Numeric) →
      ∀ c ∈ Comparison.orderings, compares data c a b = false) ∧
    compares data .less a b = compares data .greater b a := by
  simp only [compares_eq]
  refine ⟨?_, fun h c hc => Comparison.holds_eq_false_of_mem_orderings h hc,
    Comparison.holds_reverse .greater _ _⟩
  rintro ⟨ha, hb⟩
  obtain ⟨m, hm⟩ := Datum.numeric_iff.1 ha
  obtain ⟨n, hn⟩ := Datum.numeric_iff.1 hb
  obtain ⟨x, hx⟩ := Datum.exists_rank?_of_asNumber? hm
  obtain ⟨y, hy⟩ := Datum.exists_rank?_of_asNumber? hn
  have hholds (c : Comparison) : c.holds (a.value data) (b.value data) = true ↔ c.Relates x y :=
    (c.holds_iff_relatesNumbers hm hn).trans (c.relatesNumbers_iff hx hy)
  refine ⟨?_, ?_, ?_⟩
  · simp only [hholds]
    exact Comparison.existsUnique_relates x y
  · rw [Bool.eq_iff_iff, Bool.or_eq_true, hholds, hholds, hholds]
    exact Int.le_iff_lt_or_eq
  · rw [Bool.eq_iff_iff, Bool.or_eq_true, hholds, hholds, hholds]
    exact Int.le_iff_lt_or_eq.trans (or_congr_right eq_comm)

/-- Three rooms and a text that spells ten are in one order. With a truth value they are in none,
although it equals them. -/
theorem ordering_laws_rooms :
    let data : Datum := .record [("rooms", .number (.ofNat 3)), ("sold", .bool true)]
    let rooms : Expression := .reference ⟨"rooms", false⟩
    let ten : Expression := .literal (.text " 10. ")
    let sold : Expression := .reference ⟨"sold", false⟩
    ((rooms.value data).Numeric ∧ (ten.value data).Numeric) ∧
      ¬((rooms.value data).Numeric ∧ (sold.value data).Numeric) ∧
      (∃! c, c ∈ [.less, .equal, .greater] ∧ compares data c rooms ten = true) ∧
      compares data .lessOrEqual rooms ten = true ∧
      compares data .greaterOrEqual rooms ten = false ∧
      (∀ c ∈ Comparison.orderings, compares data c rooms sold = false) ∧
      compares data .equal rooms sold = true := by
  intro data rooms ten sold
  have hspelled : Number.ofText? (trim " 10. ".toList) = some (.ofNat 10) := by decide +kernel
  have hnumeric : (rooms.value data).Numeric ∧ (ten.value data).Numeric :=
    ⟨.number (by decide +kernel), .text hspelled (by decide +kernel)⟩
  have hsold : ¬((rooms.value data).Numeric ∧ (sold.value data).Numeric) := fun h => nomatch h.2
  obtain ⟨hunique, hle, hge⟩ := (ordering_laws data rooms ten).1 hnumeric
  refine ⟨hnumeric, hsold, hunique, ?_, ?_, (ordering_laws data rooms sold).2.1 hsold, ?_⟩
  · rw [hle]
    decide +kernel
  · rw [hge]
    decide +kernel
  · decide +kernel

-- Texts that are no numbers may be equal, but one is not at most the other.
example :
    let name : Expression := .literal (.text "a")
    compares .null .equal name name = true ∧ compares .null .lessOrEqual name name = false := by
  decide

end Expression

end FormLetter
