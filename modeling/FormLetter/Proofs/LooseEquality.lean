import FormLetter.Condition.Evaluation
import FormLetter.Proofs.PrintedNumber

/-!
# Equality in conditions

Two operands of a condition are compared as truth values, as numbers or as texts, whichever they
have in common. That these ways to compare fit together is due to how numbers are shown: a finite
number as a text that reads as that number, and every other number as a text that reads as no finite
number. So where operands are shown it is only their texts that matter, and texts are compared by an
equivalence. Data that are not shown are compared part by part, where `nan` is unlike itself.

* `Datum.equalsByValue_iff_sameValue`: equality of operands that are shown is that of their texts.
* `Datum.equalsByValue_trans`, `Datum.equalsByValue_self`: equality of operands other than truth
  values is transitive, and reflexive but for the lists and records with `nan` in them.
* `Expression.equality_laws`: the laws of `==` and `!=` between any two expressions.
-/

namespace FormLetter

/-! ## Numbers as texts -/

namespace Number

theorem eqv_self_eq (a : Number) : a.eqv a = !a.isNaN := by
  unfold eqv isNaN
  cases a.rank? with
  | none => rfl
  | some x => exact beq_self_eq_true x

theorem isNaN_eq_false_of_isFinite {a : Number} (h : a.isFinite = true) : a.isNaN = false := by
  cases a with
  | finite => rfl
  | _ => cases h

theorem signed_inj {negative negative' : Bool} {m n : Nat}
    (h : signed negative m = signed negative' n) : m = n ∧ (m ≠ 0 → negative = negative') := by
  unfold signed at h
  cases negative <;> cases negative' <;> grind

/-- An infinity is equal to itself only: no finite number has its place. -/
theorem eq_infinite_of_eqv {negative : Bool} {b : Number}
    (h : (infinite negative).eqv b = true) : b = infinite negative := by
  obtain ⟨x, hx, hb⟩ := eqv_iff.1 h
  obtain rfl : signed negative Magnitude.bound = x := Option.some.inj hx
  cases b with
  | nan => cases hb
  | infinite negative' =>
    have hpos : Magnitude.bound ≠ 0 := Nat.ne_of_gt Magnitude.zero.units_lt_bound
    rw [(signed_inj (Option.some.inj hb)).2 hpos]
  | finite negative' m =>
    exact absurd (signed_inj (Option.some.inj hb)).1 (Nat.ne_of_lt m.units_lt_bound)

theorem text_injective : Function.Injective text := fun a b h => by
  have ha := ofText?_text a
  rw [h, ofText?_text b] at ha
  exact (Option.some.inj ha).symm

theorem isBlank_eq_false_of_mem_text {a : Number} {c : Char} (h : c ∈ a.text.toList) :
    isBlank c = false := by
  rcases isNumeralChar_or_of_mem_text h with hnumeral | hword
  · exact isBlank_eq_false_of_isNumeralChar hnumeral
  · have hkind : "-infNaN".toList.any isBlank = false := by decide
    exact Bool.eq_false_iff.2 (List.any_eq_false.1 hkind c hword)

/-- Every number reads back from its text when the blanks around that are cut off. -/
theorem ofText?_trim_text (a : Number) : ofText? (trim a.text.toList) = some a := by
  rw [trim_eq_self fun _ => isBlank_eq_false_of_mem_text, ofText?_text]

end Number

namespace Datum

/-! ## Alike data -/

/-- Whether a datum is a truth value. -/
def isBool : Datum → Bool
  | .bool _ => true
  | _ => false

/-- Whether a datum is `nan`. -/
def isNaN : Datum → Bool
  | .number value => value.isNaN
  | _ => false

mutual

/-- Whether `nan` stands anywhere within a list or a record. -/
def containsNaN : Datum → Bool
  | .list items => itemsContainNaN items
  | .record entries => entriesContainNaN entries
  | _ => false

/-- Whether one of the items of a list is `nan` or contains it. -/
def itemsContainNaN : List Datum → Bool
  | [] => false
  | x :: xs => x.isNaN || x.containsNaN || itemsContainNaN xs

/-- Whether one of the entries of a record is `nan` or contains it. -/
def entriesContainNaN : List (String × Datum) → Bool
  | [] => false
  | (_, x) :: xs => x.isNaN || x.containsNaN || entriesContainNaN xs

end

mutual

/-- A datum is alike itself unless it is `nan` or contains it. -/
theorem alike_self : ∀ d : Datum, d.alike d = !(d.isNaN || d.containsNaN)
  | .null => rfl
  | .bool value => by simp [alike, isNaN, containsNaN]
  | .number value => by simp [alike, isNaN, containsNaN, Number.eqv_self_eq]
  | .text value => by simp [alike, isNaN, containsNaN]
  | .list items => by simp [alike, isNaN, containsNaN, alikeItems_self items]
  | .record entries => by simp [alike, isNaN, containsNaN, alikeEntries_self entries]

theorem alikeItems_self : ∀ xs : List Datum, alikeItems xs xs = !itemsContainNaN xs
  | [] => rfl
  | x :: xs => by simp [alikeItems, itemsContainNaN, alike_self x, alikeItems_self xs]

theorem alikeEntries_self :
    ∀ xs : List (String × Datum), alikeEntries xs xs = !entriesContainNaN xs
  | [] => rfl
  | (_, x) :: xs => by simp [alikeEntries, entriesContainNaN, alike_self x, alikeEntries_self xs]

end

mutual

/-- What is alike a third datum is alike what that is alike to. -/
theorem alike_trans : ∀ {a b c : Datum}, a.alike b = true → b.alike c = true → a.alike c = true
  | .null, b, _, hab, hbc => by
    cases b with
    | null => exact hbc
    | _ => cases hab
  | .bool x, b, _, hab, hbc => by
    cases b with
    | bool y =>
      obtain rfl : x = y := eq_of_beq hab
      exact hbc
    | _ => cases hab
  | .number x, b, c, hab, hbc => by
    cases b with
    | number y =>
      cases c with
      | number z => exact Number.eqv_trans hab hbc
      | _ => cases hbc
    | _ => cases hab
  | .text x, b, _, hab, hbc => by
    cases b with
    | text y =>
      obtain rfl : x = y := eq_of_beq hab
      exact hbc
    | _ => cases hab
  | .list xs, b, c, hab, hbc => by
    cases b with
    | list ys =>
      cases c with
      | list zs => exact alikeItems_trans hab hbc
      | _ => cases hbc
    | _ => cases hab
  | .record xs, b, c, hab, hbc => by
    cases b with
    | record ys =>
      cases c with
      | record zs => exact alikeEntries_trans hab hbc
      | _ => cases hbc
    | _ => cases hab

theorem alikeItems_trans : ∀ {xs ys zs : List Datum},
    alikeItems xs ys = true → alikeItems ys zs = true → alikeItems xs zs = true
  | [], [], _, _, h => h
  | _ :: _, _ :: _, [], _, h => h
  | x :: xs, y :: ys, z :: zs, hxy, hyz => by
    rw [alikeItems, Bool.and_eq_true] at hxy hyz ⊢
    exact ⟨alike_trans hxy.1 hyz.1, alikeItems_trans hxy.2 hyz.2⟩

theorem alikeEntries_trans : ∀ {xs ys zs : List (String × Datum)},
    alikeEntries xs ys = true → alikeEntries ys zs = true → alikeEntries xs zs = true
  | [], [], _, _, h => h
  | _ :: _, _ :: _, [], _, h => h
  | (l, x) :: xs, (m, y) :: ys, (n, z) :: zs, hxy, hyz => by
    simp only [alikeEntries, Bool.and_eq_true, beq_iff_eq] at hxy hyz ⊢
    obtain ⟨⟨rfl, hx⟩, hxs⟩ := hxy
    obtain ⟨⟨rfl, hy⟩, hys⟩ := hyz
    exact ⟨⟨rfl, alike_trans hx hy⟩, alikeEntries_trans hxs hys⟩

end

/-! ## Operands that are shown -/

variable {a b c : Datum} {s t : String}

/-- The text of an operand reads as the same number, if that is finite, and else as none. -/
theorem asNumber?_text_of_shown? (h : a.shown? = some s) :
    (text s).asNumber? = a.asNumber?.filter Number.isFinite := by
  cases a with
  | bool value =>
    cases h
    cases value <;> decide
  | number n =>
    cases h
    simp only [asNumber?, n.ofText?_trim_text]
    cases n <;> rfl
  | text s =>
    cases h
    simp only [asNumber?, Option.filter_filter, Bool.and_self]
  | _ => cases h

/-- Only a number itself can be read as a number that is not finite, which is an infinity then. -/
theorem exists_infinite_of_asNumber? {x : Number} (h : a.asNumber? = some x)
    (hfinite : x.isFinite = false) :
    ∃ negative, x = .infinite negative ∧ a.shown? = some x.text := by
  cases a with
  | number n =>
    rw [asNumber?] at h
    cases n with
    | nan => cases h
    | infinite negative =>
      cases h
      exact ⟨negative, rfl, rfl⟩
    | finite negative magnitude =>
      cases h
      cases hfinite
  | text s =>
    rw [asNumber?, Option.filter_eq_some_iff, hfinite] at h
    cases h.2
  | _ => cases h

/-- Two texts are the same, or they spell finite numbers that are the same. -/
def SameValue (s t : String) : Prop :=
  s = t ∨ ∃ x y, (text s).asNumber? = some x ∧ (text t).asNumber? = some y ∧ x.eqv y = true

theorem SameValue.trans {u : String} (hst : SameValue s t) (htu : SameValue t u) :
    SameValue s u := by
  rcases hst with rfl | ⟨x, y, hx, hy, hxy⟩
  · exact htu
  · rcases htu with rfl | ⟨y', z, hy', hz, hyz⟩
    · exact .inr ⟨x, y, hx, hy, hxy⟩
    · obtain rfl : y = y' := Option.some.inj (hy.symm.trans hy')
      exact .inr ⟨x, z, hx, hz, Number.eqv_trans hxy hyz⟩

/-- Operands that are the same number are shown as texts of the same value. -/
theorem sameValue_of_eqv {x y : Number} (ha : a.shown? = some s) (hb : b.shown? = some t)
    (hx : a.asNumber? = some x) (hy : b.asNumber? = some y) (h : x.eqv y = true) :
    SameValue s t := by
  cases hfinite : x.isFinite with
  | true =>
    cases hfinite' : y.isFinite with
    | true =>
      refine .inr ⟨x, y, ?_, ?_, h⟩
      · rw [asNumber?_text_of_shown? ha, hx, Option.filter_some_pos hfinite]
      · rw [asNumber?_text_of_shown? hb, hy, Option.filter_some_pos hfinite']
    | false =>
      obtain ⟨negative, rfl, -⟩ := exists_infinite_of_asNumber? hy hfinite'
      rw [Number.eqv_comm] at h
      rw [Number.eq_infinite_of_eqv h] at hfinite
      cases hfinite
  | false =>
    -- Both are the same infinity, and so are their texts.
    obtain ⟨negative, rfl, hshown⟩ := exists_infinite_of_asNumber? hx hfinite
    obtain rfl := Number.eq_infinite_of_eqv h
    obtain ⟨-, -, hshown'⟩ := exists_infinite_of_asNumber? hy rfl
    rw [ha] at hshown
    rw [hb, ← hshown] at hshown'
    exact .inl (Option.some.inj hshown').symm

/-- Operands that are shown as the same text are the same number if they can be read as numbers. -/
theorem eqv_of_shown? {x y : Number} (ha : a.shown? = some s) (hb : b.shown? = some s)
    (hx : a.asNumber? = some x) (hy : b.asNumber? = some y) : x.eqv y = true := by
  have hread : (some x).filter Number.isFinite = (some y).filter Number.isFinite := by
    rw [← hx, ← hy, ← asNumber?_text_of_shown? ha, ← asNumber?_text_of_shown? hb]
  cases hfinite : x.isFinite with
  | true =>
    rw [Option.filter_some_pos hfinite, eq_comm, Option.filter_eq_some_iff] at hread
    obtain rfl : y = x := Option.some.inj hread.1
    exact Number.eqv_self (Number.isNaN_eq_false_of_isFinite hfinite)
  | false =>
    -- The other one is no finite number either, and infinities are told apart by their texts.
    rw [Option.filter_some_neg hfinite, eq_comm, Option.filter_eq_none_iff] at hread
    obtain ⟨negative, rfl, hshown⟩ := exists_infinite_of_asNumber? hx hfinite
    obtain ⟨negative', rfl, hshown'⟩ :=
      exists_infinite_of_asNumber? hy (Bool.eq_false_iff.2 (hread _ rfl))
    have htext := hshown.symm.trans (ha.trans (hb.symm.trans hshown'))
    rw [Number.text_injective (Option.some.inj htext)]
    exact Number.eqv_self rfl

/-- Operands that are shown are equal exactly if their texts have the same value. -/
theorem equalsByValue_iff_sameValue (ha : a.shown? = some s) (hb : b.shown? = some t) :
    a.equalsByValue b = true ↔ SameValue s t := by
  unfold equalsByValue
  rw [ha, hb]
  constructor
  · intro h
    split at h
    · rename_i x y hx hy
      exact sameValue_of_eqv ha hb hx hy h
    · exact .inl (eq_of_beq h)
  · rintro (rfl | ⟨x, y, hx, hy, h⟩)
    · split
      · rename_i x y hx hy
        exact eqv_of_shown? ha hb hx hy
      · exact beq_self_eq_true s
    · rw [asNumber?_text_of_shown? ha, Option.filter_eq_some_iff] at hx
      rw [asNumber?_text_of_shown? hb, Option.filter_eq_some_iff] at hy
      rw [hx.1, hy.1]
      exact h

/-! ## Operands that are not shown -/

/-- An operand that is not shown is equal to what it is alike. -/
theorem equalsByValue_of_shown?_eq_none (ha : a.shown? = none) :
    a.equalsByValue b = a.alike b := by
  cases a with
  | null | list | record => cases b <;> rfl
  | _ => cases ha

/-- Equal operands are both shown, or neither is. -/
theorem shown?_eq_none_of_equalsByValue (ha : a.shown? = none) (h : a.equalsByValue b = true) :
    b.shown? = none := by
  rw [equalsByValue_of_shown?_eq_none ha] at h
  cases a with
  | null | list | record =>
    cases b with
    | null | list | record => rfl
    | _ => cases h
  | _ => cases ha

/-! ## The laws of equality -/

theorem equalsByValue_trans (hab : a.equalsByValue b = true) (hbc : b.equalsByValue c = true) :
    a.equalsByValue c = true := by
  cases hb : b.shown? with
  | none =>
    have ha := shown?_eq_none_of_equalsByValue hb (equalsByValue_comm a b ▸ hab)
    rw [equalsByValue_of_shown?_eq_none ha] at hab ⊢
    rw [equalsByValue_of_shown?_eq_none hb] at hbc
    exact alike_trans hab hbc
  | some t =>
    obtain ⟨s, ha⟩ : ∃ s, a.shown? = some s := Option.ne_none_iff_exists'.1 fun ha => by
      rw [shown?_eq_none_of_equalsByValue ha hab] at hb
      cases hb
    obtain ⟨u, hc⟩ : ∃ u, c.shown? = some u := Option.ne_none_iff_exists'.1 fun hc => by
      rw [shown?_eq_none_of_equalsByValue hc (equalsByValue_comm b c ▸ hbc)] at hb
      cases hb
    rw [equalsByValue_iff_sameValue ha hb] at hab
    rw [equalsByValue_iff_sameValue hb hc] at hbc
    exact (equalsByValue_iff_sameValue ha hc).2 (hab.trans hbc)

/-- An operand is equal to itself unless it is a list or a record with `nan` in it. Alone, `nan` is
compared by its text. -/
theorem equalsByValue_self (a : Datum) : a.equalsByValue a = !a.containsNaN := by
  cases ha : a.shown? with
  | none =>
    rw [equalsByValue_of_shown?_eq_none ha, alike_self]
    cases a with
    | number => cases ha
    | _ => rfl
  | some s =>
    rw [(equalsByValue_iff_sameValue ha ha).2 (.inl rfl)]
    cases a with
    | list | record => cases ha
    | _ => rfl

theorem looselyEquals_of_not_bool (ha : a.isBool = false) (hb : b.isBool = false) :
    a.looselyEquals b = a.equalsByValue b := by
  cases a with
  | bool => cases ha
  | _ =>
    cases b with
    | bool => cases hb
    | _ => rfl

theorem looselyEquals_true (a : Datum) : a.looselyEquals (.bool true) = a.isTrue := by
  cases a <;> simp [looselyEquals, isTrue]

theorem looselyEquals_self (a : Datum) : a.looselyEquals a = !a.containsNaN := by
  cases a with
  | bool value => exact beq_self_eq_true value
  | _ =>
    rw [looselyEquals_of_not_bool rfl rfl]
    exact equalsByValue_self _

end Datum

namespace Expression

/-- Whether two expressions are equal over some data, as a condition says it. -/
def equals (data : Datum) (a b : Expression) : Bool := (binary (.compare .equal) a b).holds data

/-- Whether two expressions differ over some data, as a condition says it. -/
def differs (data : Datum) (a b : Expression) : Bool :=
  (binary (.compare .notEqual) a b).holds data

theorem equals_eq (data : Datum) (a b : Expression) :
    equals data a b = (a.value data).looselyEquals (b.value data) := rfl

/-- The laws of `==` and `!=` between expressions over any data: equality does not depend on the
order of its operands, inequality is its negation, to equal `true` is to hold, and apart from truth
values equality is passed on from operand to operand. An operand equals itself if and only if it is
no list or record with `nan` in it. -/
theorem equality_laws (data : Datum) :
    (∀ a b, equals data a b = equals data b a) ∧
    (∀ a b, differs data a b = !equals data a b) ∧
    (∀ a, equals data a (.literal (.bool true)) = a.holds data) ∧
    (∀ a b c, (a.value data).isBool = false → (b.value data).isBool = false →
      (c.value data).isBool = false → equals data a b = true → equals data b c = true →
      equals data a c = true) ∧
    ∀ a, equals data a a = !(a.value data).containsNaN := by
  simp only [equals_eq]
  refine ⟨fun a b => Datum.looselyEquals_comm _ _, fun a b => rfl,
    fun a => Datum.looselyEquals_true _, fun a b c ha hb hc hab hbc => ?_,
    fun a => Datum.looselyEquals_self _⟩
  rw [Datum.looselyEquals_of_not_bool ha hb] at hab
  rw [Datum.looselyEquals_of_not_bool hb hc] at hbc
  rw [Datum.looselyEquals_of_not_bool ha hc]
  exact Datum.equalsByValue_trans hab hbc

/-- Three, as a number and as two texts. -/
theorem equality_laws_three :
    let data : Datum := .record [("rooms", .number (.ofNat 3))]
    let rooms : Expression := .reference ⟨"rooms", false⟩
    let decimal : Expression := .literal (.text "3.0")
    let padded : Expression := .literal (.text " 3")
    (rooms.value data).isBool = false ∧ (decimal.value data).isBool = false ∧
      (padded.value data).isBool = false ∧ equals data rooms decimal = true ∧
      equals data decimal padded = true ∧ equals data rooms padded = true := by
  intro data rooms decimal padded
  have hrooms : (rooms.value data).isBool = false := by decide +kernel
  have hdecimal : (decimal.value data).isBool = false := rfl
  have hpadded : (padded.value data).isBool = false := rfl
  have hfirst : equals data rooms decimal = true := by decide +kernel
  have hsecond : equals data decimal padded = true := by decide +kernel
  obtain ⟨-, -, -, htrans, -⟩ := equality_laws data
  exact ⟨hrooms, hdecimal, hpadded, hfirst, hsecond,
    htrans rooms decimal padded hrooms hdecimal hpadded hfirst hsecond⟩

-- Truth values pass equality on between texts that differ.
example :
    let holds : Expression := .literal (.bool true)
    let a : Expression := .literal (.text "a")
    let b : Expression := .literal (.text "b")
    equals .null a holds = true ∧ equals .null holds b = true ∧ equals .null a b = false := by
  decide

end Expression

end FormLetter
