import Mathlib.Data.List.DropRight
import FormLetter.Proofs.Lexing
import FormLetter.Proofs.ShownTexts

/-!
# Numbers read back

A number is shown as a numeral whose text has no exponent and no zeros at the end of its fraction.
Reading that text gives a numeral with another coefficient and another scale, but of the same value,
so the nearest magnitude to it is the same. For the shortest numeral of a number that is the number
itself.

* `Magnitude.nearest?_mul_mul`: the nearest magnitude depends on the value of a fraction alone.
* `Decimal.nearest?_of_ofText?_text`: so the text of a numeral reads as the same magnitude.
* `Number.ofText?_text`: every number reads back from the text that it is shown as.
-/

namespace FormLetter

/-! ## Digits -/

theorem digitsValue_eq (start : Nat) (ds : List Char) :
    digitsValue start ds = power 10 ds.length * start + digitsValue 0 ds :=
  Nat.ofDigitChars_eq_ofDigitChars_zero

theorem digitsValue_replicate (start zeros : Nat) :
    digitsValue start (List.replicate zeros '0') = power 10 zeros * start :=
  Nat.ofDigitChars_replicate_zero

/-- The digits of a number have its value. -/
theorem digitsValue_digitsOf (n : Nat) : digitsValue 0 (digitsOf n) = n :=
  Nat.ofDigitChars_ten_toDigits

theorem isDigit_of_mem_digitsOf {n : Nat} {c : Char} (h : c ∈ digitsOf n) : isDigit c = true := by
  have hdigit := Nat.isDigit_of_mem_toDigits (by decide) (by decide) h
  simp only [Char.isDigit, Bool.and_eq_true, decide_eq_true_eq, UInt32.le_iff_toNat_le] at hdigit
  exact isDigit_iff.2 hdigit

theorem digitsOf_ne_nil (n : Nat) : digitsOf n ≠ [] := Nat.toDigits_ne_nil

/-- A power of ten adds as many digits. -/
theorem length_digitsOf_mul_power {n : Nat} (h : n ≠ 0) (zeros : Nat) :
    (digitsOf (n * power 10 zeros)).length = (digitsOf n).length + zeros := by
  induction zeros with
  | zero => rw [power_zero, Nat.mul_one, Nat.add_zero]
  | succ zeros ih =>
    have hpos : 0 < n * power 10 zeros :=
      Nat.mul_pos (Nat.pos_of_ne_zero h) (power_pos (by decide) _)
    have hsucc : n * power 10 (zeros + 1) = n * power 10 zeros * 10 := by
      rw [power_succ, Nat.mul_assoc]
    rw [hsucc, digitsOf, Nat.toDigits_of_base_le (by decide) (by omega), List.length_append,
      Nat.mul_div_cancel _ (by decide)]
    show (digitsOf (n * power 10 zeros)).length + 1 = _
    rw [ih, Nat.add_assoc]

/-! ## Fractions -/

namespace Decimal

theorem isDigit_of_mem_fractionDigits {places n : Nat} {c : Char}
    (h : c ∈ fractionDigits places n) : isDigit c = true := by
  rcases mem_fractionDigits h with rfl | hdigit
  · decide
  · exact isDigit_of_mem_digitsOf hdigit

/-- The digits of a fraction are all its places but some zeros at the end. -/
theorem fractionDigits_spec {places n : Nat} (h : n < power 10 places) :
    ∃ zeros, (fractionDigits places n).length + zeros = places ∧
      power 10 zeros * digitsValue 0 (fractionDigits places n) = n := by
  unfold fractionDigits
  dsimp only
  by_cases hn : n = 0
  · refine ⟨places, ?_, ?_⟩ <;> simp [hn, digitsValue]
  · rw [if_neg hn]
    have hplaces : 0 < places := by
      rw [Nat.pos_iff_ne_zero]
      rintro rfl
      rw [power_zero] at h
      omega
    have hlength : (digitsOf n).length ≤ places := (length_toDigits_le_iff hplaces).2 h
    -- The zeros at the end of all places make up what is left out.
    have hsplit := List.rdropWhile_append_rtakeWhile (p := fun c : Char => c == '0')
      (l := List.replicate (places - (digitsOf n).length) '0' ++ digitsOf n)
    obtain ⟨zeros, hzeros⟩ : ∃ zeros, List.rtakeWhile (fun c : Char => c == '0')
        (List.replicate (places - (digitsOf n).length) '0' ++ digitsOf n) =
          List.replicate zeros '0' :=
      ⟨_, List.eq_replicate_of_mem fun c hc => by simpa using List.mem_rtakeWhile_imp hc⟩
    rw [hzeros] at hsplit
    refine ⟨zeros, ?_, ?_⟩
    · have hlengths := congrArg List.length hsplit
      simp only [List.length_append, List.length_replicate] at hlengths
      show (List.rdropWhile _ _).length + zeros = places
      omega
    · have hvalues := congrArg (digitsValue 0) hsplit
      rw [digitsValue_append, digitsValue_append, digitsValue_replicate, digitsValue_replicate,
        Nat.mul_zero, digitsValue_digitsOf] at hvalues
      exact hvalues

end Decimal

/-! ## Fractions of the same value -/

namespace Magnitude

theorem divNearestEven_mul_mul (num den : Nat) {k : Nat} (h : 0 < k) :
    divNearestEven (num * k) (den * k) = divNearestEven num den := by
  unfold divNearestEven
  have hlt : 2 * (num % den * k) < den * k ↔ 2 * (num % den) < den := by
    rw [← Nat.mul_assoc]
    exact Nat.mul_lt_mul_right h
  have heq : 2 * (num % den * k) = den * k ↔ 2 * (num % den) = den := by
    rw [← Nat.mul_assoc]
    exact Nat.mul_left_inj (Nat.ne_of_gt h)
  simp only [Nat.mul_div_mul_right _ _ h, Nat.mul_mod_mul_right, hlt, heq]

/-- The nearest magnitude depends on the value of a fraction alone. -/
theorem nearest?_mul_mul (num den : Nat) {k : Nat} (h : 0 < k) :
    nearest? (num * k) (den * k) = nearest? num den := by
  have hround : divNearestEven (num * k) (den * k * power 2 (exponentFor (num / den))) =
      divNearestEven num (den * power 2 (exponentFor (num / den))) := by
    rw [Nat.mul_right_comm]
    exact divNearestEven_mul_mul _ _ h
  unfold nearest?
  simp only [Nat.mul_div_mul_right _ _ h, hround]

end Magnitude

/-! ## Numerals of the same value -/

namespace Decimal

variable {d : Decimal}

theorem numerator_pos (h : d.coefficient ≠ 0) : 0 < d.numerator :=
  Nat.mul_pos (Nat.pos_of_ne_zero h) (power_pos (by decide) _)

/-- A numeral of the same value that writes no places that it does not need has the same nearest
magnitude. -/
theorem nearest?_eq_of_numerator {coefficient places zeros : Nat}
    (hplaces : places + zeros = (-d.scale).toNat)
    (hvalue : coefficient * power 10 zeros = d.numerator) :
    nearest? ⟨coefficient, -places⟩ = d.nearest? := by
  have hzeros : 0 < power 10 zeros := power_pos (by decide) _
  by_cases hd : d.coefficient = 0
  · have hcoefficient : coefficient = 0 := by
      rw [numerator, hd, Nat.zero_mul] at hvalue
      exact (Nat.mul_eq_zero.1 hvalue).resolve_right (Nat.ne_of_gt hzeros)
    rw [nearest?, nearest?, if_pos (.inl hcoefficient), if_pos (.inl hd)]
  · have hcoefficient : coefficient ≠ 0 := by
      rintro rfl
      rw [Nat.zero_mul] at hvalue
      exact absurd hvalue (Nat.ne_of_lt (numerator_pos hd))
    have hplace : leadingPlace ⟨coefficient, -places⟩ = d.leadingPlace := by
      have hlength := length_digitsOf_mul_power hcoefficient zeros
      rw [hvalue, numerator, length_digitsOf_mul_power hd] at hlength
      unfold leadingPlace
      dsimp only
      omega
    have hmagnitude :
        Magnitude.nearest? (numerator ⟨coefficient, -places⟩ * Magnitude.unitsPerOne)
            (denominator ⟨coefficient, -places⟩) =
          Magnitude.nearest? (d.numerator * Magnitude.unitsPerOne) d.denominator := by
      have hnumerator : numerator ⟨coefficient, -places⟩ = coefficient := by
        rw [numerator]
        dsimp only
        rw [show (-(places : Int)).toNat = 0 by omega, power_zero, Nat.mul_one]
      have hdenominator : denominator ⟨coefficient, -places⟩ = power 10 places := by
        rw [denominator]
        dsimp only
        rw [show (- -(places : Int)).toNat = places by omega]
      rw [hnumerator, hdenominator, ← hvalue, denominator, ← hplaces, power_add,
        Nat.mul_right_comm]
      exact (Magnitude.nearest?_mul_mul _ _ hzeros).symm
    unfold nearest?
    rw [hplace, hmagnitude]
    simp only [hcoefficient, hd]

/-! ## Reading the text of a numeral -/

/-- The digits before the point of a numeral. -/
def wholeDigits (d : Decimal) : List Char := digitsOf (d.numerator / d.denominator)

/-- The digits behind the point of a numeral. -/
def restDigits (d : Decimal) : List Char :=
  fractionDigits (-d.scale).toNat (d.numerator % d.denominator)

theorem text_eq (d : Decimal) :
    d.text = if d.restDigits.isEmpty then d.wholeDigits else d.wholeDigits ++ '.' :: d.restDigits :=
  rfl

theorem isDigit_of_mem_wholeDigits : ∀ c ∈ d.wholeDigits, isDigit c = true := fun _ =>
  isDigit_of_mem_digitsOf

theorem isDigit_of_mem_restDigits : ∀ c ∈ d.restDigits, isDigit c = true := fun _ =>
  isDigit_of_mem_fractionDigits

/-- Reading a text of digits, a point and digits. -/
theorem ofText?_point {whole fraction : List Char} (hne : whole ≠ [])
    (hwhole : ∀ c ∈ whole, isDigit c = true) (hfraction : ∀ c ∈ fraction, isDigit c = true) :
    ofText? (whole ++ '.' :: fraction) =
      some ⟨digitsValue (digitsValue 0 whole) fraction, -fraction.length⟩ := by
  have hstop : ∀ d, ('.' :: fraction).head? = some d → isDigit d = false := fun d hd =>
    Option.some.inj hd ▸ (by decide)
  obtain ⟨htake, hdrop⟩ := takeWhile_dropWhile_append hwhole hstop
  obtain ⟨htake', hdrop'⟩ := takeWhile_dropWhile_append hfraction
    (show ∀ d, ([] : List Char).head? = some d → isDigit d = false from nofun)
  rw [List.append_nil] at htake' hdrop'
  have hempty : whole.isEmpty = false := by simpa using hne
  simp only [ofText?, htake, hdrop, htake', hdrop', hempty, Bool.false_and, readExponent?]
  simp

/-- Reading a text of digits. -/
theorem ofText?_digits {whole : List Char} (hne : whole ≠ [])
    (hwhole : ∀ c ∈ whole, isDigit c = true) :
    ofText? whole = some ⟨digitsValue 0 whole, 0⟩ := by
  obtain ⟨htake, hdrop⟩ := takeWhile_dropWhile_append hwhole
    (show ∀ d, ([] : List Char).head? = some d → isDigit d = false from nofun)
  rw [List.append_nil] at htake hdrop
  have hempty : whole.isEmpty = false := by simpa using hne
  simp only [ofText?, htake, hdrop, hempty, Bool.false_and, readExponent?]
  simp [digitsValue]

theorem ofText?_text (d : Decimal) :
    ofText? d.text = some ⟨digitsValue (digitsValue 0 d.wholeDigits) d.restDigits,
      -d.restDigits.length⟩ := by
  have hne : d.wholeDigits ≠ [] := digitsOf_ne_nil _
  rw [text_eq]
  split
  · rename_i hempty
    rw [List.isEmpty_iff.1 hempty]
    exact ofText?_digits hne isDigit_of_mem_wholeDigits
  · exact ofText?_point hne isDigit_of_mem_wholeDigits isDigit_of_mem_restDigits

/-- The text of a numeral reads as a numeral with the same nearest magnitude. -/
theorem nearest?_of_ofText?_text {d' : Decimal} (h : ofText? d.text = some d') :
    d'.nearest? = d.nearest? := by
  rw [ofText?_text] at h
  cases h
  have hlt : d.numerator % d.denominator < power 10 (-d.scale).toNat :=
    Nat.mod_lt _ (power_pos (by decide) _)
  obtain ⟨zeros, hlength, hfraction⟩ := fractionDigits_spec hlt
  refine nearest?_eq_of_numerator hlength ?_
  -- The whole part and the fraction, each with all its places, make up the numerator.
  have hwhole : digitsValue 0 d.wholeDigits = d.numerator / d.denominator :=
    digitsValue_digitsOf _
  have hplaces : power 10 d.restDigits.length * power 10 zeros = d.denominator := by
    rw [← power_add]
    exact congrArg (power 10) hlength
  calc digitsValue (digitsValue 0 d.wholeDigits) d.restDigits * power 10 zeros
      = (power 10 d.restDigits.length * (d.numerator / d.denominator) +
          digitsValue 0 d.restDigits) * power 10 zeros := by rw [digitsValue_eq, hwhole]
    _ = power 10 d.restDigits.length * power 10 zeros * (d.numerator / d.denominator) +
          power 10 zeros * digitsValue 0 d.restDigits := by
        rw [Nat.add_mul, Nat.mul_right_comm, Nat.mul_comm (digitsValue 0 d.restDigits)]
    _ = d.denominator * (d.numerator / d.denominator) + d.numerator % d.denominator := by
        rw [hplaces]
        exact congrArg _ hfraction
    _ = d.numerator := Nat.div_add_mod _ _

/-- The text of a numeral is a run of digits and points that begins with a digit. -/
theorem exists_text_eq_cons (d : Decimal) :
    ∃ c more, d.text = c :: more ∧ isDigit c = true ∧ ∀ x ∈ more, isNumeralChar x = true := by
  obtain ⟨c, more, hwhole⟩ :=
    List.exists_cons_of_ne_nil (digitsOf_ne_nil (d.numerator / d.denominator))
  have hdigits : ∀ x ∈ c :: more, isDigit x = true := hwhole ▸ d.isDigit_of_mem_wholeDigits
  obtain ⟨hc, hmore⟩ := List.forall_mem_cons.1 hdigits
  have hnumeral : ∀ {x}, isDigit x = true → isNumeralChar x = true := fun hx => by
    rw [isNumeralChar, hx, Bool.true_or]
  rw [text_eq]
  split
  · exact ⟨c, more, hwhole, hc, fun x hx => hnumeral (hmore x hx)⟩
  · refine ⟨c, more ++ '.' :: d.restDigits, ?_, hc, fun x hx => ?_⟩
    · rw [show d.wholeDigits = c :: more from hwhole, List.cons_append]
    · rcases List.mem_append.1 hx with hx | hx
      · exact hnumeral (hmore x hx)
      · rcases List.mem_cons.1 hx with rfl | hx
        · decide
        · exact hnumeral (d.isDigit_of_mem_restDigits x hx)

end Decimal

/-! ## Reading the text of a number -/

theorem toLower_of_isDigit {c : Char} (h : isDigit c = true) : c.toLower = c := by
  have hdigit := isDigit_iff.1 h
  unfold Char.toLower
  split
  · rename_i hupper
    have hle : 65 ≤ c.toNat := UInt32.le_iff_toNat_le.1 hupper.1
    omega
  · rfl

/-- A digit is no sign. -/
theorem readSign_of_isDigit {c : Char} (hc : isDigit c = true) (cs : List Char) :
    readSign (c :: cs) = (false, c :: cs) := by
  unfold readSign
  split <;> simp_all [isDigit]

namespace Number

/-- A text that begins with a digit behind its sign is read as a numeral. -/
theorem ofText?_of_readSign {cs ds : List Char} {c : Char} {negative : Bool}
    (hsign : readSign cs = (negative, c :: ds)) (hc : isDigit c = true) :
    ofText? cs = (Decimal.ofText? (c :: ds)).map (ofDecimal negative) := by
  have hword : ∀ {x : Char} {more : List Char}, isDigit x = false →
      lowered (c :: ds) ≠ x :: more := by
    intro x more hx heq
    rw [lowered, List.map_cons, toLower_of_isDigit hc] at heq
    rw [← (List.cons.inj heq).1, hc] at hx
    cases hx
  have hinf : lowered (c :: ds) ≠ "inf".toList := hword (by decide)
  have hinfinity : lowered (c :: ds) ≠ "infinity".toList := hword (by decide)
  have hnan : lowered (c :: ds) ≠ "nan".toList := hword (by decide)
  unfold ofText?
  simp only [hsign, hinf, hinfinity, hnan, decide_false, Bool.or_self, Bool.false_eq_true, if_false]

/-- Every number reads back from the text that it is shown as. -/
theorem ofText?_text (n : Number) : ofText? n.text.toList = some n := by
  cases n with
  | nan => decide
  | infinite negative => cases negative <;> decide
  | finite negative magnitude =>
    obtain ⟨c, more, htext, hc, -⟩ := magnitude.shortest.exists_text_eq_cons
    have hnearest := Decimal.nearest?_of_ofText?_text (Decimal.ofText?_text magnitude.shortest)
    rw [magnitude.nearest?_shortest] at hnearest
    have hdecimal := Decimal.ofText?_text magnitude.shortest
    rw [htext] at hdecimal
    have hsign :
        readSign ((if negative then ['-'] else []) ++ c :: more) = (negative, c :: more) := by
      cases negative with
      | false => exact readSign_of_isDigit hc more
      | true => rfl
    rw [text, String.toList_ofList, htext, ofText?_of_readSign hsign hc, hdecimal, Option.map_some,
      ofDecimal, hnearest]

/-- A number is shown with the characters of numerals, a minus, and those of two words. -/
theorem isNumeralChar_or_of_mem_text {n : Number} {c : Char} (h : c ∈ n.text.toList) :
    isNumeralChar c = true ∨ c ∈ "-infNaN".toList := by
  cases n with
  | nan =>
    have hword : "NaN".toList ⊆ "-infNaN".toList := by decide
    exact .inr (hword h)
  | infinite negative =>
    have hwords : "inf".toList ⊆ "-infNaN".toList ∧ "-inf".toList ⊆ "-infNaN".toList := by decide
    cases negative with
    | false => exact .inr (hwords.1 h)
    | true => exact .inr (hwords.2 h)
  | finite negative magnitude =>
    obtain ⟨first, more, htext, hfirst, hmore⟩ := magnitude.shortest.exists_text_eq_cons
    rw [text, String.toList_ofList, htext] at h
    rcases List.mem_append.1 h with hsign | hdigit
    · cases negative with
      | false => cases hsign
      | true => exact .inr (List.mem_singleton.1 hsign ▸ .head _)
    · rcases List.mem_cons.1 hdigit with rfl | hdigit
      · exact .inl (by rw [isNumeralChar, hfirst, Bool.true_or])
      · exact .inl (hmore c hdigit)

end Number

end FormLetter
