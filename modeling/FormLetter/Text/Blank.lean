/-!
# Blank characters

White space as the Unicode property `White_Space` has it. Conditions, placeholders and repeat
directives separate their parts by it, and a numeric string may be padded with it.

* `trimStart_append`: a leading run of blanks does not change what is left after trimming.
* `exists_append_trimStart`, `exists_append_trim`: trimming takes blanks away and nothing else.
* `trim_append`: and it takes all of them away.
-/

namespace FormLetter

/-- The code points with the Unicode property `White_Space`. -/
def isBlankCode (n : Nat) : Bool :=
  (0x09 ≤ n && n ≤ 0x0D) || n == 0x20 || n == 0x85 || n == 0xA0 || n == 0x1680 ||
  (0x2000 ≤ n && n ≤ 0x200A) || n == 0x2028 || n == 0x2029 || n == 0x202F || n == 0x205F ||
  n == 0x3000

/-- The characters with the Unicode property `White_Space`. -/
def isBlank (c : Char) : Bool := isBlankCode c.toNat

/-- The text from its first character that is not blank. -/
def trimStart (cs : List Char) : List Char := cs.dropWhile isBlank

/-- The text up to its last character that is not blank. -/
def trimEnd (cs : List Char) : List Char := (trimStart cs.reverse).reverse

/-- The text without the blanks at its two ends. -/
def trim (cs : List Char) : List Char := trimEnd (trimStart cs)

theorem trimStart_append {blanks : List Char} (h : ∀ c ∈ blanks, isBlank c = true)
    (cs : List Char) : trimStart (blanks ++ cs) = trimStart cs := by
  simp [trimStart, List.dropWhile_append_of_pos h]

theorem trimStart_eq_self {cs : List Char} (h : ∀ c, cs.head? = some c → isBlank c = false) :
    trimStart cs = cs := by
  cases cs with
  | nil => rfl
  | cons c cs => exact List.dropWhile_cons_of_neg (by simp [h c rfl])

theorem exists_append_trimStart (cs : List Char) :
    ∃ blanks, (∀ c ∈ blanks, isBlank c = true) ∧ cs = blanks ++ trimStart cs :=
  ⟨cs.takeWhile isBlank, List.all_eq_true.1 List.all_takeWhile,
    List.takeWhile_append_dropWhile.symm⟩

theorem trim_eq_self {cs : List Char} (h : ∀ c ∈ cs, isBlank c = false) : trim cs = cs := by
  have hstart : trimStart cs = cs := trimStart_eq_self fun c hc => h c (List.mem_of_head? hc)
  have hend : trimStart cs.reverse = cs.reverse :=
    trimStart_eq_self fun c hc => h c (List.mem_reverse.1 (List.mem_of_head? hc))
  rw [trim, hstart, trimEnd, hend, List.reverse_reverse]

/-- Trimming takes the blanks at the two ends away, if something else stands between them. -/
theorem trim_append {before cs behind : List Char} (hbefore : ∀ c ∈ before, isBlank c = true)
    (hfirst : ∀ c, cs.head? = some c → isBlank c = false)
    (hlast : ∀ c, cs.getLast? = some c → isBlank c = false)
    (hbehind : ∀ c ∈ behind, isBlank c = true) (hne : cs ≠ []) :
    trim (before ++ (cs ++ behind)) = cs := by
  have hhead : ∀ c, (cs ++ behind).head? = some c → isBlank c = false := by
    cases cs with
    | nil => exact absurd rfl hne
    | cons d ds => exact hfirst
  have hreverse : ∀ c ∈ behind.reverse, isBlank c = true := fun c hc =>
    hbehind c (List.mem_reverse.1 hc)
  have hend : trimStart cs.reverse = cs.reverse :=
    trimStart_eq_self fun c hc => hlast c (by rwa [List.head?_reverse] at hc)
  rw [trim, trimStart_append hbefore, trimStart_eq_self hhead, trimEnd, List.reverse_append,
    trimStart_append hreverse, hend, List.reverse_reverse]

theorem exists_append_trim (cs : List Char) :
    ∃ before behind, (∀ c ∈ before, isBlank c = true) ∧ (∀ c ∈ behind, isBlank c = true) ∧
      cs = before ++ (trim cs ++ behind) := by
  obtain ⟨before, hbefore, hcs⟩ := exists_append_trimStart cs
  obtain ⟨behind, hbehind, hrest⟩ := exists_append_trimStart (trimStart cs).reverse
  refine ⟨before, behind.reverse, hbefore, fun c hc => hbehind c (List.mem_reverse.1 hc), ?_⟩
  rw [trim, trimEnd, ← List.reverse_append, ← hrest, List.reverse_reverse]
  exact hcs

theorem length_trimStart_le (cs : List Char) : (trimStart cs).length ≤ cs.length :=
  (List.dropWhile_suffix isBlank).length_le

end FormLetter
