import FormLetter.Condition.Evaluation
import FormLetter.Proofs.Lexing
import FormLetter.Repeat.Directive

/-!
# How directives are written

A repeat directive is a variable, the word `in` and a path behind the root of the data, with blanks
between them and perhaps around them. These texts, and no others, are read as directives.

* `Directive.Nameable`: the variables and paths that can be written.
* `Directive.Spelled`: the ways to write a directive.
* `Directive.ofText?_eq_some_iff`: what is read as a directive.
* `Directive.Division`: a directive together with its blanks. `Directive.Division.text_injective`:
  a text has at most one such division. `Directive.ofText?_eq_some_iff_division`: it is read as the
  directive of that division.
* `Directive.evaluate?_eq_none`: no directive can be read as a condition.
-/

namespace FormLetter

namespace Directive

/-! ## Spelling directives -/

/-- The variable is a name, and the path has only the characters of words and at least one. -/
structure Nameable (d : Directive) : Prop where
  isWordStart : d.variableName.toList.head?.any isWordStart = true
  isNameChar : ∀ c ∈ d.variableName.toList, isNameChar c = true
  path_ne : d.path ≠ ""
  isWordChar : ∀ c ∈ d.path.toList, isWordChar c = true

/-- The ways to write a directive: its parts with blanks between them, and any blanks around. -/
inductive Spelled (d : Directive) : List Char → Prop where
  | intro {before behindName behindIn behind : List Char}
      (hbefore : ∀ c ∈ before, isBlank c = true) (hname : behindName ≠ [])
      (hbehindName : ∀ c ∈ behindName, isBlank c = true) (hin : behindIn ≠ [])
      (hbehindIn : ∀ c ∈ behindIn, isBlank c = true) (hbehind : ∀ c ∈ behind, isBlank c = true) :
      Spelled d (before ++ (d.variableName.toList ++ (behindName ++ ("in".toList ++ (behindIn ++
        ((dataRoot ++ ".").toList ++ (d.path.toList ++ behind)))))))

variable {d : Directive} {s : String}

theorem Nameable.exists_variableName (h : d.Nameable) :
    ∃ first more, d.variableName.toList = first :: more ∧
      FormLetter.isWordStart first = true ∧ ∀ c ∈ more, FormLetter.isNameChar c = true := by
  obtain ⟨hstart, hname, -, -⟩ := h
  cases hlist : d.variableName.toList with
  | nil =>
    rw [hlist] at hstart
    cases hstart
  | cons first more =>
    rw [hlist] at hstart hname
    exact ⟨first, more, rfl, hstart, fun c hc => hname c (.tail _ hc)⟩

/-- A variable does not begin with a blank. -/
theorem Nameable.isBlank_eq_false_of_head? (h : d.Nameable) {rest : List Char} {c : Char}
    (hc : (d.variableName.toList ++ rest).head? = some c) : isBlank c = false := by
  obtain ⟨first, more, hname, hfirst, -⟩ := h.exists_variableName
  rw [hname] at hc
  obtain rfl : first = c := Option.some.inj hc
  exact isBlank_eq_false_of_isWordStart hfirst

theorem isBlank_eq_false_of_head?_in {rest : List Char} {c : Char}
    (hc : ("in".toList ++ rest).head? = some c) : isBlank c = false := by
  obtain rfl : 'i' = c := Option.some.inj hc
  decide

theorem isBlank_eq_false_of_head?_root {rest : List Char} {c : Char}
    (hc : ((dataRoot ++ ".").toList ++ rest).head? = some c) : isBlank c = false := by
  obtain rfl : 'M' = c := Option.some.inj hc
  decide

/-! ## Reading directives -/

theorem readPath?_append {path behind : List Char} (hne : path ≠ [])
    (hpath : ∀ c ∈ path, isWordChar c = true) (hbehind : ∀ c ∈ behind, isBlank c = true) :
    readPath? ((dataRoot ++ ".").toList ++ (path ++ behind)) = some path := by
  have hstop : ∀ c, behind.head? = some c → isWordChar c = false := fun c hc =>
    isWordChar_eq_false_of_isBlank (hbehind c (List.mem_of_head? hc))
  obtain ⟨htake, hdrop⟩ := takeWhile_dropWhile_append hpath hstop
  have hall : behind.all isBlank = true := List.all_eq_true.2 hbehind
  have hpresent : path.isEmpty = false := List.isEmpty_eq_false_iff.2 hne
  rw [readPath?, after?_eq_some_iff.2 rfl]
  dsimp only
  rw [htake, hdrop, hpresent, hall]
  rfl

theorem exists_of_readPath? {cs path : List Char} (h : readPath? cs = some path) :
    path ≠ [] ∧ (∀ c ∈ path, isWordChar c = true) ∧
      ∃ behind, (∀ c ∈ behind, isBlank c = true) ∧
        cs = (dataRoot ++ ".").toList ++ (path ++ behind) := by
  unfold readPath? at h
  split at h
  · cases h
  · rename_i written hwritten
    dsimp only at h
    split at h
    · rename_i hpath
      cases h
      rw [Bool.and_eq_true, Bool.not_eq_true', List.isEmpty_eq_false_iff, List.all_eq_true] at hpath
      refine ⟨hpath.1, List.all_eq_true.1 List.all_takeWhile, _, hpath.2, ?_⟩
      rw [List.takeWhile_append_dropWhile]
      exact after?_eq_some_iff.1 hwritten
    · cases h

/-- A directive that is written in one of these ways is read as that directive. -/
theorem ofText?_of_spelled (hd : d.Nameable) (h : d.Spelled s.toList) : ofText? s = some d := by
  generalize hcs : s.toList = cs at h
  cases h with
  | @intro before behindName behindIn behind hbefore hne hbehindName hin hbehindIn hbehind =>
    obtain ⟨htake, hdrop⟩ := takeWhile_dropWhile_append hd.isNameChar
      (head?_append_of_blanks (fun _ => isNameChar_eq_false_of_isBlank) hne hbehindName
        ("in".toList ++ (behindIn ++ ((dataRoot ++ ".").toList ++ (d.path.toList ++ behind)))))
    have hpath : d.path.toList ≠ [] := fun hnil => hd.path_ne (String.toList_inj.1 hnil)
    unfold ofText?
    dsimp only
    rw [hcs, trimStart_append hbefore,
      trimStart_eq_self fun _ => hd.isBlank_eq_false_of_head?, htake, hdrop,
      if_pos hd.isWordStart,
      afterBlanks?_append hne hbehindName fun _ => isBlank_eq_false_of_head?_in,
      Option.bind_some, after?_eq_some_iff.2 rfl, Option.bind_some,
      afterBlanks?_append hin hbehindIn fun _ => isBlank_eq_false_of_head?_root,
      Option.bind_some, readPath?_append hpath hd.isWordChar hbehind, Option.map_some,
      String.ofList_toList, String.ofList_toList]

/-- What is read as a directive is that directive, written in one of these ways. -/
theorem spelled_of_ofText? (h : ofText? s = some d) : d.Nameable ∧ d.Spelled s.toList := by
  obtain ⟨before, hbefore, hs⟩ := exists_append_trimStart s.toList
  unfold ofText? at h
  dsimp only at h
  rw [hs]
  generalize trimStart s.toList = cs at h
  have hsplit := List.takeWhile_append_dropWhile (p := FormLetter.isNameChar) (l := cs)
  have hchars : ∀ c ∈ cs.takeWhile FormLetter.isNameChar, FormLetter.isNameChar c = true :=
    List.all_eq_true.1 List.all_takeWhile
  generalize cs.takeWhile FormLetter.isNameChar = name at h hsplit hchars
  split at h
  · rename_i hstart
    obtain ⟨path, hall, rfl⟩ := Option.map_eq_some_iff.1 h
    obtain ⟨behindName, hbehindName, hall⟩ := Option.bind_eq_some_iff.1 hall
    obtain ⟨behindIn, hbehindIn, hall⟩ := Option.bind_eq_some_iff.1 hall
    obtain ⟨written, hwritten, hread⟩ := Option.bind_eq_some_iff.1 hall
    obtain ⟨blanks, hne, hblanks, hdrop⟩ := exists_of_afterBlanks? hbehindName
    obtain ⟨blanks', hne', hblanks', rfl⟩ := exists_of_afterBlanks? hwritten
    obtain ⟨hpath, hpathChars, behind, hbehind, rfl⟩ := exists_of_readPath? hread
    rw [after?_eq_some_iff.1 hbehindIn] at hdrop
    have hnameList : (String.ofList name).toList = name := String.toList_ofList
    have hpathList : (String.ofList path).toList = path := String.toList_ofList
    refine ⟨⟨?_, ?_, fun hempty => hpath ?_, ?_⟩, ?_⟩
    · rwa [hnameList]
    · rwa [hnameList]
    · simpa using congrArg String.toList hempty
    · rwa [hpathList]
    · rw [← hsplit, hdrop]
      have hspelled := Spelled.intro (d := ⟨String.ofList name, String.ofList path⟩) hbefore hne
        hblanks hne' hblanks' hbehind
      rwa [hnameList, hpathList] at hspelled
  · cases h

/-- What is read as a directive. -/
theorem ofText?_eq_some_iff : ofText? s = some d ↔ d.Nameable ∧ d.Spelled s.toList :=
  ⟨spelled_of_ofText?, fun h => ofText?_of_spelled h.1 h.2⟩

/-! ## The parts of a text -/

/-- A directive together with the blanks that it is written with. -/
@[ext]
structure Division where
  directive : Directive
  before : List Char
  behindName : List Char
  behindIn : List Char
  behind : List Char
  nameable : directive.Nameable
  isBlank_before : ∀ c ∈ before, isBlank c = true
  behindName_ne : behindName ≠ []
  isBlank_behindName : ∀ c ∈ behindName, isBlank c = true
  behindIn_ne : behindIn ≠ []
  isBlank_behindIn : ∀ c ∈ behindIn, isBlank c = true
  isBlank_behind : ∀ c ∈ behind, isBlank c = true

/-- The text that is divided. -/
def Division.text (parts : Division) : List Char :=
  parts.before ++ (parts.directive.variableName.toList ++ (parts.behindName ++ ("in".toList ++
    (parts.behindIn ++ ((dataRoot ++ ".").toList ++
      (parts.directive.path.toList ++ parts.behind))))))

/-- A text that can be read as a directive is one that can be divided. -/
theorem nameable_and_spelled_iff {cs : List Char} :
    d.Nameable ∧ d.Spelled cs ↔
      ∃ parts : Division, parts.text = cs ∧ parts.directive = d := by
  constructor
  · rintro ⟨hd, hspelled⟩
    cases hspelled with
    | intro hbefore hne hbehindName hin hbehindIn hbehind =>
      exact ⟨⟨d, _, _, _, _, hd, hbefore, hne, hbehindName, hin, hbehindIn, hbehind⟩, rfl, rfl⟩
  · rintro ⟨parts, rfl, rfl⟩
    exact ⟨parts.nameable, .intro parts.isBlank_before parts.behindName_ne
      parts.isBlank_behindName parts.behindIn_ne parts.isBlank_behindIn parts.isBlank_behind⟩

/-- No text can be divided in two ways, whatever the variable is called: each part ends where a
character of another kind follows. -/
theorem Division.text_injective : Function.Injective Division.text := by
  intro p q htext
  obtain ⟨hbefore, htext⟩ := append_inj_of_run htext
    p.isBlank_before (fun _ => p.nameable.isBlank_eq_false_of_head?)
    q.isBlank_before (fun _ => q.nameable.isBlank_eq_false_of_head?)
  obtain ⟨hname, htext⟩ := append_inj_of_run htext
    p.nameable.isNameChar (head?_append_of_blanks (fun _ => isNameChar_eq_false_of_isBlank)
      p.behindName_ne p.isBlank_behindName _)
    q.nameable.isNameChar (head?_append_of_blanks (fun _ => isNameChar_eq_false_of_isBlank)
      q.behindName_ne q.isBlank_behindName _)
  obtain ⟨hbehindName, htext⟩ := append_inj_of_run htext
    p.isBlank_behindName (fun _ => isBlank_eq_false_of_head?_in)
    q.isBlank_behindName (fun _ => isBlank_eq_false_of_head?_in)
  obtain ⟨hbehindIn, htext⟩ := append_inj_of_run (List.append_cancel_left htext)
    p.isBlank_behindIn (fun _ => isBlank_eq_false_of_head?_root)
    q.isBlank_behindIn (fun _ => isBlank_eq_false_of_head?_root)
  obtain ⟨hpath, hbehind⟩ := append_inj_of_run (List.append_cancel_left htext)
    p.nameable.isWordChar (fun c hc =>
      isWordChar_eq_false_of_isBlank (p.isBlank_behind c (List.mem_of_head? hc)))
    q.nameable.isWordChar (fun c hc =>
      isWordChar_eq_false_of_isBlank (q.isBlank_behind c (List.mem_of_head? hc)))
  have hdirective : p.directive = q.directive := by
    rw [Directive.mk.injEq]
    exact ⟨String.toList_inj.1 hname, String.toList_inj.1 hpath⟩
  exact Division.ext hdirective hbefore hbehindName hbehindIn hbehind

/-- A text is read as a directive exactly if it can be divided into one with its blanks, and it can
be divided in no other way. -/
theorem ofText?_eq_some_iff_division :
    (∀ s d, ofText? s = some d ↔
      ∃ parts : Division, parts.text = s.toList ∧ parts.directive = d) ∧
      Function.Injective Division.text :=
  ⟨fun _ _ => ofText?_eq_some_iff.trans nameable_and_spelled_iff, Division.text_injective⟩

/-- The word `in` and the root are variables like any other. -/
example : ofText? "in in Model.in" = some ⟨"in", "in"⟩ ∧
    ofText? "\u2003Model\tin\nModel..Model " = some ⟨"Model", ".Model"⟩ := by
  decide

end Directive

/-! ## Directives and conditions -/

/-- No directive can be read as a condition: its second word is none of a condition. -/
theorem Directive.evaluate?_eq_none {s : String} {d : Directive} (h : ofText? s = some d)
    (data : Datum) : evaluate? s data = none := by
  obtain ⟨hd, hspelled⟩ := spelled_of_ofText? h
  obtain ⟨first, more, hname, hfirst, hmore⟩ := hd.exists_variableName
  -- The variable may be any word, `true` or a reference too. What is behind `in` is not needed.
  have htokens : ∃ others,
      Token.ofText s = .ofWord (first :: more) :: .unknown "in" :: others := by
    rw [Token.ofText]
    generalize s.toList = cs at hspelled
    cases hspelled with
    | @intro before behindName behindIn behind hbefore hne hbehindName hin hbehindIn hbehind =>
      have hstop : ∀ {blanks : List Char}, blanks ≠ [] → (∀ c ∈ blanks, isBlank c = true) →
          ∀ (rest : List Char) c, (blanks ++ rest).head? = some c → isWordChar c = false :=
        head?_append_of_blanks fun _ => isWordChar_eq_false_of_isBlank
      have hmore' : ∀ c ∈ more, isWordChar c = true := fun c hc => by
        rw [isWordChar, hmore c hc]
        rfl
      have hin' : ∀ c ∈ ['n'], isWordChar c = true :=
        List.all_eq_true.1 (by decide : ['n'].all isWordChar = true)
      have hsecond : ∀ rest, Token.readAll (behindName ++ ('i' :: ['n'] ++ (behindIn ++ rest))) =
          .unknown "in" :: Token.readAll (behindIn ++ rest) := fun rest =>
        Token.readAll_word hbehindName (by decide) hin' (hstop hin hbehindIn rest)
      rw [hname, Token.readAll_word hbefore hfirst hmore' (hstop hne hbehindName _)]
      exact ⟨_, congrArg _ (hsecond _)⟩
  obtain ⟨others, hothers⟩ := htokens
  have hunknown : .unknown "in" ∈ Token.ofText s := by simp [hothers]
  exact evaluate?_eq_none_of_mem hunknown data

end FormLetter
