import FormLetter.Proofs.Brackets
import FormLetter.Proofs.Lexing

/-!
# How placeholders are written

A placeholder is a path between double brackets, with blanks around it if one likes, and perhaps
with a flag before the path. These texts, and no others, are read as placeholders. They are also
what a search finds that tries the parts of the pattern one after the other, each as long as it can
be, and goes back where it gets stuck.

* `Placeholder.Nameable`, `Placeholder.Spelled`: the paths that can be written, and the ways to
  write a placeholder. `Placeholder.written_iff`: what is read as a placeholder.
* `Placeholder.attempts`: the search with all its attempts. `Placeholder.head?_attempts`: what it
  finds first.
-/

namespace FormLetter

variable {cs ds rest : List Char}

/-! ## Spelling placeholders -/

namespace Placeholder

variable {p : Placeholder}

/-- The characters of paths. -/
def isPathChar (c : Char) : Bool := !isBlank c && !isBracket c

/-- The path has characters, and none of them is a blank or a bracket. -/
structure Nameable (p : Placeholder) : Prop where
  path_ne : p.path.toList ≠ []
  isPathChar : ∀ c ∈ p.path.toList, isPathChar c = true

/-- The ways to write a placeholder. A path that is not required may begin with the flag only if it
has no further character. -/
inductive Spelled (p : Placeholder) : List Char → Prop where
  | required (hrequired : p.required = true) {before between behind : List Char}
      (hbefore : ∀ c ∈ before, isBlank c = true) (hbetween : ∀ c ∈ between, isBlank c = true)
      (hbehind : ∀ c ∈ behind, isBlank c = true) :
      Spelled p ('[' :: '[' ::
        (before ++ requiredFlag :: (between ++ (p.path.toList ++ (behind ++ [']', ']'])))))
  | optional (hrequired : p.required = false)
      (hflag : ∀ more, p.path.toList = requiredFlag :: more → more = [])
      {before behind : List Char} (hbefore : ∀ c ∈ before, isBlank c = true)
      (hbehind : ∀ c ∈ behind, isBlank c = true) :
      Spelled p ('[' :: '[' :: (before ++ (p.path.toList ++ (behind ++ [']', ']']))))

theorem isPathChar_iff {c : Char} :
    isPathChar c = true ↔ isBlank c = false ∧ isBracket c = false := by
  rw [isPathChar, Bool.and_eq_true, Bool.not_eq_true', Bool.not_eq_true']

theorem Nameable.isBlank_eq_false (h : p.Nameable) : ∀ c ∈ p.path.toList, isBlank c = false :=
  fun c hc => (isPathChar_iff.1 (h.isPathChar c hc)).1

theorem Nameable.bracketFree (h : p.Nameable) : BracketFree p.path.toList :=
  fun c hc => (isPathChar_iff.1 (h.isPathChar c hc)).2

/-- A text without brackets is a path if it has characters, and no blanks. -/
theorem isFieldPath_iff :
    isFieldPath cs = true ↔ cs ≠ [] ∧ ∀ c ∈ cs, isBlank c = false := by
  rw [isFieldPath, Bool.and_eq_true, Bool.not_eq_true', List.isEmpty_eq_false_iff,
    List.all_eq_true]
  simp only [Bool.not_eq_true']

theorem Nameable.isFieldPath (h : p.Nameable) : FormLetter.isFieldPath p.path.toList = true :=
  isFieldPath_iff.2 ⟨h.path_ne, h.isBlank_eq_false⟩

theorem Nameable.of_isFieldPath (h : FormLetter.isFieldPath cs = true) (hplain : BracketFree cs)
    (required : Bool) : Nameable ⟨String.ofList cs, required⟩ := by
  obtain ⟨hne, hblank⟩ := isFieldPath_iff.1 h
  constructor
  · rwa [String.toList_ofList]
  · intro c hc
    rw [String.toList_ofList] at hc
    exact isPathChar_iff.2 ⟨hblank c hc, hplain c hc⟩

/-! ## Reading placeholders -/

/-- A path with the flag before it is trimmed to the flag and what follows it. -/
theorem trim_flagged (hp : p.Nameable) {before between behind : List Char}
    (hbefore : ∀ c ∈ before, isBlank c = true) (hbehind : ∀ c ∈ behind, isBlank c = true) :
    trim (before ++ (requiredFlag :: (between ++ p.path.toList) ++ behind)) =
      requiredFlag :: (between ++ p.path.toList) := by
  refine trim_append hbefore (fun c hc => ?_) (fun c hc => ?_) hbehind (List.cons_ne_nil _ _)
  · obtain rfl : requiredFlag = c := Option.some.inj hc
    rfl
  · rw [← List.cons_append, List.getLast?_append_of_ne_nil _ hp.path_ne] at hc
    exact hp.isBlank_eq_false c (List.mem_of_getLast? hc)

theorem trim_path (hp : p.Nameable) {before behind : List Char}
    (hbefore : ∀ c ∈ before, isBlank c = true) (hbehind : ∀ c ∈ behind, isBlank c = true) :
    trim (before ++ (p.path.toList ++ behind)) = p.path.toList :=
  trim_append hbefore (fun c hc => hp.isBlank_eq_false c (List.mem_of_head? hc))
    (fun c hc => hp.isBlank_eq_false c (List.mem_of_getLast? hc)) hbehind hp.path_ne

/-- What follows the flag of a text that begins with it, without the blanks behind the flag. -/
def behindFlag : List Char → List Char
  | c :: cs => if c = requiredFlag then trimStart cs else []
  | [] => []

theorem ofContent?_eq (content : List Char) :
    ofContent? content =
      if isFieldPath (behindFlag (trim content)) then
        some ⟨String.ofList (behindFlag (trim content)), true⟩
      else if isFieldPath (trim content) then some ⟨String.ofList (trim content), false⟩
      else none := rfl

theorem behindFlag_flag (cs : List Char) : behindFlag (requiredFlag :: cs) = trimStart cs := by
  rw [behindFlag, if_pos rfl]

/-- Only a flag has a path behind it. -/
theorem exists_of_isFieldPath_behindFlag (h : isFieldPath (behindFlag cs) = true) :
    ∃ more, cs = requiredFlag :: more ∧ behindFlag cs = trimStart more := by
  cases cs with
  | nil => cases h
  | cons c more =>
    by_cases hc : c = requiredFlag
    · subst hc
      exact ⟨more, rfl, behindFlag_flag more⟩
    · rw [behindFlag, if_neg hc] at h
      cases h

/-- The flag counts if a path follows it. -/
theorem ofContent?_of_required (hp : p.Nameable) (hrequired : p.required = true)
    {before between behind : List Char} (hbefore : ∀ c ∈ before, isBlank c = true)
    (hbetween : ∀ c ∈ between, isBlank c = true) (hbehind : ∀ c ∈ behind, isBlank c = true) :
    ofContent? (before ++ (requiredFlag :: (between ++ p.path.toList) ++ behind)) = some p := by
  have htrim : trimStart (between ++ p.path.toList) = p.path.toList := by
    rw [trimStart_append hbetween, trimStart_eq_self fun c hc =>
      hp.isBlank_eq_false c (List.mem_of_head? hc)]
  rw [ofContent?_eq, trim_flagged hp hbefore hbehind, behindFlag_flag, htrim, if_pos hp.isFieldPath,
    String.ofList_toList, ← hrequired]

/-- A path that has no flag before it, or is the flag alone, stands for itself. -/
theorem ofContent?_of_optional (hp : p.Nameable) (hrequired : p.required = false)
    (hflag : ∀ more, p.path.toList = requiredFlag :: more → more = [])
    {before behind : List Char} (hbefore : ∀ c ∈ before, isBlank c = true)
    (hbehind : ∀ c ∈ behind, isBlank c = true) :
    ofContent? (before ++ (p.path.toList ++ behind)) = some p := by
  have hnone : isFieldPath (behindFlag p.path.toList) ≠ true := by
    intro h
    obtain ⟨more, hpath, hmore⟩ := exists_of_isFieldPath_behindFlag h
    rw [hmore, hflag more hpath] at h
    cases h
  rw [ofContent?_eq, trim_path hp hbefore hbehind, if_neg hnone, if_pos hp.isFieldPath,
    String.ofList_toList, ← hrequired]

/-- What the content between the brackets is read as is written in one of these ways. -/
theorem spelled_of_ofContent? (hplain : BracketFree cs) (h : ofContent? cs = some p) :
    p.Nameable ∧ p.Spelled ('[' :: '[' :: (cs ++ [']', ']'])) := by
  obtain ⟨before, behind, hbefore, hbehind, hcs⟩ := exists_append_trim cs
  have hbare : BracketFree (trim cs) := fun c hc => hplain c (by
    rw [hcs]
    exact List.mem_append_right _ (List.mem_append_left _ hc))
  rw [ofContent?_eq] at h
  rw [hcs]
  generalize trim cs = bare at h hbare
  by_cases hpath : isFieldPath (behindFlag bare) = true
  · rw [if_pos hpath] at h
    cases h
    obtain ⟨more, rfl, hmore⟩ := exists_of_isFieldPath_behindFlag hpath
    obtain ⟨between, hbetween, hsplit⟩ := exists_append_trimStart more
    rw [hmore] at hpath ⊢
    generalize trimStart more = path at hsplit hpath
    subst hsplit
    have hplain' : BracketFree path := fun c hc => hbare c (.tail _ (List.mem_append_right _ hc))
    have hspelled := Spelled.required (p := ⟨String.ofList path, true⟩) rfl hbefore hbetween hbehind
    rw [String.toList_ofList] at hspelled
    refine ⟨.of_isFieldPath hpath hplain' true, ?_⟩
    simpa using hspelled
  · rw [if_neg hpath] at h
    by_cases htrim : isFieldPath bare = true
    · rw [if_pos htrim] at h
      cases h
      refine ⟨.of_isFieldPath htrim hbare false, ?_⟩
      have hflag : ∀ more, bare = requiredFlag :: more → more = [] := by
        rintro more rfl
        by_contra hne
        obtain ⟨-, hblank⟩ := isFieldPath_iff.1 htrim
        refine hpath (isFieldPath_iff.2 ?_)
        rw [behindFlag_flag,
          trimStart_eq_self fun c hc => hblank c (.tail _ (List.mem_of_head? hc))]
        exact ⟨hne, fun c hc => hblank c (.tail _ hc)⟩
      have hspelled := Spelled.optional (p := ⟨String.ofList bare, false⟩) rfl
        (by rwa [String.toList_ofList]) hbefore hbehind
      rw [String.toList_ofList] at hspelled
      simpa using hspelled
    · rw [if_neg htrim] at h
      cases h

theorem bracketFree_of_blanks (h : ∀ c ∈ cs, isBlank c = true) : BracketFree cs :=
  bracketFree_of_forall (by decide) (by decide) h

/-- What is read as a placeholder. -/
theorem written_iff : p.Written cs ↔ p.Nameable ∧ p.Spelled cs := by
  constructor
  · rintro ⟨content, rfl, hplain, hcontent⟩
    exact spelled_of_ofContent? hplain hcontent
  · rintro ⟨hp, hspelled⟩
    cases hspelled with
    | @required hrequired before between behind hbefore hbetween hbehind =>
      refine ⟨before ++ (requiredFlag :: (between ++ p.path.toList) ++ behind), by simp, ?_,
        ofContent?_of_required hp hrequired hbefore hbetween hbehind⟩
      exact (bracketFree_of_blanks hbefore).append ((BracketFree.cons (by decide)
        ((bracketFree_of_blanks hbetween).append hp.bracketFree)).append
          (bracketFree_of_blanks hbehind))
    | @optional hrequired hflag before behind hbefore hbehind =>
      refine ⟨before ++ (p.path.toList ++ behind), by simp, ?_,
        ofContent?_of_optional hp hrequired hflag hbefore hbehind⟩
      exact (bracketFree_of_blanks hbefore).append
        (hp.bracketFree.append (bracketFree_of_blanks hbehind))

/-! ## Searching for placeholders -/

/-- The ways to divide a text into characters of one kind and what follows them, in the order in
which a search tries them: as many characters as there are come first. -/
def runs (kind : Char → Bool) : List Char → List (List Char × List Char)
  | [] => [([], [])]
  | c :: cs =>
    if kind c then (runs kind cs).map (fun (run, rest) => (c :: run, rest)) ++ [([], c :: cs)]
    else [([], c :: cs)]

/-- The attempts to read a path with blanks around it up to two brackets that close. Each gives a
placeholder with that path, and what follows it. -/
def pathAttempts (required : Bool) (cs : List Char) : List (Placeholder × List Char) :=
  (runs isBlank cs).flatMap fun (_, cs) =>
    ((runs isPathChar cs).filter fun (path, _) => !path.isEmpty).flatMap fun (path, cs) =>
      (runs isBlank cs).flatMap fun (_, cs) =>
        (after? [']', ']'] cs).toList.map fun rest => (⟨String.ofList path, required⟩, rest)

/-- The attempts to read a placeholder at the start of a text, in the order in which a search with
backtracking makes them: two brackets, blanks, the flag rather than none, and then a path. -/
def attempts (cs : List Char) : List (Placeholder × List Char) :=
  (after? ['[', '['] cs).toList.flatMap fun cs =>
    (runs isBlank cs).flatMap fun (_, cs) =>
      (after? [requiredFlag] cs).toList.flatMap (pathAttempts true) ++ pathAttempts false cs

theorem mem_runs {kind : Char → Bool} {run : List Char} :
    (run, rest) ∈ runs kind cs ↔ cs = run ++ rest ∧ ∀ c ∈ run, kind c = true := by
  induction cs generalizing run with
  | nil =>
    rw [runs, List.mem_singleton, Prod.mk.injEq]
    constructor
    · rintro ⟨rfl, rfl⟩
      exact ⟨rfl, nofun⟩
    · rintro ⟨h, -⟩
      exact List.nil_eq_append_iff.1 h
  | cons c cs ih =>
    have hnone : (run, rest) = ([], c :: cs) →
        c :: cs = run ++ rest ∧ ∀ d ∈ run, kind d = true := by
      intro h
      cases h
      exact ⟨rfl, nofun⟩
    rw [runs]
    constructor
    · intro h
      split at h
      · rename_i hc
        rcases List.mem_append.1 h with h | h
        · obtain ⟨⟨run', rest'⟩, hmem, he⟩ := List.mem_map.1 h
          cases he
          obtain ⟨rfl, hrun⟩ := ih.1 hmem
          exact ⟨rfl, List.forall_mem_cons.2 ⟨hc, hrun⟩⟩
        · exact hnone (List.mem_singleton.1 h)
      · exact hnone (List.mem_singleton.1 h)
    · rintro ⟨hcs, hrun⟩
      cases run with
      | nil =>
        obtain rfl : c :: cs = rest := hcs
        split
        · exact List.mem_append_right _ (.head _)
        · exact .head _
      | cons d run =>
        obtain ⟨rfl, htail⟩ := List.cons.inj hcs
        obtain ⟨hc, hrun⟩ := List.forall_mem_cons.1 hrun
        rw [if_pos hc]
        exact List.mem_append_left _ (List.mem_map.2 ⟨(run, rest), ih.2 ⟨htail, hrun⟩, rfl⟩)

/-- The first way takes as many characters as there are. -/
theorem exists_runs_eq_cons (kind : Char → Bool) (cs : List Char) :
    ∃ others, runs kind cs = (cs.takeWhile kind, cs.dropWhile kind) :: others := by
  induction cs with
  | nil => exact ⟨[], rfl⟩
  | cons c cs ih =>
    obtain ⟨others, hothers⟩ := ih
    by_cases hc : kind c = true
    · rw [runs, if_pos hc, hothers, List.takeWhile_cons_of_pos hc, List.dropWhile_cons_of_pos hc]
      exact ⟨_, rfl⟩
    · rw [runs, if_neg hc, List.takeWhile_cons_of_neg hc, List.dropWhile_cons_of_neg hc]
      exact ⟨[], rfl⟩

theorem mem_pathAttempts {required : Bool} :
    (p, rest) ∈ pathAttempts required cs ↔
      p.required = required ∧ p.Nameable ∧
        ∃ between behind, (∀ c ∈ between, isBlank c = true) ∧ (∀ c ∈ behind, isBlank c = true) ∧
          cs = between ++ (p.path.toList ++ (behind ++ ']' :: ']' :: rest)) := by
  simp only [pathAttempts, List.mem_flatMap, List.mem_filter, List.mem_map, Option.mem_toList,
    Prod.exists, mem_runs, Bool.not_eq_true', List.isEmpty_eq_false_iff, after?_eq_some_iff,
    Prod.mk.injEq]
  constructor
  · rintro ⟨between, more, ⟨rfl, hbetween⟩, path, more', ⟨⟨rfl, hpath⟩, hne⟩, behind, more'',
      ⟨rfl, hbehind⟩, rest', rfl, rfl, rfl⟩
    refine ⟨rfl, ⟨?_, ?_⟩, between, behind, hbetween, hbehind, ?_⟩
    · rwa [String.toList_ofList]
    · rwa [String.toList_ofList]
    · rw [String.toList_ofList]
      rfl
  · rintro ⟨rfl, hp, between, behind, hbetween, hbehind, rfl⟩
    exact ⟨between, _, ⟨rfl, hbetween⟩, p.path.toList, _, ⟨⟨rfl, hp.isPathChar⟩, hp.path_ne⟩,
      behind, _, ⟨rfl, hbehind⟩, rest, rfl, by rw [String.ofList_toList], rfl⟩

/-- The attempts that succeed are those for which the text fits the pattern, with the flag or
without it. -/
theorem mem_attempts :
    (p, rest) ∈ attempts cs ↔
      p.Nameable ∧ ∃ before between behind, (∀ c ∈ before, isBlank c = true) ∧
        (∀ c ∈ between, isBlank c = true) ∧ (∀ c ∈ behind, isBlank c = true) ∧
        cs = '[' :: '[' :: (before ++ ((if p.required then [requiredFlag] else []) ++
          (between ++ (p.path.toList ++ (behind ++ ']' :: ']' :: rest))))) := by
  simp only [attempts, List.mem_flatMap, List.mem_append, Option.mem_toList, Prod.exists, mem_runs,
    after?_eq_some_iff, mem_pathAttempts]
  constructor
  · rintro ⟨more, rfl, before, more', ⟨rfl, hbefore⟩, ⟨more'', rfl, hrequired, hp, between, behind,
      hbetween, hbehind, rfl⟩ | ⟨hrequired, hp, between, behind, hbetween, hbehind, rfl⟩⟩
    · exact ⟨hp, before, between, behind, hbefore, hbetween, hbehind, by rw [hrequired]; rfl⟩
    · exact ⟨hp, before, between, behind, hbefore, hbetween, hbehind, by rw [hrequired]; rfl⟩
  · rintro ⟨hp, before, between, behind, hbefore, hbetween, hbehind, rfl⟩
    refine ⟨_, rfl, before, _, ⟨rfl, hbefore⟩, ?_⟩
    cases hrequired : p.required with
    | true => exact .inl ⟨_, rfl, rfl, hp, between, behind, hbetween, hbehind, rfl⟩
    | false => exact .inr ⟨rfl, hp, between, behind, hbetween, hbehind, rfl⟩

/-- If an attempt with the flag succeeds, one with the flag comes first: the flag stands behind all
blanks, and behind fewer of them nothing is tried before. -/
theorem head?_attempts_of_required (h : (p, rest) ∈ attempts cs) (hrequired : p.required = true) :
    ∃ q others, (attempts cs).head? = some (q, others) ∧ q.required = true := by
  obtain ⟨hp, before, between, behind, hbefore, hbetween, hbehind, rfl⟩ := mem_attempts.1 h
  rw [if_pos hrequired]
  have hpath : (p, rest) ∈ pathAttempts true
      (between ++ (p.path.toList ++ (behind ++ ']' :: ']' :: rest))) :=
    mem_pathAttempts.2 ⟨hrequired, hp, between, behind, hbetween, hbehind, rfl⟩
  generalize between ++ (p.path.toList ++ (behind ++ ']' :: ']' :: rest)) = more at hpath
  obtain ⟨first, others, hfirst⟩ := List.exists_cons_of_ne_nil (List.ne_nil_of_mem hpath)
  have hrequired' : first.1.required = true := by
    have hmem : (first.1, first.2) ∈ pathAttempts true more := hfirst ▸ .head _
    exact (mem_pathAttempts.1 hmem).1
  have hstop : ∀ c, ([requiredFlag] ++ more).head? = some c → isBlank c = false := by
    intro c hc
    obtain rfl : requiredFlag = c := Option.some.inj hc
    decide
  obtain ⟨htake, hdrop⟩ := takeWhile_dropWhile_append hbefore hstop
  obtain ⟨fewer, hruns⟩ := exists_runs_eq_cons isBlank (before ++ ([requiredFlag] ++ more))
  rw [htake, hdrop] at hruns
  refine ⟨first.1, first.2, ?_, hrequired'⟩
  have hopening : after? ['[', '['] ('[' :: '[' :: (before ++ ([requiredFlag] ++ more))) =
      some (before ++ ([requiredFlag] ++ more)) := after?_eq_some_iff.2 rfl
  have hflag : after? [requiredFlag] ([requiredFlag] ++ more) = some more :=
    after?_eq_some_iff.2 rfl
  rw [attempts, hopening, Option.toList_some, List.flatMap_singleton, hruns, List.flatMap_cons]
  dsimp only
  rw [hflag, Option.toList_some, List.flatMap_singleton, hfirst]
  rfl

/-- What the search finds first is written at the start of the text. -/
theorem exists_of_head?_attempts (h : (attempts cs).head? = some (p, rest)) :
    ∃ source, cs = source ++ rest ∧ p.Written source := by
  obtain ⟨hp, before, between, behind, hbefore, hbetween, hbehind, hcs⟩ :=
    mem_attempts.1 (List.mem_of_head? h)
  cases hrequired : p.required with
  | true =>
    refine ⟨_, ?_, written_iff.2 ⟨hp, .required hrequired hbefore hbetween hbehind⟩⟩
    rw [hcs, hrequired]
    simp
  | false =>
    have hblanks : ∀ c ∈ before ++ between, isBlank c = true :=
      List.forall_mem_append.2 ⟨hbefore, hbetween⟩
    have hflag : ∀ more, p.path.toList = requiredFlag :: more → more = [] := by
      intro more hpath
      by_contra hne
      -- What follows the flag is a path, so an attempt with the flag would have come first.
      have hmore : Nameable ⟨String.ofList more, true⟩ := by
        constructor
        · rwa [String.toList_ofList]
        · intro c hc
          rw [String.toList_ofList] at hc
          exact hp.isPathChar c (hpath ▸ .tail _ hc)
      have hmem : (⟨String.ofList more, true⟩, rest) ∈ attempts cs := by
        refine mem_attempts.2 ⟨hmore, before ++ between, [], behind, hblanks, nofun, hbehind, ?_⟩
        rw [hcs, hpath, hrequired, String.toList_ofList]
        simp
      obtain ⟨q, others, hq, hqrequired⟩ := head?_attempts_of_required hmem rfl
      rw [h] at hq
      cases hq
      rw [hrequired] at hqrequired
      cases hqrequired
    refine ⟨_, ?_, written_iff.2 ⟨hp, .optional hrequired hflag hblanks hbehind⟩⟩
    rw [hcs, hrequired]
    simp

/-- For what is written at the start of a text an attempt succeeds. -/
theorem Written.mem_attempts (h : p.Written cs) (rest : List Char) :
    (p, rest) ∈ attempts (cs ++ rest) := by
  obtain ⟨hp, hspelled⟩ := written_iff.1 h
  cases hspelled with
  | @required hrequired before between behind hbefore hbetween hbehind =>
    refine Placeholder.mem_attempts.2
      ⟨hp, before, between, behind, hbefore, hbetween, hbehind, ?_⟩
    rw [hrequired]
    simp
  | @optional hrequired hflag before behind hbefore hbehind =>
    refine Placeholder.mem_attempts.2 ⟨hp, before, [], behind, hbefore, nofun, hbehind, ?_⟩
    rw [hrequired]
    simp

/-- The search finds a placeholder first exactly if it is written at the start of the text. -/
theorem head?_attempts :
    (attempts cs).head? = some (p, rest) ↔ ∃ source, cs = source ++ rest ∧ p.Written source := by
  refine ⟨exists_of_head?_attempts, ?_⟩
  rintro ⟨source, rfl, hwritten⟩
  obtain ⟨first, others, hattempts⟩ :=
    List.exists_cons_of_ne_nil (List.ne_nil_of_mem (hwritten.mem_attempts rest))
  have hhead : (attempts (source ++ rest)).head? = some (first.1, first.2) := by
    rw [hattempts]
    rfl
  obtain ⟨source', hsource, hwritten'⟩ := exists_of_head?_attempts hhead
  obtain ⟨rfl, rfl⟩ := hwritten.unique hwritten' hsource
  rw [hhead, List.append_cancel_left hsource]

end Placeholder

end FormLetter
