import FormLetter.Proofs.Viable
import Mathlib.Data.List.Induction

/-!
# Which fault is found

A condition is read from left to right, and the first thing that goes wrong decides what its fault
is: a token that no sentence has there, one parenthesis or one operator too many, or an end within
a sentence. Only a text that is no token is looked for before.

* `Event`: what goes wrong at a token, in terms of the grammar alone.
* `Reading.event_of_step`, `Reading.not_event_of_step`: one step fails exactly at an event.
* `uneventful_iff_run`: tokens are read up to the first event.
* `Expression.ofTokens?_eq_iff`: what reading a list of tokens gives, in every case.
-/

namespace FormLetter

open Expression (Derives)

/-! ## Events -/

/-- How many parentheses are open behind a list of tokens. -/
def openLevels (ts : List Token) : Nat := ts.count .openParen - ts.count .closeParen

/-- What goes wrong at a token behind others. -/
inductive Event (before : List Token) (t : Token) : Fault → Prop where
  | trailing : ¬Viable (before ++ [t]) → Sentence before →
      Event before t (.trailing t.description)
  | unexpected : ¬Viable (before ++ [t]) → ¬Sentence before →
      Event before t (.unexpected t.description)
  | nestingTooDeep : Viable (before ++ [t]) → t = .openParen → openLevels (before ++ [t]) = 65 →
      Event before t (.nestingTooDeep 64)
  | tooManyOperators : Viable (before ++ [t]) → t.isOperator = true →
      (before ++ [t]).countP Token.isOperator = 257 → Event before t (.tooManyOperators 256)

/-- Nothing goes wrong at any of the tokens. -/
def Uneventful (ts : List Token) : Prop :=
  ∀ before t after, before ++ t :: after = ts → ∀ fault, ¬Event before t fault

theorem Event.unique {before : List Token} {t : Token} {fault fault' : Fault}
    (h : Event before t fault) (h' : Event before t fault') : fault = fault' := by
  cases h with
  | trailing hv hs =>
    cases h' with
    | trailing => rfl
    | unexpected _ hs' => exact absurd hs hs'
    | nestingTooDeep hv' => exact absurd hv' hv
    | tooManyOperators hv' => exact absurd hv' hv
  | unexpected hv hs =>
    cases h' with
    | trailing _ hs' => exact absurd hs' hs
    | unexpected => rfl
    | nestingTooDeep hv' => exact absurd hv' hv
    | tooManyOperators hv' => exact absurd hv' hv
  | nestingTooDeep hv ht =>
    cases h' with
    | trailing hv' => exact absurd hv hv'
    | unexpected hv' => exact absurd hv hv'
    | nestingTooDeep => rfl
    | tooManyOperators _ ht' => simp [ht, Token.isOperator] at ht'
  | tooManyOperators hv ht =>
    cases h' with
    | trailing hv' => exact absurd hv hv'
    | unexpected hv' => exact absurd hv hv'
    | nestingTooDeep _ ht' => simp [ht', Token.isOperator] at ht
    | tooManyOperators => rfl

theorem uneventful_append_singleton {ts : List Token} {t : Token} :
    Uneventful (ts ++ [t]) ↔ Uneventful ts ∧ ∀ fault, ¬Event ts t fault := by
  constructor
  · intro h
    refine ⟨fun before u after he => ?_, h ts t [] rfl⟩
    refine h before u (after ++ [t]) ?_
    rw [← he, List.append_assoc, List.cons_append]
  · rintro ⟨h, ht⟩ before u after he
    rcases List.eq_nil_or_concat after with rfl | ⟨after, last, rfl⟩
    · obtain ⟨rfl, hu⟩ := List.append_inj' he rfl
      obtain rfl : u = t := List.head_eq_of_cons_eq hu
      exact ht
    · rw [List.concat_eq_append, ← List.cons_append, ← List.append_assoc] at he
      exact h before u after (List.append_inj' he rfl).1

/-! ## One step -/

namespace Reading

/-- Where a reading stands. -/
def outline (r : Reading) : Outline :=
  ⟨r.enclosing.map fun p => p.compared.isSome, r.pending.compared.isSome, r.operand.isNone⟩

theorem stepOperator_push (p : Pending) (x : Expression) (op : Operator) (enclosing : List Bool) :
    Outline.stepOperator enclosing p.compared.isSome op =
      (p.push x op).map fun q => ⟨enclosing, q.compared.isSome, true⟩ := by
  cases op with
  | or => rfl
  | and => rfl
  | compare c =>
    rw [Outline.stepOperator, Pending.push]
    cases p.compared <;> rfl

variable {r s : Reading} {t : Token} {ts before : List Token} {fault : Fault}

theorem step_outline (h : r.step t = .ok s) : r.outline.step t = some s.outline := by
  obtain ⟨enclosing, p, operand, n⟩ := r
  cases operand with
  | none =>
    replace h : stepDue ⟨enclosing, p, none, n⟩ t = .ok s := h
    unfold stepDue at h
    split at h
    · cases h
      rfl
    · cases h
      rfl
    · split at h <;> cases h
      rfl
    · cases h
  | some x =>
    replace h : stepAfter ⟨enclosing, p, some x, n⟩ x t = .ok s := h
    unfold stepAfter at h
    split at h
    · rename_i op
      split at h
      · cases h
      · rename_i q hpush
        split at h <;> cases h
        show Outline.stepOperator _ _ _ = _
        rw [stepOperator_push p x, show p.push x op = some q from hpush]
        rfl
    · cases enclosing with
      | nil => cases h
      | cons outer rest =>
        cases h
        rfl
    · cases h

theorem run_outline (h : r.run ts = .ok s) : r.outline.run ts = some s.outline := by
  induction ts generalizing r with
  | nil =>
    cases h
    rfl
  | cons t ts ih =>
    rw [run] at h
    cases ht : r.step t with
    | error fault => simp [ht, Except.bind] at h
    | ok q =>
      rw [ht] at h
      rw [Outline.run_cons, step_outline ht]
      exact ih h

theorem openLevels_of_run (h : start.run ts = .ok r) : openLevels ts = r.enclosing.length := by
  have hcount := Outline.length_enclosing_run (run_outline h)
  rw [openLevels]
  simp only [outline, start, List.length_map, List.length_nil] at hcount
  omega

/-- What has been read is a sentence if an operand stands outside of all parentheses. -/
theorem sentence_iff (h : start.run ts = .ok r) :
    Sentence ts ↔ r.enclosing = [] ∧ r.operand ≠ none := by
  have hsound := Sound.start.run h
  have htokens : r.tokens = ts := tokens_run h
  constructor
  · intro hs
    obtain ⟨compared, hrun⟩ := hs.run
    have houtline : some r.outline = some ⟨[], compared, false⟩ := (run_outline h).symm.trans hrun
    simp only [outline, Option.some.injEq, Outline.mk.injEq, List.map_eq_nil_iff] at houtline
    refine ⟨houtline.1, fun hnone => ?_⟩
    rw [hnone] at houtline
    cases houtline.2.2
  · obtain ⟨enclosing, p, operand, n⟩ := r
    rintro ⟨henclosing, hoperand⟩
    obtain rfl : enclosing = [] := henclosing
    obtain ⟨x, rfl⟩ := Option.ne_none_iff_exists'.1 hoperand
    refine ⟨p.disjunction x, (hsound.pending.disjunction (hsound.operand x rfl)).1, ?_⟩
    rw [Pending.tokens_disjunction]
    exact htokens

/-- A token without a place in the outline is in no sentence there. -/
theorem not_viable (h : start.run before = .ok r) (ht : r.outline.step t = none) :
    ¬Viable (before ++ [t]) := by
  intro hv
  obtain ⟨o, ho⟩ := hv.run
  rw [Outline.run_append, show Outline.start = start.outline from rfl, run_outline h,
    Option.bind_some, Outline.run_singleton, ht] at ho
  cases ho

/-- A token other than an operand where one is due. -/
theorem event_due (h : start.run before = .ok r) (hoperand : r.operand = none)
    (ht : r.outline.step t = none) : Event before t (.unexpected t.description) :=
  .unexpected (not_viable h ht) fun hs => ((sentence_iff h).1 hs).2 hoperand

/-- A token that cannot follow an operand. -/
theorem event_misplaced (h : start.run before = .ok r) (hoperand : r.operand ≠ none)
    (ht : r.outline.step t = none) : Event before t (r.misplaced t) := by
  have hv := not_viable h ht
  unfold misplaced
  split
  · rename_i hempty
    exact .trailing hv ((sentence_iff h).2 ⟨List.isEmpty_iff.1 hempty, hoperand⟩)
  · rename_i hnonempty
    refine .unexpected hv fun hs => hnonempty ?_
    rw [((sentence_iff h).1 hs).1]
    rfl

/-- A parenthesis where all levels are open. -/
theorem event_nesting (h : start.run before = .ok r) (hoperand : r.operand = none)
    (hfull : ¬r.depth < maxNesting) : Event before .openParen (.nestingTooDeep 64) := by
  have hsound := Sound.start.run h
  have hgrown : ∀ p ∈ r.pending :: r.enclosing, Grown p :=
    List.forall_mem_cons.2 ⟨⟨_, hsound.pending⟩, hsound.surrounding.grown⟩
  have htokens : tokens ⟨r.pending :: r.enclosing, .none, none, r.operators⟩ =
      before ++ [.openParen] := by
    have hbefore : r.tokens = before := tokens_run h
    rw [← hbefore]
    simp [tokens, hoperand, Pending.tokens, Pending.none]
  have hviable : Viable (before ++ [.openParen]) :=
    htokens ▸ viable_of_due r.operators hgrown .none
  refine .nestingTooDeep hviable rfl ?_
  have hle := hsound.enclosing_le
  have hcount := Outline.length_enclosing_run (run_outline h)
  simp only [outline, start, depth, maxNesting, List.length_map,
    List.length_nil] at hfull hle hcount
  rw [openLevels, List.count_append, List.count_append]
  show before.count .openParen + 1 - (before.count .closeParen + 0) = 65
  omega

/-- An operator with a place where there are as many as there may be. -/
theorem event_operators {x : Expression} {op : Operator} {q : Pending}
    (h : start.run before = .ok r) (hoperand : r.operand = some x)
    (hpush : r.pending.push x op = some q) (hfull : ¬r.operators < maxOperators) :
    Event before (.operator op) (.tooManyOperators 256) := by
  have hsound := Sound.start.run h
  have hbefore : r.tokens = before := tokens_run h
  have hgrown : Grown q := Grown.push ⟨_, hsound.pending⟩ (hsound.operand x hoperand).1 hpush
  have htokens : tokens ⟨r.enclosing, q, none, r.operators⟩ = before ++ [.operator op] := by
    rw [← hbefore]
    simp [tokens, hoperand, Pending.tokens_push hpush]
  have hviable : Viable (before ++ [.operator op]) :=
    htokens ▸ viable_of_due r.operators hsound.surrounding.grown hgrown
  refine .tooManyOperators hviable rfl ?_
  have hle := hsound.operators_le
  have hcount := hsound.operators_eq
  rw [hbefore] at hcount
  rw [List.countP_append, ← hcount]
  show r.operators + 1 = 257
  unfold maxOperators at hfull hle
  omega

theorem event_of_stepDue (h : start.run before = .ok r) (hoperand : r.operand = none)
    (ht : r.stepDue t = .error fault) : Event before t fault := by
  have hplace := @event_due r t before h hoperand
  obtain ⟨enclosing, p, operand, n⟩ := r
  obtain rfl : operand = none := hoperand
  cases t with
  | literal value => cases ht
  | reference target => cases ht
  | openParen =>
    by_cases hroom : depth ⟨enclosing, p, none, n⟩ < maxNesting
    · rw [stepDue, if_pos hroom] at ht
      cases ht
    · rw [stepDue, if_neg hroom] at ht
      cases ht
      exact event_nesting h rfl hroom
  | operator _ | closeParen | unknown _ =>
    cases ht
    exact hplace rfl

theorem event_of_stepAfter {x : Expression} (h : start.run before = .ok r)
    (hoperand : r.operand = some x) (ht : r.stepAfter x t = .error fault) :
    Event before t fault := by
  have hplace := @event_misplaced r t before h (by simp [hoperand])
  obtain ⟨enclosing, p, operand, n⟩ := r
  obtain rfl : operand = some x := hoperand
  cases t with
  | literal _ | reference _ | openParen | unknown _ =>
    cases ht
    exact hplace rfl
  | operator op =>
    rw [stepAfter] at ht
    dsimp only at ht
    cases hpush : p.push x op with
    | none =>
      rw [hpush] at ht
      cases ht
      refine hplace ?_
      show Outline.stepOperator _ _ _ = none
      rw [stepOperator_push p x, hpush]
      rfl
    | some q =>
      rw [hpush] at ht
      dsimp only at ht
      by_cases hroom : n < maxOperators
      · rw [if_pos hroom] at ht
        cases ht
      · rw [if_neg hroom] at ht
        cases ht
        exact event_operators h rfl hpush hroom
  | closeParen =>
    cases enclosing with
    | nil =>
      cases ht
      exact hplace rfl
    | cons outer rest => cases ht

/-- A token that is refused is an event. -/
theorem event_of_step (h : start.run before = .ok r) (ht : r.step t = .error fault) :
    Event before t fault := by
  unfold step at ht
  split at ht
  · rename_i hoperand
    exact event_of_stepDue h hoperand ht
  · rename_i x hoperand
    exact event_of_stepAfter h hoperand ht

/-- A token that is read is no event. -/
theorem not_event_of_step (h : start.run before = .ok r) (ht : r.step t = .ok s) :
    ¬Event before t fault := by
  have hrun : start.run (before ++ [t]) = .ok s := by
    rw [run_append, h]
    show (r.step t).bind _ = _
    rw [ht]
    rfl
  have hsound := Sound.start.run hrun
  have htokens : s.tokens = before ++ [t] := tokens_run hrun
  have hviable : Viable (before ++ [t]) := htokens ▸ hsound.viable
  intro hevent
  cases hevent with
  | trailing hv => exact hv hviable
  | unexpected hv => exact hv hviable
  | nestingTooDeep _ _ hlevels =>
    have hle := hsound.enclosing_le
    rw [← openLevels_of_run hrun, hlevels] at hle
    exact absurd hle (by decide)
  | tooManyOperators _ _ hcount =>
    have hle := hsound.operators_le
    rw [hsound.operators_eq, htokens, hcount] at hle
    exact absurd hle (by decide)

end Reading

/-! ## A run -/

namespace Reading

variable {r s : Reading} {ts : List Token} {fault : Fault}

theorem run_append_singleton (r : Reading) (ts : List Token) (t : Token) :
    r.run (ts ++ [t]) = (r.run ts).bind fun s => s.step t := by
  rw [run_append]
  congr 1
  funext s
  show (s.step t).bind _ = _
  cases s.step t <;> rfl

/-- A run that fails has read the tokens before the one at which it fails. -/
theorem exists_of_run_eq_error (h : r.run ts = .error fault) :
    ∃ before t after s, before ++ t :: after = ts ∧ r.run before = .ok s ∧
      s.step t = .error fault := by
  induction ts generalizing r with
  | nil => cases h
  | cons t ts ih =>
    unfold run at h
    cases ht : r.step t with
    | error fault' =>
      rw [ht] at h
      cases h
      exact ⟨[], t, ts, r, rfl, rfl, ht⟩
    | ok q =>
      rw [ht] at h
      obtain ⟨before, u, after, s, rfl, hrun, hu⟩ := ih h
      refine ⟨t :: before, u, after, s, rfl, ?_, hu⟩
      unfold run
      rw [ht]
      exact hrun

end Reading

open Reading (start)

/-- Tokens are read up to the first event. -/
theorem uneventful_iff_run {ts : List Token} : Uneventful ts ↔ ∃ r, start.run ts = .ok r := by
  induction ts using List.reverseRecOn with
  | nil =>
    refine ⟨fun _ => ⟨start, rfl⟩, fun _ before t after he => ?_⟩
    simp at he
  | append_singleton ts t ih =>
    rw [uneventful_append_singleton, ih, Reading.run_append_singleton]
    constructor
    · rintro ⟨⟨r, hr⟩, hno⟩
      rw [hr]
      show ∃ s, r.step t = .ok s
      cases ht : r.step t with
      | error fault => exact absurd (Reading.event_of_step hr ht) (hno fault)
      | ok s => exact ⟨s, rfl⟩
    · rintro ⟨s, hs⟩
      cases hr : start.run ts with
      | error fault => simp [hr, Except.bind] at hs
      | ok r =>
        rw [hr] at hs
        exact ⟨⟨r, rfl⟩, fun fault => Reading.not_event_of_step hr hs⟩

/-! ## Whole conditions -/

namespace Expression

/-- Each parenthesis of a tree is closed in it. -/
theorem count_openParen_tokens (e : Expression) :
    e.tokens.count .openParen = e.tokens.count .closeParen := by
  induction e with
  | binary op left right ihl ihr =>
    simp [tokens, ihl, ihr]
  | literal value => rfl
  | reference target => rfl
  | group inner ih => simp [tokens, ih]

/-- At some token of a tree as many parentheses are open as there are groups in one another. -/
theorem exists_openLevels_eq_depth (e : Expression) :
    ∃ before after, before ++ after = e.tokens ∧
      before.count .openParen = before.count .closeParen + e.depth := by
  induction e with
  | literal value => exact ⟨[], _, rfl, rfl⟩
  | reference target => exact ⟨[], _, rfl, rfl⟩
  | group inner ih =>
    obtain ⟨before, after, he, hcount⟩ := ih
    refine ⟨.openParen :: before, after ++ [.closeParen], ?_, ?_⟩
    · rw [tokens, ← he]
      simp
    · simp [hcount, depth]
      omega
  | binary op left right ihl ihr =>
    rcases Nat.le_total right.depth left.depth with hle | hle
    · obtain ⟨before, after, he, hcount⟩ := ihl
      refine ⟨before, after ++ .operator op :: right.tokens, ?_, ?_⟩
      · rw [tokens, ← he, List.append_assoc]
      · rw [hcount, depth, Nat.max_eq_left hle]
    · obtain ⟨before, after, he, hcount⟩ := ihr
      refine ⟨left.tokens ++ .operator op :: before, after, ?_, ?_⟩
      · rw [tokens, ← he, List.append_assoc, List.cons_append]
      · have hleft := left.count_openParen_tokens
        simp [hcount, hleft, depth, Nat.max_eq_right hle]
        omega

/-- A tree whose tokens are read keeps to the limits. -/
theorem writtenBy_of_uneventful {ts : List Token} {e : Expression} (hts : Uneventful ts)
    (he : Derives .disjunction e) (htokens : e.tokens = ts) : WrittenBy ts e := by
  obtain ⟨r, hr⟩ := uneventful_iff_run.1 hts
  have hsound := Reading.Sound.start.run hr
  refine ⟨htokens, he, ?_, ?_⟩
  · obtain ⟨before, after, hsplit, hcount⟩ := e.exists_openLevels_eq_depth
    rw [htokens] at hsplit
    rw [← hsplit, Reading.run_append] at hr
    cases hq : start.run before with
    | error fault => simp [hq, Except.bind] at hr
    | ok q =>
      have hlevels := Reading.openLevels_of_run hq
      have hle := (Reading.Sound.start.run hq).enclosing_le
      unfold openLevels at hlevels
      unfold maxNesting at hle
      omega
  · have hcount := hsound.operators_eq
    rw [show r.tokens = ts from Reading.tokens_run hr, ← htokens,
      e.countP_isOperator_tokens] at hcount
    exact hcount ▸ hsound.operators_le

/-- What reading a list of tokens gives. -/
inductive Verdict (ts : List Token) : Except Fault Expression → Prop where
  | unknownText {before after : List Token} {source : String} :
      before ++ .unknown source :: after = ts → (∀ t ∈ before, t.unknown? = none) →
      Verdict ts (.error (.unknownText source))
  | event {before after : List Token} {t : Token} {fault : Fault} :
      (∀ t ∈ ts, t.unknown? = none) → before ++ t :: after = ts → Uneventful before →
      Event before t fault → Verdict ts (.error fault)
  | unexpectedEnd : (∀ t ∈ ts, t.unknown? = none) → Uneventful ts → Viable ts → ¬Sentence ts →
      Verdict ts (.error .unexpectedEnd)
  | ok {e : Expression} : Uneventful ts → Derives .disjunction e → e.tokens = ts →
      Verdict ts (.ok e)

theorem ofTokens?_of_known {ts : List Token} (h : ∀ t ∈ ts, t.unknown? = none) :
    ofTokens? ts = (start.run ts).bind Reading.finish := by
  unfold ofTokens?
  rw [List.findSome?_eq_none_iff.2 h]

theorem finish_of_not_sentence {ts : List Token} {r : Reading} (h : start.run ts = .ok r)
    (hs : ¬Sentence ts) : r.finish = .error .unexpectedEnd := by
  rw [Reading.sentence_iff h] at hs
  obtain ⟨enclosing, p, operand, n⟩ := r
  cases operand with
  | none => rfl
  | some x =>
    cases enclosing with
    | nil => exact absurd ⟨rfl, nofun⟩ hs
    | cons outer rest => rfl

/-- What a reading finds goes by the first event. -/
theorem verdict_ofTokens? (ts : List Token) : Verdict ts (ofTokens? ts) := by
  cases hunknown : ts.findSome? Token.unknown? with
  | some source =>
    obtain ⟨before, t, after, rfl, ht, hbefore⟩ := List.findSome?_eq_some_iff.1 hunknown
    rw [ofTokens?, hunknown]
    cases t with
    | unknown source' =>
      cases ht
      exact .unknownText rfl hbefore
    | _ => cases ht
  | none =>
    have hknown := List.findSome?_eq_none_iff.1 hunknown
    cases hrun : start.run ts with
    | error fault =>
      obtain ⟨before, t, after, r, he, hr, ht⟩ := Reading.exists_of_run_eq_error hrun
      rw [ofTokens?_of_known hknown, hrun]
      exact .event hknown he (uneventful_iff_run.2 ⟨r, hr⟩) (Reading.event_of_step hr ht)
    | ok r =>
      have hts : Uneventful ts := uneventful_iff_run.2 ⟨r, hrun⟩
      by_cases hs : Sentence ts
      · obtain ⟨e, he, htokens⟩ := hs
        rw [ofTokens?_of_writtenBy (writtenBy_of_uneventful hts he htokens)]
        exact .ok hts he htokens
      · rw [ofTokens?_of_known hknown, hrun]
        show Verdict ts r.finish
        rw [finish_of_not_sentence hrun hs]
        have htokens : r.tokens = ts := Reading.tokens_run hrun
        exact .unexpectedEnd hknown hts (htokens ▸ (Reading.Sound.start.run hrun).viable) hs

/-- Reading a list of tokens gives an unknown text if there is one, the first. Else the first event
decides: a token that no sentence has there, a parenthesis that opens the 65th level, or the 257th
operator. If there is none, the list is read if it is a sentence, and else its end is unexpected. -/
theorem ofTokens?_eq_iff (ts : List Token) (result : Except Fault Expression) :
    ofTokens? ts = result ↔ Verdict ts result := by
  constructor
  · rintro rfl
    exact verdict_ofTokens? ts
  · intro h
    cases h with
    | @unknownText before after source he hbefore =>
      have hfirst : ts.findSome? Token.unknown? = some source :=
        List.findSome?_eq_some_iff.2 ⟨before, _, after, he.symm, rfl, hbefore⟩
      rw [ofTokens?, hfirst]
    | @event before after t fault hknown he hbefore hevent =>
      obtain ⟨r, hr⟩ := uneventful_iff_run.1 hbefore
      rw [ofTokens?_of_known hknown, ← he, Reading.run_append, hr]
      show ((r.step t).bind _).bind _ = _
      cases ht : r.step t with
      | ok s => exact absurd hevent (Reading.not_event_of_step hr ht)
      | error fault' =>
        rw [(Reading.event_of_step hr ht).unique hevent]
        rfl
    | unexpectedEnd hknown hts _ hs =>
      obtain ⟨r, hr⟩ := uneventful_iff_run.1 hts
      rw [ofTokens?_of_known hknown, hr]
      exact finish_of_not_sentence hr hs
    | ok hts he htokens => exact ofTokens?_of_writtenBy (writtenBy_of_uneventful hts he htokens)

/-- Behind a comparison a second one has no place, and no operand is due for it. -/
example (a b c : Literal) :
    ofTokens? [.literal a, .operator (.compare .less), .literal b, .operator (.compare .less),
      .literal c] = .error (.trailing "'<'") := rfl

end Expression

end FormLetter
