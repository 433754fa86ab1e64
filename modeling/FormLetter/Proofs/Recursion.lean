import FormLetter.Proofs.Grammar
import Mathlib.Logic.Relation

/-!
# Reading by functions that call one another

A condition can also be read by one function for each level of the grammar. Each function calls the
one of the next tighter level for its parts, and the one for operands calls the one for the loosest
level where a parenthesis opens. One counter says how many parentheses are open and another how many
operators have been read; both are raised first and compared with their limits then.

A state holds these counters and the calls that wait, so that all of them can be counted at any
time of the reading, and not only at its end.

* `Recursion.Calls`: the calls that wait, each for one that it can make.
* `Recursion.step`: what the functions do next. `Recursion.stepsLeft_step`: it comes to an end.
* `Recursion.run_ofReading`: from wherever a reading stands, the functions give what it gives.
* `Recursion.ofTokens?_eq`: so they give the same tree for a condition, or the same fault.
-/

namespace FormLetter

/-! ## States -/

namespace Recursion

/-- The calls that wait for a call at a level, the innermost one first, with what each has put
together so far. -/
inductive Calls : Level → Type where
  /-- Only the end of the text may follow. -/
  | whole : Calls .disjunction
  /-- An operand has opened a parenthesis and waits for what stands inside. -/
  | group (caller : Calls .operand) : Calls .disjunction
  /-- Conjunctions are joined by `||`. -/
  | disjunction (left : Option Expression) (caller : Calls .disjunction) : Calls .conjunction
  /-- Comparisons are joined by `&&`. -/
  | conjunction (left : Option Expression) (caller : Calls .conjunction) : Calls .comparison
  /-- An operand is read, the first one or the one that the first is compared with. -/
  | comparison (left : Option (Expression × Comparison)) (caller : Calls .comparison) :
    Calls .operand

/-- Where the functions stand. -/
inductive Point where
  /-- The function of a level is called. -/
  | call (level : Level) (callers : Calls level)
  /-- The function of a level has returned an expression. -/
  | returned (level : Level) (e : Expression) (callers : Calls level)
  /-- A parenthesis has been read and counted. Its inside comes next, unless it is too deep. -/
  | opened (callers : Calls .disjunction)
  /-- An operator has been read and counted. Its right side comes next, unless there are too many
  operators. -/
  | counted (level : Level) (callers : Calls level)
  /-- The inside of a parenthesis has been read and is not counted any more. The function for
  operands now wants the parenthesis to close. -/
  | closing (inner : Expression) (callers : Calls .operand)

end Recursion

/-- The state of the functions between two actions. -/
structure Recursion where
  point : Recursion.Point
  /-- The tokens that have not been read. -/
  rest : List Token
  /-- How deep parentheses are nested here. -/
  depth : Nat
  /-- How many operators have been read. -/
  operators : Nat

/-- An expression behind what stands to its left, if anything does. -/
def Expression.behind (op : Operator) (left : Option Expression) (right : Expression) :
    Expression :=
  match left with
  | none => right
  | some left => .binary op left right

namespace Recursion

/-- What an action leads to: another state, or what all the reading has come to. -/
inductive Outcome where
  | next (r : Recursion)
  | result (result : Except Fault Expression)

/-- All of a list of tokens is to be read. -/
def start (ts : List Token) : Recursion := ⟨.call .disjunction .whole, ts, 0, 0⟩

/-- A function begins. -/
def begin (r : Recursion) : (level : Level) → Calls level → Outcome
  | .disjunction, callers =>
    .next { r with point := .call .conjunction (.disjunction none callers) }
  | .conjunction, callers =>
    .next { r with point := .call .comparison (.conjunction none callers) }
  | .comparison, callers => .next { r with point := .call .operand (.comparison none callers) }
  | .operand, callers =>
    match r.rest with
    | [] => .result (.error .unexpectedEnd)
    | .literal value :: rest =>
      .next { r with point := .returned .operand (.literal value) callers, rest := rest }
    | .reference target :: rest =>
      .next { r with point := .returned .operand (.reference target) callers, rest := rest }
    | .openParen :: rest =>
      .next { r with point := .opened (.group callers), rest := rest, depth := r.depth + 1 }
    | token :: _ => .result (.error (.unexpected token.description))

/-- If an operator comes next, it is read and counted, and its right side is wanted. -/
def readOperator (r : Recursion) (op : Operator) (wanted otherwise : Point) : Outcome :=
  if r.rest.head? = some (.operator op) then
    .next ⟨wanted, r.rest.tail, r.depth, r.operators + 1⟩
  else .next { r with point := otherwise }

/-- A function goes on with the expression that it has waited for. An operator of its level calls
for another one, and whatever else follows is left to its caller. -/
def resume (r : Recursion) (e : Expression) : (level : Level) → Calls level → Outcome
  | .operand, .comparison none caller =>
    match r.rest with
    | .operator (.compare c) :: rest =>
      .next ⟨.counted .operand (.comparison (some (e, c)) caller), rest, r.depth, r.operators + 1⟩
    | _ => .next { r with point := .returned .comparison e caller }
  | .operand, .comparison (some (left, c)) caller =>
    .next { r with point := .returned .comparison (.binary (.compare c) left e) caller }
  | .comparison, .conjunction left caller =>
    let joined := Expression.behind .and left e
    r.readOperator .and (.counted .comparison (.conjunction (some joined) caller))
      (.returned .conjunction joined caller)
  | .conjunction, .disjunction left caller =>
    let joined := Expression.behind .or left e
    r.readOperator .or (.counted .conjunction (.disjunction (some joined) caller))
      (.returned .disjunction joined caller)
  | .disjunction, .group caller =>
    -- The level is given up before it is known whether the parenthesis closes.
    .next { r with point := .closing e caller, depth := r.depth - 1 }
  | .disjunction, .whole =>
    match r.rest with
    | [] => .result (.ok e)
    | token :: _ => .result (.error (.trailing token.description))

/-- One action of the functions. -/
def step (r : Recursion) : Outcome :=
  match r.point with
  | .call level callers => r.begin level callers
  | .returned level e callers => r.resume e level callers
  | .opened callers =>
    if maxNesting < r.depth then .result (.error (.nestingTooDeep maxNesting))
    else .next { r with point := .call .disjunction callers }
  | .counted level callers =>
    if maxOperators < r.operators then .result (.error (.tooManyOperators maxOperators))
    else .next { r with point := .call level callers }
  | .closing inner callers =>
    match r.rest with
    | .closeParen :: rest =>
      .next { r with point := .returned .operand (.group inner) callers, rest := rest }
    | token :: _ => .result (.error (.unexpected token.description))
    | [] => .result (.error .unexpectedEnd)

/-- A state is one that the functions come to from another. -/
def Reaches : Recursion → Recursion → Prop := Relation.ReflTransGen fun r s => r.step = .next s

/-! ## The end of the calls -/

/-- How many actions there are before a token is read, at most. -/
def Point.toGo : Point → Nat
  | .call level _ => 3 - level.tightness
  | .returned level _ _ => 1 + level.tightness
  | .opened _ => 4
  | .counted _ _ => 4
  | .closing _ _ => 0

theorem Point.toGo_le (p : Point) : p.toGo ≤ 4 := by
  cases p with
  | call level callers => exact Nat.le_trans (Nat.sub_le 3 _) (by decide)
  | returned level e callers => cases level <;> exact Nat.le_of_ble_eq_true rfl
  | opened callers | counted level callers => exact Nat.le_refl 4
  | closing inner callers => exact Nat.zero_le 4

/-- A property of the state that comes next, if one does. -/
def Outcome.Next (P : Recursion → Prop) : Outcome → Prop
  | .next r => P r
  | .result _ => True

/-- How many actions there are until the end of the text, at most. -/
def stepsLeft (r : Recursion) : Nat := 5 * r.rest.length + r.point.toGo

/-- Whatever comes next, reading a token brings the end nearer. -/
theorem stepsLeft_lt_of_token (p q : Point) (t : Token) (rest : List Token) (d e m n : Nat) :
    stepsLeft ⟨q, rest, e, n⟩ < stepsLeft ⟨p, t :: rest, d, m⟩ := by
  have hq : q.toGo ≤ 4 := q.toGo_le
  simp only [stepsLeft, List.length_cons]
  omega

theorem stepsLeft_readOperator (r : Recursion) (op : Operator) {wanted otherwise : Point}
    (h : otherwise.toGo < r.point.toGo) :
    (r.readOperator op wanted otherwise).Next fun s => s.stepsLeft < r.stepsLeft := by
  obtain ⟨point, rest, depth, operators⟩ := r
  unfold readOperator
  split
  · rename_i hop
    obtain ⟨rest, rfl⟩ := List.head?_eq_some_iff.1 hop
    exact stepsLeft_lt_of_token ..
  · exact Nat.add_lt_add_left h _

/-- Every action brings the end nearer. -/
theorem stepsLeft_step (r : Recursion) : r.step.Next fun s => s.stepsLeft < r.stepsLeft := by
  obtain ⟨point, rest, depth, operators⟩ := r
  cases point with
  | call level callers =>
    cases level with
    | disjunction | conjunction | comparison => exact Nat.lt_succ_self _
    | operand =>
      simp only [step, begin]
      split <;> try trivial
      all_goals exact stepsLeft_lt_of_token ..
  | returned level e callers =>
    cases callers with
    | whole => cases rest <;> trivial
    | group caller => exact Nat.lt_succ_self _
    | disjunction left caller => exact stepsLeft_readOperator _ .or (Nat.lt_succ_self _)
    | conjunction left caller => exact stepsLeft_readOperator _ .and (Nat.lt_succ_self _)
    | comparison left caller =>
      rcases left with _ | ⟨left, c⟩
      · simp only [step, resume]
        split
        · exact stepsLeft_lt_of_token ..
        · exact Nat.lt_succ_self _
      · exact Nat.lt_succ_self _
  | opened callers =>
    simp only [step]
    split
    · trivial
    · exact Nat.lt_succ_self _
  | counted level callers =>
    simp only [step]
    split
    · trivial
    · exact Nat.add_lt_add_left (Nat.sub_lt_succ 3 _) _
  | closing inner callers =>
    simp only [step]
    split <;> try trivial
    exact stepsLeft_lt_of_token ..

/-- What the functions make of a state. -/
def run (r : Recursion) : Except Fault Expression :=
  match h : r.step with
  | .next s =>
    have : s.stepsLeft < r.stepsLeft := by
      have hs := r.stepsLeft_step
      rwa [h] at hs
    s.run
  | .result result => result
termination_by r.stepsLeft

theorem run_eq (r : Recursion) :
    r.run =
      match r.step with
      | .next s => s.run
      | .result result => result := by
  rw [run]
  split <;> simp_all

theorem run_of_next {r s : Recursion} (h : r.step = .next s) : r.run = s.run := by
  rw [run_eq, h]

theorem run_of_result {r : Recursion} {result : Except Fault Expression}
    (h : r.step = .result result) : r.run = result := by
  rw [run_eq, h]

/-! ## The same readings -/

/-- The calls that wait for an operand where something waits for it within the same parentheses. -/
def Calls.within (p : Pending) (outer : Calls .disjunction) : Calls .operand :=
  .comparison p.compared (.conjunction p.conjunct (.disjunction p.disjunct outer))

/-- The calls around what stands inside the open parentheses. -/
def Calls.around : List Pending → Calls .disjunction
  | [] => .whole
  | p :: enclosing => .group (.within p (around enclosing))

/-- The functions where a reading stands, with the tokens to come. -/
def ofReading (r : Reading) (rest : List Token) : Recursion :=
  let callers := Calls.within r.pending (.around r.enclosing)
  match r.operand with
  | none => ⟨.call .operand callers, rest, r.depth, r.operators⟩
  | some operand => ⟨.returned .operand operand callers, rest, r.depth, r.operators⟩

section Actions

variable {p q : Pending} {x : Expression} {op : Operator} {outer : Calls .disjunction}
  {rest : List Token} {d n : Nat}

/-- Each function calls the next one before it reads a token. -/
theorem run_call_disjunction :
    run ⟨.call .disjunction outer, rest, d, n⟩ =
      run ⟨.call .operand (.within .none outer), rest, d, n⟩ :=
  (run_of_next rfl).trans ((run_of_next rfl).trans (run_of_next rfl))

theorem run_opened :
    run ⟨.opened outer, rest, d + 1, n⟩ =
      if d < maxNesting then run ⟨.call .operand (.within .none outer), rest, d + 1, n⟩
      else .error (.nestingTooDeep maxNesting) := by
  split
  · rename_i hroom
    rw [← run_call_disjunction]
    exact run_of_next (if_neg (Nat.not_lt.2 hroom))
  · rename_i hfull
    exact run_of_result (if_pos (Nat.lt_succ_of_le (Nat.not_lt.1 hfull)))

theorem run_counted {level : Level} {callers : Calls level} :
    run ⟨.counted level callers, rest, d, n + 1⟩ =
      if n < maxOperators then run ⟨.call level callers, rest, d, n + 1⟩
      else .error (.tooManyOperators maxOperators) := by
  split
  · rename_i hroom
    exact run_of_next (if_neg (Nat.not_lt.2 hroom))
  · rename_i hfull
    exact run_of_result (if_pos (Nat.lt_succ_of_le (Nat.not_lt.1 hfull)))

/-- Where no comparison can follow, an operand is joined to the comparison that waits for it. -/
theorem run_comparison
    (h : ∀ c, rest.head? = some (.operator (.compare c)) → p.push x (.compare c) = none) :
    run ⟨.returned .operand x (.within p outer), rest, d, n⟩ =
      run ⟨.returned .comparison (p.comparison x)
        (.conjunction p.conjunct (.disjunction p.disjunct outer)), rest, d, n⟩ := by
  obtain ⟨disjunct, conjunct, _ | ⟨left, c⟩⟩ := p
  · refine run_of_next ?_
    simp only [step, Calls.within, resume]
    split
    · cases h _ rfl
    · rfl
  · exact run_of_next rfl

theorem run_conjunction {left : Option Expression} {caller : Calls .conjunction}
    (h : rest.head? ≠ some (.operator .and)) :
    run ⟨.returned .comparison x (.conjunction left caller), rest, d, n⟩ =
      run ⟨.returned .conjunction (.behind .and left x) caller, rest, d, n⟩ :=
  run_of_next (if_neg h)

theorem run_disjunction {left : Option Expression} (h : rest.head? ≠ some (.operator .or)) :
    run ⟨.returned .conjunction x (.disjunction left outer), rest, d, n⟩ =
      run ⟨.returned .disjunction (.behind .or left x) outer, rest, d, n⟩ :=
  run_of_next (if_neg h)

/-- An operand is joined to all that waits for it where no operator follows that can. -/
theorem run_returned (h : ∀ op, rest.head? = some (.operator op) → p.push x op = none) :
    run ⟨.returned .operand x (.within p outer), rest, d, n⟩ =
      run ⟨.returned .disjunction (p.disjunction x) outer, rest, d, n⟩ := by
  have hand : rest.head? ≠ some (.operator .and) := fun hop => nomatch h .and hop
  have hor : rest.head? ≠ some (.operator .or) := fun hop => nomatch h .or hop
  rw [run_comparison fun c => h (.compare c), run_conjunction hand, run_disjunction hor]
  rfl

/-- An operator that can follow an operand is counted, and then its right side is due. -/
theorem run_push (h : p.push x op = some q) :
    run ⟨.returned .operand x (.within p outer), .operator op :: rest, d, n⟩ =
      if n < maxOperators then run ⟨.call .operand (.within q outer), rest, d, n + 1⟩
      else .error (.tooManyOperators maxOperators) := by
  cases op with
  | compare c =>
    obtain ⟨disjunct, conjunct, _ | ⟨left, c'⟩⟩ := p
    · cases h
      exact (run_of_next rfl).trans run_counted
    · cases h
  | and =>
    cases h
    -- The comparison is complete before `&&` is met, and `||` is met one level further out.
    rw [run_comparison (by simp)]
    refine ((run_of_next rfl).trans run_counted).trans ?_
    rw [run_of_next rfl]
    rfl
  | or =>
    cases h
    rw [run_comparison (by simp), run_conjunction (by simp)]
    refine ((run_of_next rfl).trans run_counted).trans ?_
    rw [(run_of_next rfl).trans (run_of_next rfl)]
    rfl

end Actions

theorem run_ofReading_nil (r : Reading) : (ofReading r []).run = r.finish := by
  obtain ⟨enclosing, p, operand, n⟩ := r
  cases operand with
  | none => exact run_of_result rfl
  | some x =>
    refine (run_returned (by simp)).trans ?_
    cases enclosing with
    | nil => exact run_of_result rfl
    | cons outer enclosing => exact (run_of_next rfl).trans (run_of_result rfl)

theorem run_stepDue {r : Reading} (hoperand : r.operand = none) (t : Token) (rest : List Token) :
    (ofReading r (t :: rest)).run = (r.stepDue t).bind fun s => (ofReading s rest).run := by
  obtain ⟨enclosing, p, operand, n⟩ := r
  obtain rfl : operand = none := hoperand
  cases t with
  | literal value | reference target => exact run_of_next rfl
  | openParen =>
    rw [show (ofReading ⟨enclosing, p, none, n⟩ (.openParen :: rest)).run =
      run ⟨.opened (.group (.within p (.around enclosing))), rest, enclosing.length + 1, n⟩ from
        run_of_next rfl, run_opened, Reading.stepDue, Reading.depth]
    split <;> rfl
  | operator op | closeParen | unknown source => exact run_of_result rfl

/-- A token that has no place behind an operand is met by the outermost function of the innermost
parentheses. -/
theorem run_misplaced {r : Reading} {x : Expression} {t : Token} (hoperand : r.operand = some x)
    (hclose : t = .closeParen → r.enclosing = [])
    (hop : ∀ op, t = .operator op → r.pending.push x op = none) (rest : List Token) :
    (ofReading r (t :: rest)).run = .error (r.misplaced t) := by
  obtain ⟨enclosing, p, operand, n⟩ := r
  obtain rfl : operand = some x := hoperand
  refine (run_returned (by simpa using hop)).trans ?_
  cases enclosing with
  | nil => exact run_of_result rfl
  | cons outer enclosing =>
    -- Its caller wants the parenthesis to close, and this is another token.
    refine (run_of_next rfl).trans (run_of_result ?_)
    cases t with
    | closeParen => cases hclose rfl
    | _ => rfl

theorem run_stepAfter {r : Reading} {x : Expression} (hoperand : r.operand = some x) (t : Token)
    (rest : List Token) :
    (ofReading r (t :: rest)).run = (r.stepAfter x t).bind fun s => (ofReading s rest).run := by
  cases t with
  | literal _ | reference _ | openParen | unknown _ =>
    exact run_misplaced hoperand (by simp) (by simp) rest
  | operator op =>
    cases hpush : r.pending.push x op with
    | none =>
      rw [run_misplaced hoperand (by simp) (by simpa using hpush), Reading.stepAfter, hpush]
      rfl
    | some q =>
      obtain ⟨enclosing, p, operand, n⟩ := r
      obtain rfl : operand = some x := hoperand
      refine (run_push hpush).trans ?_
      simp only [Reading.stepAfter, hpush]
      split <;> rfl
  | closeParen =>
    obtain ⟨_ | ⟨outer, enclosing⟩, p, operand, n⟩ := r
    · exact run_misplaced hoperand (fun _ => rfl) (by simp) rest
    · obtain rfl : operand = some x := hoperand
      exact (run_returned (by simp)).trans ((run_of_next rfl).trans (run_of_next rfl))

/-- The functions give for a list of tokens what a reading gives, from wherever it stands. -/
theorem run_ofReading (r : Reading) (ts : List Token) :
    (ofReading r ts).run = (r.run ts).bind Reading.finish := by
  induction ts generalizing r with
  | nil => exact run_ofReading_nil r
  | cons t ts ih =>
    have hstep : (ofReading r (t :: ts)).run = (r.step t).bind fun s => (ofReading s ts).run := by
      cases hoperand : r.operand with
      | none => rw [run_stepDue hoperand, Reading.step, hoperand]
      | some x => rw [run_stepAfter hoperand, Reading.step, hoperand]
    rw [hstep, Reading.run]
    cases r.step t with
    | error fault => rfl
    | ok s => exact ih s

/-- Reads the expression that a list of tokens writes. A token that is unknown is looked for before
any function is called. -/
def ofTokens? (tokens : List Token) : Except Fault Expression :=
  match tokens.findSome? Token.unknown? with
  | some source => .error (.unknownText source)
  | none => (start tokens).run

/-- The functions read every condition as a reading does, faults included. -/
theorem ofTokens?_eq (tokens : List Token) : ofTokens? tokens = Expression.ofTokens? tokens := by
  have hrun : (start tokens).run = (Reading.start.run tokens).bind Reading.finish :=
    run_call_disjunction.trans (run_ofReading Reading.start tokens)
  rw [ofTokens?, hrun]
  rfl

end Recursion

end FormLetter
