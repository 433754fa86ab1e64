import FormLetter.Condition.Expression
import FormLetter.Condition.Fault
import FormLetter.Condition.Lexeme

/-!
# Reading conditions

A condition is read token by token, from left to right, and the first token that has no place ends
the reading. Between two tokens the state of the reading is what stands to the left: for each open
parenthesis the operators that still wait for their right operand, with their left operands, and
the operand read last, unless one is due.

* `Reading.run_append`: tokens can be read in portions.
* `Reading.tokens_run`: a state gives back the tokens that it comes from, so that nothing is
  skipped and nothing is read twice.
* `Expression.ofTokens?` and `Expression.ofText?` read a whole condition. A token that is unknown
  anywhere in it comes before every other fault.
-/

namespace FormLetter

/-! ## States -/

/-- What waits for a right operand within one pair of parentheses: the left side of `||`, the left
side of `&&` behind it, and the left side of a comparison behind that. -/
structure Pending where
  disjunct : Option Expression
  conjunct : Option Expression
  compared : Option (Expression × Comparison)
  deriving DecidableEq

namespace Pending

/-- Nothing waits. -/
def none : Pending := ⟨.none, .none, .none⟩

/-- Joins an operand to the comparison that waits for it, if one does. -/
def comparison (p : Pending) (operand : Expression) : Expression :=
  match p.compared with
  | .none => operand
  | some (left, c) => .binary (.compare c) left operand

/-- Joins an operand to what waits for it up to `&&`. -/
def conjunction (p : Pending) (operand : Expression) : Expression :=
  match p.conjunct with
  | .none => p.comparison operand
  | some left => .binary .and left (p.comparison operand)

/-- Joins an operand to everything that waits for it. -/
def disjunction (p : Pending) (operand : Expression) : Expression :=
  match p.disjunct with
  | .none => p.conjunction operand
  | some left => .binary .or left (p.conjunction operand)

/-- What waits after an operand and an operator behind it. There is none for a comparison behind a
comparison. -/
def push (p : Pending) (operand : Expression) : Operator → Option Pending
  | .or => some ⟨some (p.disjunction operand), .none, .none⟩
  | .and => some ⟨p.disjunct, some (p.conjunction operand), .none⟩
  | .compare c =>
    match p.compared with
    | .none => some ⟨p.disjunct, p.conjunct, some (operand, c)⟩
    | some _ => .none

/-- The tokens that wait. -/
def tokens (p : Pending) : List Token :=
  (match p.disjunct with
    | .none => []
    | some left => left.tokens ++ [.operator .or]) ++
  (match p.conjunct with
    | .none => []
    | some left => left.tokens ++ [.operator .and]) ++
  (match p.compared with
    | .none => []
    | some (left, c) => left.tokens ++ [.operator (.compare c)])

/-- Joining an operand to what waits for it writes the one behind the other. -/
theorem tokens_disjunction (p : Pending) (operand : Expression) :
    (p.disjunction operand).tokens = p.tokens ++ operand.tokens := by
  rcases p with ⟨_ | d, _ | c, _ | ⟨left, m⟩⟩ <;>
    simp [disjunction, conjunction, comparison, tokens, Expression.tokens]

theorem tokens_push {p q : Pending} {operand : Expression} {op : Operator}
    (h : p.push operand op = some q) :
    q.tokens = p.tokens ++ operand.tokens ++ [.operator op] := by
  rcases op with _ | _ | c
  · cases h
    rcases p with ⟨_ | d, _ | c, _ | ⟨left, m⟩⟩ <;>
      simp [conjunction, comparison, tokens, Expression.tokens]
  · cases h
    have := tokens_disjunction p operand
    simp [tokens] at this ⊢
    simp [this]
  · rcases p with ⟨d, c', _ | ⟨left, m⟩⟩
    · cases h
      simp [tokens]
    · cases h

end Pending

/-- The state of a reading between two tokens. -/
structure Reading where
  /-- What waits outside each open parenthesis, the innermost one first. -/
  enclosing : List Pending
  /-- What waits within the innermost open parenthesis. -/
  pending : Pending
  /-- The operand that has just been read. There is none where one is due. -/
  operand : Option Expression
  /-- How many operators have been read. -/
  operators : Nat
  deriving DecidableEq

namespace Reading

/-- Nothing has been read. -/
def start : Reading := ⟨[], .none, .none, 0⟩

/-- How many parentheses are open. -/
def depth (r : Reading) : Nat := r.enclosing.length

/-- The fault of a token that cannot follow an operand: outside of all parentheses the condition
is complete without it. -/
def misplaced (r : Reading) (token : Token) : Fault :=
  if r.enclosing.isEmpty then .trailing token.description else .unexpected token.description

/-- Reads a token where an operand is due. -/
def stepDue (r : Reading) : Token → Except Fault Reading
  | .literal value => .ok { r with operand := some (.literal value) }
  | .reference target => .ok { r with operand := some (.reference target) }
  | .openParen =>
    if r.depth < maxNesting then .ok ⟨r.pending :: r.enclosing, .none, .none, r.operators⟩
    else .error (.nestingTooDeep maxNesting)
  | token => .error (.unexpected token.description)

/-- Reads a token behind an operand. -/
def stepAfter (r : Reading) (operand : Expression) : Token → Except Fault Reading
  | .operator op =>
    match r.pending.push operand op with
    | .none => .error (r.misplaced (.operator op))
    | some pending =>
      if r.operators < maxOperators then .ok ⟨r.enclosing, pending, .none, r.operators + 1⟩
      else .error (.tooManyOperators maxOperators)
  | .closeParen =>
    match r.enclosing with
    | [] => .error (r.misplaced .closeParen)
    | outer :: rest => .ok ⟨rest, outer, some (.group (r.pending.disjunction operand)), r.operators⟩
  | token => .error (r.misplaced token)

/-- Reads one token. -/
def step (r : Reading) (token : Token) : Except Fault Reading :=
  match r.operand with
  | .none => r.stepDue token
  | some operand => r.stepAfter operand token

/-- Reads tokens one after the other, up to the first that has no place. -/
def run (r : Reading) : List Token → Except Fault Reading
  | [] => .ok r
  | token :: rest => (r.step token).bind fun r => r.run rest

/-- The expression that has been read, if the text ends here. -/
def finish (r : Reading) : Except Fault Expression :=
  match r.operand, r.enclosing with
  | some operand, [] => .ok (r.pending.disjunction operand)
  | _, _ => .error .unexpectedEnd

/-- The tokens that have been read. -/
def tokens (r : Reading) : List Token :=
  r.enclosing.foldr (fun outer inside => inside ++ outer.tokens ++ [.openParen]) [] ++
    r.pending.tokens ++
    match r.operand with
    | .none => []
    | some operand => operand.tokens

theorem run_append (r : Reading) (ts us : List Token) :
    r.run (ts ++ us) = (r.run ts).bind fun r => r.run us := by
  induction ts generalizing r with
  | nil => rfl
  | cons t ts ih =>
    rw [List.cons_append, run, run]
    cases r.step t with
    | error fault => rfl
    | ok r => exact ih r

theorem tokens_stepDue {r s : Reading} {t : Token} (hr : r.operand = none)
    (h : r.stepDue t = .ok s) : s.tokens = r.tokens ++ [t] := by
  unfold stepDue at h
  split at h
  · cases h
    simp [tokens, hr, Expression.tokens]
  · cases h
    simp [tokens, hr, Expression.tokens]
  · split at h <;> cases h
    simp [tokens, hr, Pending.none, Pending.tokens]
  · cases h

theorem tokens_stepAfter {r s : Reading} {operand : Expression} {t : Token}
    (hr : r.operand = some operand) (h : r.stepAfter operand t = .ok s) :
    s.tokens = r.tokens ++ [t] := by
  unfold stepAfter at h
  split at h
  · split at h
    · cases h
    · rename_i hp
      split at h <;> cases h
      simp [tokens, hr, Pending.tokens_push hp]
  · split at h
    · cases h
    · rename_i henc
      cases h
      simp [tokens, hr, henc, Expression.tokens, Pending.tokens_disjunction]
  · cases h

/-- A token that has been read is the last one of the state. -/
theorem tokens_step {r s : Reading} {t : Token} (h : r.step t = .ok s) :
    s.tokens = r.tokens ++ [t] := by
  unfold step at h
  split at h
  · exact tokens_stepDue ‹_› h
  · exact tokens_stepAfter ‹_› h

/-- Nothing is skipped and nothing is read twice. -/
theorem tokens_run {r s : Reading} {ts : List Token} (h : r.run ts = .ok s) :
    s.tokens = r.tokens ++ ts := by
  induction ts generalizing r with
  | nil =>
    cases h
    simp
  | cons t ts ih =>
    rw [run] at h
    cases hr : r.step t with
    | error fault => simp [hr, Except.bind] at h
    | ok q =>
      rw [hr] at h
      rw [ih h, tokens_step hr]
      simp

end Reading

/-! ## Whole conditions -/

namespace Expression

/-- Reads the expression that a list of tokens writes. -/
def ofTokens? (tokens : List Token) : Except Fault Expression :=
  match tokens.findSome? Token.unknown? with
  | some source => .error (.unknownText source)
  | none => (Reading.start.run tokens).bind Reading.finish

/-- Reads a condition. -/
def ofText? (s : String) : Except Fault Expression := ofTokens? (Token.ofText s)

end Expression

end FormLetter
