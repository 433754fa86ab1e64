import FormLetter.Condition.Reading

/-!
# The grammar of conditions

Reading a condition token by token accepts exactly what the grammar derives within the two limits,
and the tree that it gives is written with the very tokens that were read.

* `Expression.Derives`: the grammar, with a level for each of its nonterminals.
* `Expression.derives_iff_fits`: a tree is derived at a level if operators of that tightness fit.
* `Reading.run_tokens`: what the grammar derives is read, whatever stands around it.
* `Reading.Sound`: what every state of a reading has in common. `Reading.Sound.step` keeps it.
* `Expression.ofTokens?_eq_ok_iff`: both directions together, and that no list of tokens has two
  trees.
-/

namespace FormLetter

/-! ## The grammar -/

/-- The levels of the grammar, from the loosest to the tightest. -/
inductive Level where
  /-- Conjunctions joined by `||`. -/
  | disjunction
  /-- Comparisons joined by `&&`. -/
  | conjunction
  /-- An operand, or two of them compared. -/
  | comparison
  /-- A literal, a reference or a group. -/
  | operand
  deriving DecidableEq

/-- How tightly the operators of a level bind, with those of the tighter levels. -/
def Level.tightness : Level → Nat
  | .disjunction => 0
  | .conjunction => 1
  | .comparison => 2
  | .operand => 3

namespace Expression

/-- The trees that the grammar derives at a level. `||` and `&&` are joined from the left, and a
comparison takes two operands. -/
inductive Derives : Level → Expression → Prop where
  | literal (value : Literal) : Derives .operand (.literal value)
  | reference (target : Reference) : Derives .operand (.reference target)
  | group {inner : Expression} : Derives .disjunction inner → Derives .operand (.group inner)
  | operand {e : Expression} : Derives .operand e → Derives .comparison e
  | compare (c : Comparison) {left right : Expression} : Derives .operand left →
      Derives .operand right → Derives .comparison (.binary (.compare c) left right)
  | comparison {e : Expression} : Derives .comparison e → Derives .conjunction e
  | and {left right : Expression} : Derives .conjunction left → Derives .comparison right →
      Derives .conjunction (.binary .and left right)
  | conjunction {e : Expression} : Derives .conjunction e → Derives .disjunction e
  | or {left right : Expression} : Derives .disjunction left → Derives .conjunction right →
      Derives .disjunction (.binary .or left right)

/-- What fits at a tightness fits where less is asked for. -/
theorem Fits.mono {s t : Nat} (hst : s ≤ t) {e : Expression} (h : Fits t e) : Fits s e := by
  cases e with
  | binary op left right => exact ⟨Nat.le_trans hst h.1, h.2⟩
  | literal value => trivial
  | reference target => trivial
  | group inner => exact h

/-- An operand may stand at every level. -/
theorem Derives.ofOperand {e : Expression} (h : Derives .operand e) (level : Level) :
    Derives level e := by
  cases level with
  | disjunction => exact .conjunction (.comparison (.operand h))
  | conjunction => exact .comparison (.operand h)
  | comparison => exact .operand h
  | operand => exact h

/-- The grammar derives a tree at a level exactly if the operators fit in there. -/
theorem derives_iff_fits {level : Level} {e : Expression} :
    Derives level e ↔ Fits level.tightness e := by
  constructor
  · intro h
    induction h with
    | literal value => trivial
    | reference target => trivial
    | group _ ih => exact ih
    | operand _ ih => exact ih.mono (by decide)
    | compare c _ _ ihl ihr => exact ⟨by simp [Level.tightness, Operator.tightness], ihl, ihr⟩
    | comparison _ ih => exact ih.mono (by decide)
    | and _ _ ihl ihr => exact ⟨by decide, ihl, ihr⟩
    | conjunction _ ih => exact ih.mono (by decide)
    | or _ _ ihl ihr => exact ⟨by decide, ihl, ihr⟩
  · intro h
    induction e generalizing level with
    | literal value => exact (Derives.literal value).ofOperand level
    | reference target => exact (Derives.reference target).ofOperand level
    | group inner ih =>
      have hinner : Derives .disjunction inner := ih h
      exact hinner.group.ofOperand level
    | binary op left right ihl ihr =>
      obtain ⟨hle, hl, hr⟩ := h
      cases op with
      | or =>
        have hleft : Derives .disjunction left := ihl hl
        have hright : Derives .conjunction right := ihr hr
        have hor := hleft.or hright
        cases level with
        | disjunction => exact hor
        | _ => simp [Level.tightness, Operator.tightness] at hle
      | and =>
        have hleft : Derives .conjunction left := ihl hl
        have hright : Derives .comparison right := ihr hr
        have hand := hleft.and hright
        cases level with
        | disjunction => exact .conjunction hand
        | conjunction => exact hand
        | _ => simp [Level.tightness, Operator.tightness] at hle
      | compare c =>
        have hleft : Derives .operand left := ihl hl
        have hright : Derives .operand right := ihr hr
        have hcompare := Derives.compare c hleft hright
        cases level with
        | disjunction => exact .conjunction (.comparison hcompare)
        | conjunction => exact .comparison hcompare
        | comparison => exact hcompare
        | operand => simp [Level.tightness, Operator.tightness] at hle

end Expression

/-- Whether a token is an operator. -/
def Token.isOperator : Token → Bool
  | .operator _ => true
  | _ => false

/-- The operators of a tree are those among its tokens. -/
theorem Expression.countP_isOperator_tokens (e : Expression) :
    e.tokens.countP Token.isOperator = e.operators := by
  induction e with
  | binary op left right ihl ihr =>
    rw [tokens, List.countP_append, List.countP_cons_of_pos rfl, ihl, ihr, operators]
    omega
  | literal value => rfl
  | reference target => rfl
  | group inner ih =>
    rw [tokens, List.cons_append, List.countP_cons_of_neg (by decide), List.countP_append, ih]
    rfl

/-- No token of a tree is unknown. -/
theorem Expression.findSome?_unknown_tokens (e : Expression) :
    e.tokens.findSome? Token.unknown? = none := by
  induction e with
  | binary op left right ihl ihr =>
    simp only [tokens, List.findSome?_append, List.findSome?_cons, ihl, ihr, Token.unknown?,
      Option.none_or]
  | literal value => rfl
  | reference target => rfl
  | group inner ih =>
    simp only [tokens, List.cons_append, List.findSome?_append, List.findSome?_cons, ih,
      Token.unknown?, Option.none_or, List.findSome?_nil]

/-! ## What the grammar derives is read -/

namespace Level

/-- Nothing waits at a level or at a tighter one. -/
def Open : Level → Pending → Prop
  | .disjunction, p => p = .none
  | .conjunction, p => p.conjunct = none ∧ p.compared = none
  | .comparison, p => p.compared = none
  | .operand, _ => True

/-- The same waits at the levels looser than the given one. -/
def Agree : Level → Pending → Pending → Prop
  | .disjunction, _, _ => True
  | .conjunction, p, q => q.disjunct = p.disjunct
  | .comparison, p, q => q.disjunct = p.disjunct ∧ q.conjunct = p.conjunct
  | .operand, p, q => q = p

/-- Joins an operand to what waits for it at a level and at the tighter ones. -/
def join : Level → Pending → Expression → Expression
  | .disjunction => Pending.disjunction
  | .conjunction => Pending.conjunction
  | .comparison => Pending.comparison
  | .operand => fun _ operand => operand

end Level

namespace Reading

open Expression (Derives)

/-- Reading goes through a tree of some level: in any state in which nothing waits at that level,
and with room for its groups and operators, its tokens are read, and what waits then gives the
tree. -/
def Reads (level : Level) (e : Expression) : Prop :=
  ∀ (enclosing : List Pending) (p : Pending) (n : Nat), level.Open p →
    enclosing.length + e.depth ≤ maxNesting → n + e.operators ≤ maxOperators →
    ∃ q x, run ⟨enclosing, p, none, n⟩ e.tokens = .ok ⟨enclosing, q, some x, n + e.operators⟩ ∧
      level.Agree p q ∧ level.join q x = e

/-- The room for a tree with an operator is room for both sides, the right one behind the left. -/
theorem room_binary {op : Operator} {left right : Expression} {opened n : Nat}
    (hdepth : opened + (Expression.binary op left right).depth ≤ maxNesting)
    (hops : n + (Expression.binary op left right).operators ≤ maxOperators) :
    (opened + left.depth ≤ maxNesting ∧ n + left.operators ≤ maxOperators) ∧
      opened + right.depth ≤ maxNesting ∧
        n + left.operators + 1 + right.operators ≤ maxOperators := by
  rw [Expression.depth] at hdepth
  rw [Expression.operators] at hops
  omega

/-- Two trees are read with an operator between them if the left one may wait for the right. -/
theorem run_binary {enclosing : List Pending} {p q q' r : Pending} {op : Operator}
    {left right x y : Expression} {n : Nat}
    (hops : n + (Expression.binary op left right).operators ≤ maxOperators)
    (hl : run ⟨enclosing, p, none, n⟩ left.tokens =
      .ok ⟨enclosing, q, some x, n + left.operators⟩)
    (hpush : q.push x op = some q')
    (hr : run ⟨enclosing, q', none, n + left.operators + 1⟩ right.tokens =
      .ok ⟨enclosing, r, some y, n + left.operators + 1 + right.operators⟩) :
    run ⟨enclosing, p, none, n⟩ (Expression.binary op left right).tokens =
      .ok ⟨enclosing, r, some y, n + (Expression.binary op left right).operators⟩ := by
  rw [Expression.operators] at hops ⊢
  have hstep : step ⟨enclosing, q, some x, n + left.operators⟩ (.operator op) =
      .ok ⟨enclosing, q', none, n + left.operators + 1⟩ := by
    have hroom : n + left.operators < maxOperators := by omega
    simp only [step, stepAfter.eq_def, hpush, if_pos hroom]
  have hsum : n + (left.operators + 1 + right.operators) =
      n + left.operators + 1 + right.operators := by omega
  rw [Expression.tokens, run_append, hl]
  show (step _ _).bind _ = _
  rw [hstep, hsum]
  exact hr

theorem run_openParen {enclosing : List Pending} (h : enclosing.length < maxNesting) (p : Pending)
    (n : Nat) (ts : List Token) :
    run ⟨enclosing, p, none, n⟩ (.openParen :: ts) = run ⟨p :: enclosing, .none, none, n⟩ ts := by
  rw [run, step, stepDue, depth, if_pos h]
  rfl

/-- What the grammar derives is read, whatever stands around it. -/
theorem run_tokens {level : Level} {e : Expression} (h : Derives level e) : Reads level e := by
  induction h with
  | literal value =>
    intro enclosing p n _ _ _
    exact ⟨p, .literal value, rfl, rfl, rfl⟩
  | reference target =>
    intro enclosing p n _ _ _
    exact ⟨p, .reference target, rfl, rfl, rfl⟩
  | @group inner _ ih =>
    intro enclosing p n _ hdepth hops
    rw [Expression.depth] at hdepth
    rw [Expression.operators] at hops ⊢
    obtain ⟨q, x, hrun, -, hx⟩ := ih (p :: enclosing) .none n rfl
      (by rw [List.length_cons]; omega) hops
    refine ⟨p, .group inner, ?_, rfl, rfl⟩
    rw [Expression.tokens, List.cons_append, run_openParen (by omega), run_append, hrun, ← hx]
    rfl
  | @operand e _ ih =>
    intro enclosing p n hopen hdepth hops
    obtain ⟨q, x, hrun, hq, hx⟩ := ih enclosing p n trivial hdepth hops
    obtain rfl : q = p := hq
    obtain rfl : x = e := hx
    refine ⟨q, x, hrun, ⟨rfl, rfl⟩, ?_⟩
    rw [Level.join, Pending.comparison, show q.compared = none from hopen]
  | @compare c left right _ _ ihl ihr =>
    intro enclosing p n hopen hdepth hops
    obtain ⟨⟨hdl, hnl⟩, hdr, hnr⟩ := room_binary hdepth hops
    obtain ⟨q, x, hl, hq, hx⟩ := ihl enclosing p n trivial hdl hnl
    obtain rfl : q = p := hq
    have hpush : q.push x (.compare c) = some ⟨q.disjunct, q.conjunct, some (x, c)⟩ := by
      rw [Pending.push, show q.compared = none from hopen]
    obtain ⟨r, y, hr, hr', hy⟩ := ihr enclosing ⟨q.disjunct, q.conjunct, some (x, c)⟩
      (n + left.operators + 1) trivial hdr hnr
    obtain rfl : r = _ := hr'
    obtain rfl : x = left := hx
    obtain rfl : y = right := hy
    exact ⟨_, y, run_binary hops hl hpush hr, ⟨rfl, rfl⟩, rfl⟩
  | @comparison e _ ih =>
    intro enclosing p n hopen hdepth hops
    obtain ⟨q, x, hrun, hq, hx⟩ := ih enclosing p n hopen.2 hdepth hops
    refine ⟨q, x, hrun, hq.1, ?_⟩
    rw [Level.join, Pending.conjunction, show q.conjunct = none from hq.2.trans hopen.1]
    exact hx
  | @and left right _ _ ihl ihr =>
    intro enclosing p n hopen hdepth hops
    obtain ⟨⟨hdl, hnl⟩, hdr, hnr⟩ := room_binary hdepth hops
    obtain ⟨q, x, hl, hq, hx⟩ := ihl enclosing p n hopen hdl hnl
    have hpush : q.push x .and = some ⟨q.disjunct, some left, none⟩ := by
      rw [Pending.push, ← hx]
      rfl
    obtain ⟨r, y, hr, hr', hy⟩ := ihr enclosing ⟨q.disjunct, some left, none⟩
      (n + left.operators + 1) rfl hdr hnr
    refine ⟨r, y, run_binary hops hl hpush hr, hr'.1.trans hq, ?_⟩
    rw [Level.join, Pending.conjunction, hr'.2]
    exact congrArg (Expression.binary .and left) hy
  | @conjunction e _ ih =>
    intro enclosing p n hopen hdepth hops
    obtain rfl : p = .none := hopen
    obtain ⟨q, x, hrun, hq, hx⟩ := ih enclosing .none n ⟨rfl, rfl⟩ hdepth hops
    refine ⟨q, x, hrun, trivial, ?_⟩
    rw [Level.join, Pending.disjunction, show q.disjunct = none from hq]
    exact hx
  | @or left right _ _ ihl ihr =>
    intro enclosing p n hopen hdepth hops
    obtain ⟨⟨hdl, hnl⟩, hdr, hnr⟩ := room_binary hdepth hops
    obtain ⟨q, x, hl, -, hx⟩ := ihl enclosing p n hopen hdl hnl
    have hpush : q.push x .or = some ⟨some left, none, none⟩ := by
      rw [Pending.push, ← hx]
      rfl
    obtain ⟨r, y, hr, hr', hy⟩ := ihr enclosing ⟨some left, none, none⟩
      (n + left.operators + 1) ⟨rfl, rfl⟩ hdr hnr
    refine ⟨r, y, run_binary hops hl hpush hr, trivial, ?_⟩
    rw [Level.join, Pending.disjunction, show r.disjunct = some left from hr']
    exact congrArg (Expression.binary .or left) hy

/-! ## What is read was derived -/

/-- A tree of a level with no more groups in one another than a bound. -/
def DerivesWithin (level : Level) (room : Nat) (e : Expression) : Prop :=
  Derives level e ∧ e.depth ≤ room

/-- Everything that waits was derived, with groups within a bound. -/
structure Waiting (room : Nat) (p : Pending) : Prop where
  disjunct : ∀ e, p.disjunct = some e → DerivesWithin .disjunction room e
  conjunct : ∀ e, p.conjunct = some e → DerivesWithin .conjunction room e
  compared : ∀ e c, p.compared = some (e, c) → DerivesWithin .operand room e

namespace Waiting

variable {room : Nat} {p q : Pending} {x : Expression}

theorem none (room : Nat) : Waiting room .none := by
  constructor <;> simp [Pending.none]

theorem comparison (hp : Waiting room p) (hx : DerivesWithin .operand room x) :
    DerivesWithin .comparison room (p.comparison x) := by
  rw [Pending.comparison]
  split
  · exact ⟨.operand hx.1, hx.2⟩
  · rename_i left c h
    obtain ⟨hl, hdepth⟩ := hp.compared left c h
    exact ⟨.compare c hl hx.1, Nat.max_le.2 ⟨hdepth, hx.2⟩⟩

theorem conjunction (hp : Waiting room p) (hx : DerivesWithin .operand room x) :
    DerivesWithin .conjunction room (p.conjunction x) := by
  have hright := hp.comparison hx
  rw [Pending.conjunction]
  split
  · exact ⟨.comparison hright.1, hright.2⟩
  · rename_i left h
    obtain ⟨hl, hdepth⟩ := hp.conjunct left h
    exact ⟨.and hl hright.1, Nat.max_le.2 ⟨hdepth, hright.2⟩⟩

theorem disjunction (hp : Waiting room p) (hx : DerivesWithin .operand room x) :
    DerivesWithin .disjunction room (p.disjunction x) := by
  have hright := hp.conjunction hx
  rw [Pending.disjunction]
  split
  · exact ⟨.conjunction hright.1, hright.2⟩
  · rename_i left h
    obtain ⟨hl, hdepth⟩ := hp.disjunct left h
    exact ⟨.or hl hright.1, Nat.max_le.2 ⟨hdepth, hright.2⟩⟩

/-- What waits after an operator was derived if what waited before it and its operand were. -/
theorem push (hp : Waiting room p) (hx : DerivesWithin .operand room x) {op : Operator}
    (h : p.push x op = some q) : Waiting room q := by
  cases op with
  | or =>
    cases h
    exact ⟨fun e he => Option.some.inj he ▸ hp.disjunction hx, nofun, nofun⟩
  | and =>
    cases h
    exact ⟨hp.disjunct, fun e he => Option.some.inj he ▸ hp.conjunction hx, nofun⟩
  | compare c =>
    rw [Pending.push] at h
    split at h
    · cases h
      refine ⟨hp.disjunct, hp.conjunct, fun e c' he => ?_⟩
      cases he
      exact hx
    · cases h

end Waiting

/-- What waits outside of each open parenthesis was derived, with groups within what the
parentheses around it leave of the limit. -/
def Surrounding : List Pending → Prop
  | [] => True
  | p :: outer => Waiting (maxNesting - outer.length) p ∧ Surrounding outer

/-- What every state of a reading has in common: its parts were derived and keep to the limits, and
the operators have been counted. -/
structure Sound (r : Reading) : Prop where
  enclosing_le : r.enclosing.length ≤ maxNesting
  surrounding : Surrounding r.enclosing
  pending : Waiting (maxNesting - r.enclosing.length) r.pending
  operand : ∀ e, r.operand = some e →
    DerivesWithin .operand (maxNesting - r.enclosing.length) e
  operators_eq : r.operators = r.tokens.countP Token.isOperator
  operators_le : r.operators ≤ maxOperators

namespace Sound

variable {r s : Reading} {t : Token}

theorem start : Sound start where
  enclosing_le := Nat.zero_le _
  surrounding := trivial
  pending := .none _
  operand := nofun
  operators_eq := rfl
  operators_le := Nat.zero_le _

/-- A token that has been read counts as an operator if it is one. -/
theorem countP_step (h : r.step t = .ok s) :
    s.tokens.countP Token.isOperator =
      r.tokens.countP Token.isOperator + if t.isOperator then 1 else 0 := by
  rw [tokens_step h, List.countP_append, List.countP_singleton]

theorem stepDue (hr : Sound r) (hnone : r.operand = .none) (h : r.stepDue t = .ok s) :
    Sound s := by
  have hcount := countP_step (show r.step t = .ok s by rw [step, hnone]; exact h)
  rw [Reading.stepDue.eq_def] at h
  split at h
  · cases h
    exact ⟨hr.enclosing_le, hr.surrounding, hr.pending,
      fun e he => Option.some.inj he ▸ ⟨.literal _, Nat.zero_le _⟩,
      hr.operators_eq.trans hcount.symm, hr.operators_le⟩
  · cases h
    exact ⟨hr.enclosing_le, hr.surrounding, hr.pending,
      fun e he => Option.some.inj he ▸ ⟨.reference _, Nat.zero_le _⟩,
      hr.operators_eq.trans hcount.symm, hr.operators_le⟩
  · split at h
    · rename_i hroom
      cases h
      exact ⟨hroom, ⟨hr.pending, hr.surrounding⟩, .none _, nofun,
        hr.operators_eq.trans hcount.symm, hr.operators_le⟩
    · cases h
  · cases h

theorem stepAfter (hr : Sound r) {operand : Expression} (hsome : r.operand = some operand)
    (h : r.stepAfter operand t = .ok s) : Sound s := by
  have hcount := countP_step (show r.step t = .ok s by rw [step, hsome]; exact h)
  have hx := hr.operand operand hsome
  rw [Reading.stepAfter.eq_def] at h
  split at h
  · split at h
    · cases h
    · rename_i hpush
      split at h
      · rename_i hroom
        cases h
        refine ⟨hr.enclosing_le, hr.surrounding, hr.pending.push hx hpush, nofun, ?_, hroom⟩
        rw [hcount, ← hr.operators_eq]
        rfl
      · cases h
  · split at h
    · cases h
    · rename_i outer rest henclosing
      cases h
      have hle := hr.enclosing_le
      have hsurrounding := hr.surrounding
      have hinner := hr.pending.disjunction hx
      rw [henclosing] at hle hsurrounding hinner
      rw [List.length_cons] at hle hinner
      refine ⟨Nat.le_of_succ_le hle, hsurrounding.2, hsurrounding.1, fun e he => ?_,
        hr.operators_eq.trans hcount.symm, hr.operators_le⟩
      have hdepth := hinner.2
      refine Option.some.inj he ▸ ⟨.group hinner.1, ?_⟩
      -- Closing a parenthesis gives back the level that it had taken.
      show (r.pending.disjunction operand).depth + 1 ≤ maxNesting - rest.length
      omega
  · cases h

/-- Reading a token keeps a state sound. -/
theorem step (hr : Sound r) (h : r.step t = .ok s) : Sound s := by
  cases hop : r.operand with
  | none => exact hr.stepDue hop (by rwa [Reading.step, hop] at h)
  | some operand => exact hr.stepAfter hop (by rwa [Reading.step, hop] at h)

theorem run (hr : Sound r) {ts : List Token} (h : r.run ts = .ok s) : Sound s := by
  induction ts generalizing r with
  | nil =>
    cases h
    exact hr
  | cons t ts ih =>
    rw [Reading.run] at h
    cases ht : r.step t with
    | error fault => simp [ht, Except.bind] at h
    | ok q =>
      rw [ht] at h
      exact ih (hr.step ht) h

end Sound

end Reading

/-! ## Whole conditions -/

namespace Expression

/-- A list of tokens writes a tree: they are the tokens of the tree, from left to right, and the
grammar derives it with at most 64 groups in one another and at most 256 operators. -/
structure WrittenBy (tokens : List Token) (e : Expression) : Prop where
  tokens_eq : e.tokens = tokens
  derives : Derives .disjunction e
  depth_le : e.depth ≤ 64
  operators_le : e.operators ≤ 256

theorem writtenBy_of_ofTokens? {ts : List Token} {e : Expression} (h : ofTokens? ts = .ok e) :
    WrittenBy ts e := by
  rw [ofTokens?] at h
  split at h
  · cases h
  · cases hrun : Reading.start.run ts with
    | error fault => simp [hrun, Except.bind] at h
    | ok r =>
      have hsound := Reading.Sound.start.run hrun
      have htokens := Reading.tokens_run hrun
      rw [hrun] at h
      obtain ⟨enclosing, p, operand, n⟩ := r
      cases operand with
      | none => cases h
      | some x =>
        cases enclosing with
        | cons outer rest => cases h
        | nil =>
          cases h
          have hx := hsound.pending.disjunction (hsound.operand x rfl)
          have htree : (p.disjunction x).tokens = ts := by
            rw [Pending.tokens_disjunction]
            exact htokens
          refine ⟨htree, hx.1, hx.2, ?_⟩
          have hcount := hsound.operators_eq
          rw [htokens] at hcount
          rw [← countP_isOperator_tokens, htree]
          exact hcount ▸ hsound.operators_le

theorem ofTokens?_of_writtenBy {ts : List Token} {e : Expression} (h : WrittenBy ts e) :
    ofTokens? ts = .ok e := by
  obtain ⟨rfl, hderives, hdepth, hops⟩ := h
  have hroom : ([] : List Pending).length + e.depth ≤ maxNesting := by
    rw [List.length_nil, Nat.zero_add]
    exact hdepth
  obtain ⟨q, x, hrun, -, hx⟩ := Reading.run_tokens hderives [] .none 0 rfl hroom
    ((Nat.zero_add _).symm ▸ hops)
  rw [ofTokens?, findSome?_unknown_tokens]
  show (Reading.start.run e.tokens).bind Reading.finish = _
  rw [Reading.start, hrun, ← hx]
  rfl

/-- A list of tokens is read as a tree exactly if it writes that tree, and it writes no other. -/
theorem ofTokens?_eq_ok_iff (ts : List Token) :
    (∀ e, ofTokens? ts = .ok e ↔ WrittenBy ts e) ∧
      ∀ e e', WrittenBy ts e → WrittenBy ts e' → e = e' := by
  constructor
  · intro e
    exact ⟨writtenBy_of_ofTokens?, ofTokens?_of_writtenBy⟩
  · intro e e' h h'
    have hread := ofTokens?_of_writtenBy h
    rw [ofTokens?_of_writtenBy h'] at hread
    exact (Except.ok.inj hread).symm

/-- `&&` binds tighter than `||`. -/
example (a b c : Literal) :
    ofTokens? [.literal a, .operator .or, .literal b, .operator .and, .literal c] =
      .ok (.binary .or (.literal a) (.binary .and (.literal b) (.literal c))) := rfl

end Expression

end FormLetter
