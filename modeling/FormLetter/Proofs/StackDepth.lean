import FormLetter.Condition.Evaluation
import FormLetter.Proofs.Recursion

/-!
# How deep the calls go

However long a condition is, and whether it can be read or not, reading it takes no more than a
fixed number of calls within one another, and so does finding out whether it holds. The first rests
on the counters: they are right at any time of the reading, and a call for what stands inside a
parenthesis is made only after the counter has been compared with its limit.

* `Recursion.Calls.waiting_eq`: each open parenthesis accounts for one waiting call of every
  function.
* `Recursion.Counted`: what the two counters say. `Recursion.Counted.step` keeps it.
* `Expression.valueWithin_of_height_le`: as many calls as a tree is high give its value.
* `Recursion.stack_bounded`: the bounds for whole texts.
-/

namespace FormLetter

namespace Recursion

/-! ## Calls within one another -/

/-- How many calls of the function of a level are among those that wait. -/
def Calls.waiting (level : Level) : {l : Level} → Calls l → Nat
  | _, .whole => 0
  | _, .group caller => caller.waiting level + if level = .operand then 1 else 0
  | _, .disjunction _ caller => caller.waiting level + if level = .disjunction then 1 else 0
  | _, .conjunction _ caller => caller.waiting level + if level = .conjunction then 1 else 0
  | _, .comparison _ caller => caller.waiting level + if level = .comparison then 1 else 0

/-- Each open parenthesis accounts for one waiting call of every function. Within the innermost
parentheses the functions of the looser levels wait besides. -/
theorem Calls.waiting_eq (level : Level) {l : Level} (callers : Calls l) :
    callers.waiting level =
      callers.waiting .operand + if level.tightness < l.tightness then 1 else 0 := by
  induction callers with
  | whole => rfl
  | group caller ih | disjunction left caller ih | conjunction left caller ih
  | comparison left caller ih =>
    rw [waiting, waiting, ih]
    cases level <;> simp [Level.tightness]

namespace Point

/-- How many calls of the function of a level wait. -/
def waiting (level : Level) : Point → Nat
  | .call _ callers => callers.waiting level
  | .returned _ _ callers => callers.waiting level
  | .opened callers => callers.waiting level
  | .counted _ callers => callers.waiting level
  | .closing _ callers => callers.waiting level

/-- How many parentheses are open with their inside being read: for each of them a call of the
function for operands waits. -/
def nesting (p : Point) : Nat := p.waiting .operand

/-- How many calls of the function of a level are under way: those that wait, and the one that
does not. -/
def active (level : Level) : Point → Nat
  | .call l callers => callers.waiting level + if level = l then 1 else 0
  | .closing _ callers => callers.waiting level + if level = .operand then 1 else 0
  | p => p.waiting level

/-- How many parentheses are open with their inside already read. -/
def toClose : Point → Nat
  | .closing _ _ => 1
  | _ => 0

/-- How many levels have been counted and not yet compared with their limit. -/
def newLevels : Point → Nat
  | .opened _ => 1
  | _ => 0

/-- How many operators have been counted and not yet compared with their limit. -/
def newOperators : Point → Nat
  | .counted _ _ => 1
  | _ => 0

theorem newLevels_le (p : Point) : p.newLevels ≤ 1 := by
  cases p <;> simp [newLevels]

theorem newOperators_le (p : Point) : p.newOperators ≤ 1 := by
  cases p <;> simp [newOperators]

/-- No function has more calls under way than parentheses are open, but for one. A parenthesis that
has just been counted does not have its calls yet. -/
theorem active_add_newLevels_le (level : Level) (p : Point) :
    p.active level + p.newLevels ≤ p.nesting + 1 := by
  cases p with
  | call l callers =>
    show callers.waiting level + _ ≤ callers.waiting .operand + 1
    rw [callers.waiting_eq level]
    cases level <;> cases l <;> simp [Level.tightness]
  | returned l e callers | counted l callers =>
    show callers.waiting level + 0 ≤ callers.waiting .operand + 1
    rw [callers.waiting_eq level]
    split <;> omega
  | opened callers =>
    show callers.waiting level + 1 ≤ callers.waiting .operand + 1
    rw [callers.waiting_eq level]
    cases level <;> simp [Level.tightness]
  | closing inner callers =>
    show callers.waiting level + _ ≤ callers.waiting .operand + 1
    rw [callers.waiting_eq level]
    cases level <;> simp [Level.tightness]

end Point

/-! ## What the counters say -/

/-- What the counters of a state say about the tokens of the text that have been read, and that
both limits are kept but for what has just been counted. -/
structure Counted (ts : List Token) (r : Recursion) : Prop where
  depth_eq : r.depth = r.point.nesting
  exists_read : ∃ read, read ++ r.rest = ts ∧
    read.count .openParen = read.count .closeParen + (r.depth + r.point.toClose) ∧
      read.countP Token.isOperator = r.operators
  depth_le : r.depth ≤ maxNesting + r.point.newLevels
  operators_le : r.operators ≤ maxOperators + r.point.newOperators

namespace Counted

variable {ts rest : List Token} {t : Token} {p q : Point} {d d' m n : Nat}

/-- Without a token nothing else is counted. -/
theorem skip (h : Counted ts ⟨p, rest, d, n⟩) (hdepth : d' = q.nesting)
    (hclose : d' + q.toClose = d + p.toClose) (hle : d' ≤ maxNesting + q.newLevels)
    (hops : n ≤ maxOperators + q.newOperators) : Counted ts ⟨q, rest, d', n⟩ := by
  obtain ⟨read, hread, hcount, hoperators⟩ := h.exists_read
  exact ⟨hdepth, ⟨read, hread, hcount.trans (congrArg _ hclose.symm), hoperators⟩, hle, hops⟩

/-- A token is counted if it is a parenthesis or an operator. -/
theorem take (h : Counted ts ⟨p, t :: rest, d, m⟩) (hdepth : d' = q.nesting)
    (hclose : d' + q.toClose + [t].count .closeParen = d + p.toClose + [t].count .openParen)
    (hle : d' ≤ maxNesting + q.newLevels) (hoperator : n = m + [t].countP Token.isOperator)
    (hops : n ≤ maxOperators + q.newOperators) : Counted ts ⟨q, rest, d', n⟩ := by
  obtain ⟨read, hread, hcount, hoperators⟩ := h.exists_read
  refine ⟨hdepth, ⟨read ++ [t], ?_, ?_, ?_⟩, hle, hops⟩
  · rw [← hread, List.append_assoc]
    rfl
  · simp only [List.count_append, hcount]
    omega
  · rw [List.countP_append, hoperators, hoperator]

/-- An operator that comes next is counted, and nothing else is. -/
theorem readOperator {l l' l'' : Level} {e e' : Expression} {callers : Calls l}
    {wanted : Calls l'} {otherwise : Calls l''} (h : Counted ts ⟨.returned l e callers, rest, d, n⟩)
    (op : Operator) (hwanted : wanted.waiting .operand = callers.waiting .operand)
    (hotherwise : otherwise.waiting .operand = callers.waiting .operand) :
    (Recursion.readOperator ⟨.returned l e callers, rest, d, n⟩ op (.counted l' wanted)
      (.returned l'' e' otherwise)).Next (Counted ts) := by
  unfold Recursion.readOperator
  split
  · rename_i hop
    obtain ⟨rest, rfl⟩ := List.head?_eq_some_iff.1 hop
    exact h.take (h.depth_eq.trans hwanted.symm) rfl h.depth_le rfl
      (Nat.succ_le_succ h.operators_le)
  · exact h.skip (h.depth_eq.trans hotherwise.symm) rfl h.depth_le h.operators_le

theorem start (ts : List Token) : Counted ts (start ts) :=
  ⟨rfl, ⟨[], rfl, rfl, rfl⟩, Nat.zero_le _, Nat.zero_le _⟩

/-- Every action keeps the counters right. -/
theorem step {r : Recursion} (h : Counted ts r) : r.step.Next (Counted ts) := by
  obtain ⟨point, rest, d, n⟩ := r
  have hdepth := h.depth_eq
  have hle := h.depth_le
  have hops := h.operators_le
  cases point with
  | call level callers =>
    cases level with
    | disjunction | conjunction | comparison => exact h.skip hdepth rfl hle hops
    | operand =>
      simp only [Recursion.step, begin]
      split <;> try trivial
      · exact h.take hdepth rfl hle rfl hops
      · exact h.take hdepth rfl hle rfl hops
      · exact h.take (congrArg (· + 1) hdepth) rfl (Nat.succ_le_succ hle) rfl hops
  | returned level e callers =>
    cases callers with
    | whole => cases rest <;> trivial
    | group caller =>
      -- The counter is one at least, as this parenthesis is among those that it counts.
      obtain rfl : d = caller.waiting .operand + 1 := hdepth
      exact h.skip rfl rfl (Nat.le_of_succ_le hle) hops
    | disjunction left caller => exact h.readOperator .or rfl rfl
    | conjunction left caller => exact h.readOperator .and rfl rfl
    | comparison left caller =>
      rcases left with _ | ⟨left, c⟩
      · simp only [Recursion.step, resume]
        split
        · exact h.take hdepth rfl hle rfl (Nat.succ_le_succ hops)
        · exact h.skip hdepth rfl hle hops
      · exact h.skip hdepth rfl hle hops
  | opened callers =>
    simp only [Recursion.step]
    split
    · trivial
    · rename_i hroom
      exact h.skip hdepth rfl (Nat.not_lt.1 hroom) hops
  | counted level callers =>
    simp only [Recursion.step]
    split
    · trivial
    · rename_i hroom
      exact h.skip hdepth rfl hle (Nat.not_lt.1 hroom)
  | closing inner callers =>
    simp only [Recursion.step]
    split <;> try trivial
    exact h.take hdepth rfl hle rfl hops

variable {r : Recursion}

theorem depth_le_limit (h : Counted ts r) : r.depth ≤ 65 :=
  Nat.le_trans h.depth_le (Nat.add_le_add_left r.point.newLevels_le maxNesting)

theorem operators_le_limit (h : Counted ts r) : r.operators ≤ 257 :=
  Nat.le_trans h.operators_le (Nat.add_le_add_left r.point.newOperators_le maxOperators)

/-- No more calls of a function are under way than levels may be counted. -/
theorem active_le_limit (h : Counted ts r) (level : Level) : r.point.active level ≤ 65 := by
  have hactive := r.point.active_add_newLevels_le level
  have hle : r.point.nesting ≤ 64 + r.point.newLevels := h.depth_eq ▸ h.depth_le
  omega

/-- What the functions come to from the start has its counters right. -/
theorem of_reaches (h : (Recursion.start ts).Reaches r) : Counted ts r := by
  induction h with
  | refl => exact .start ts
  | tail _ hstep ih =>
    have hnext := ih.step
    rwa [hstep] at hnext

end Counted

end Recursion

/-! ## The value of a condition -/

namespace Expression

/-- The operand that an expression stands for, if it is found with so many calls within one another.
Each part of an expression takes a call. The right side of `&&` and of `||` is looked at only where
the left one leaves it open. -/
def valueWithin (data : Datum) : Nat → Expression → Option Datum
  | 0, _ => none
  | _ + 1, .literal l => some l.value
  | _ + 1, .reference r => some (r.value data)
  | calls + 1, .group inner => valueWithin data calls inner
  | calls + 1, .binary .and left right => do
    if (← valueWithin data calls left).isTrue then
      return .bool (← valueWithin data calls right).isTrue
    else return .bool false
  | calls + 1, .binary .or left right => do
    if (← valueWithin data calls left).isTrue then return .bool true
    else return .bool (← valueWithin data calls right).isTrue
  | calls + 1, .binary (.compare c) left right => do
    return .bool (c.holds (← valueWithin data calls left) (← valueWithin data calls right))

theorem height_pos (e : Expression) : 0 < e.height := by
  cases e <;> exact Nat.succ_pos _

/-- As many calls as a tree is high are enough for its value. -/
theorem valueWithin_of_height_le (data : Datum) {calls : Nat} {e : Expression}
    (h : e.height ≤ calls) : e.valueWithin data calls = some (e.value data) := by
  induction calls generalizing e with
  | zero => exact absurd e.height_pos (Nat.not_lt.2 h)
  | succ calls ih =>
    cases e with
    | literal l => rfl
    | reference r => rfl
    | group inner => exact ih (Nat.le_of_succ_le_succ h)
    | binary op left right =>
      obtain ⟨hl, hr⟩ := Nat.max_le.1 (Nat.le_of_succ_le_succ h)
      cases op with
      | and =>
        rw [valueWithin, ih hl, ih hr, value]
        cases hleft : (left.value data).isTrue <;> simp [hleft]
      | or =>
        rw [valueWithin, ih hl, ih hr, value]
        cases hleft : (left.value data).isTrue <;> simp [hleft]
      | compare c =>
        rw [valueWithin, ih hl, ih hr, value]
        rfl

/-- A condition that can be read has a tree of bounded height. -/
theorem height_le_of_ofTokens? {ts : List Token} {e : Expression} (h : ofTokens? ts = .ok e) :
    e.height ≤ 1 + 64 + 256 := by
  have hwritten := writtenBy_of_ofTokens? h
  have hheight := e.height_le
  have hdepth := hwritten.depth_le
  have hops := hwritten.operators_le
  omega

end Expression

/-! ## Whole conditions -/

namespace Recursion

/-- At any time of the reading of a text, whatever it comes to, the counters say how many
parentheses are open with their inside being read and how many operators have been read. At most 65
parentheses and 257 operators are counted, and at most 65 calls of each function are under way. What
comes of it is what a reading gives. A tree that it gives has at most 321 nodes on a path, and 321
calls within one another are enough for its value. -/
theorem stack_bounded (s : String) :
    (∀ r, (start (Token.ofText s)).Reaches r →
      r.depth = r.point.nesting ∧
        (∃ read, read ++ r.rest = Token.ofText s ∧
          read.count .openParen = read.count .closeParen + (r.depth + r.point.toClose) ∧
            read.countP Token.isOperator = r.operators) ∧
        r.depth ≤ 65 ∧ (∀ level, r.point.active level ≤ 65) ∧ r.operators ≤ 257) ∧
      ofTokens? (Token.ofText s) = Expression.ofText? s ∧
      ∀ e, Expression.ofText? s = .ok e →
        e.height ≤ 1 + 64 + 256 ∧ ∀ data, e.valueWithin data 321 = some (e.value data) := by
  refine ⟨fun r hr => ?_, ofTokens?_eq _, fun e he => ?_⟩
  · have hcounted := Counted.of_reaches hr
    exact ⟨hcounted.depth_eq, hcounted.exists_read, hcounted.depth_le_limit,
      hcounted.active_le_limit, hcounted.operators_le_limit⟩
  · have hheight := Expression.height_le_of_ofTokens? he
    exact ⟨hheight, fun data => Expression.valueWithin_of_height_le data hheight⟩

/-- Within a parenthesis that is compared. -/
theorem stack_bounded_compared :
    let s := "(Model.a||1)==2"
    let e : Expression := .binary (.compare .equal)
      (.group (.binary .or (.reference ⟨"a", false⟩) (.literal (.number (.ofNat 1)))))
      (.literal (.number (.ofNat 2)))
    let r : Recursion :=
      ⟨.counted .conjunction (.disjunction (some (.reference ⟨"a", false⟩))
          (.group (.comparison none (.conjunction none (.disjunction none .whole))))),
        [.literal (.number (.ofNat 1)), .closeParen, .operator (.compare .equal),
          .literal (.number (.ofNat 2))], 1, 1⟩
    ((start (Token.ofText s)).Reaches r ∧ Expression.ofText? s = .ok e) ∧
      (r.depth = r.point.nesting ∧ r.point.active .disjunction ≤ 65 ∧ r.operators ≤ 257) ∧
      e.height ≤ 1 + 64 + 256 ∧ e.valueWithin .null 321 = some (e.value .null) := by
  intro s e r
  have htokens : Token.ofText s = [.openParen, .reference ⟨"a", false⟩, .operator .or,
      .literal (.number (.ofNat 1)), .closeParen, .operator (.compare .equal),
      .literal (.number (.ofNat 2))] := by
    decide +kernel
  have hr : (start (Token.ofText s)).Reaches r := by
    rw [htokens]
    -- The functions call one another down to the parenthesis, and again within it.
    refine .head rfl (.head rfl (.head rfl (.head rfl (.head rfl ?_))))
    refine .head rfl (.head rfl (.head rfl (.head rfl ?_)))
    -- They return up to the function that meets the operator.
    exact .head rfl (.head rfl (.head rfl .refl))
  have he : Expression.ofText? s = .ok e := by
    rw [Expression.ofText?, htokens]
    rfl
  obtain ⟨hreached, -, htree⟩ := stack_bounded s
  obtain ⟨hdepth, -, -, hactive, hops⟩ := hreached r hr
  exact ⟨⟨hr, he⟩, ⟨hdepth, hactive .disjunction, hops⟩, (htree e he).1, (htree e he).2 .null⟩

end Recursion

end FormLetter
