import FormLetter.Proofs.Grammar

/-!
# Beginnings of conditions

Whether more tokens can make a sentence of what has been read so far depends only on the outline of
the reading: for each open parenthesis and for what stands in the innermost one, whether a
comparison waits, and whether an operand is due. The limits on conditions have no part in it.

* `Viable`: the beginnings of sentences.
* `Outline.run_tokens`: the outline of a reading follows every tree that the grammar derives.
* `Viable.run`: it follows every beginning of a sentence.
* `viable_of_operand`, `viable_of_due`: the parts of a reading, if they were derived, begin a
  sentence.
-/

namespace FormLetter

open Expression (Derives)

/-- A list of tokens is a sentence of the grammar, whatever the limits. -/
def Sentence (ts : List Token) : Prop := ∃ e, Derives .disjunction e ∧ e.tokens = ts

/-- More tokens can make a sentence of a list of tokens. -/
def Viable (ts : List Token) : Prop := ∃ more, Sentence (ts ++ more)

theorem Sentence.viable {ts : List Token} (h : Sentence ts) : Viable ts :=
  ⟨[], by rwa [List.append_nil]⟩

theorem Viable.of_append {ts us : List Token} (h : Viable (ts ++ us)) : Viable ts := by
  obtain ⟨more, hmore⟩ := h
  exact ⟨us ++ more, by rwa [← List.append_assoc]⟩

/-! ## Outlines -/

/-- Where a reading stands. -/
structure Outline where
  /-- Whether a comparison waits outside each open parenthesis, the innermost one first. -/
  enclosing : List Bool
  /-- Whether a comparison waits within the innermost open parenthesis. -/
  compared : Bool
  /-- Whether an operand is due. -/
  due : Bool

namespace Outline

/-- Nothing has been read. -/
def start : Outline := ⟨[], false, true⟩

/-- An operator behind an operand. There is no place for a comparison behind a comparison. -/
def stepOperator (enclosing : List Bool) (compared : Bool) : Operator → Option Outline
  | .compare _ => if compared then none else some ⟨enclosing, true, true⟩
  | _ => some ⟨enclosing, false, true⟩

/-- Follows one token, if it has a place. -/
def step : Outline → Token → Option Outline
  | ⟨enclosing, compared, true⟩, .literal _ => some ⟨enclosing, compared, false⟩
  | ⟨enclosing, compared, true⟩, .reference _ => some ⟨enclosing, compared, false⟩
  | ⟨enclosing, compared, true⟩, .openParen => some ⟨compared :: enclosing, false, true⟩
  | ⟨enclosing, compared, false⟩, .operator op => stepOperator enclosing compared op
  | ⟨outer :: enclosing, _, false⟩, .closeParen => some ⟨enclosing, outer, false⟩
  | _, _ => none

/-- Follows tokens one after the other. -/
def run (o : Outline) (ts : List Token) : Option Outline := ts.foldlM step o

theorem run_cons (o : Outline) (t : Token) (ts : List Token) :
    o.run (t :: ts) = (o.step t).bind fun o => o.run ts := List.foldlM_cons

theorem run_append (o : Outline) (ts us : List Token) :
    o.run (ts ++ us) = (o.run ts).bind fun o => o.run us := List.foldlM_append

theorem run_singleton (o : Outline) (t : Token) : o.run [t] = o.step t := by
  rw [run_cons]
  cases o.step t <;> rfl

/-- Two trees are followed with an operator between them that has a place behind the left one. -/
theorem run_binary {o : Outline} {enclosing : List Bool} {compared compared' : Bool}
    {op : Operator} {left right : Expression}
    (hl : o.run left.tokens = some ⟨enclosing, compared, false⟩)
    (hop : stepOperator enclosing compared op = some ⟨enclosing, compared', true⟩) :
    o.run (Expression.binary op left right).tokens =
      run ⟨enclosing, compared', true⟩ right.tokens := by
  rw [Expression.tokens, run_append, hl]
  show run _ (_ :: _) = _
  rw [run_cons, step, hop]
  rfl

/-- An outline goes through a tree of some level: behind the tree no operand is due, and nothing has
changed outside. An operand may stand where a comparison waits. -/
def Follows : Level → Expression → Prop
  | .operand, e => ∀ enclosing compared,
      run ⟨enclosing, compared, true⟩ e.tokens = some ⟨enclosing, compared, false⟩
  | _, e => ∀ enclosing, ∃ compared,
      run ⟨enclosing, false, true⟩ e.tokens = some ⟨enclosing, compared, false⟩

/-- The outline of a reading follows every tree that the grammar derives. -/
theorem run_tokens {level : Level} {e : Expression} (h : Derives level e) : Follows level e := by
  induction h with
  | literal value =>
    intro enclosing compared
    rfl
  | reference target =>
    intro enclosing compared
    rfl
  | @group inner _ ih =>
    intro enclosing compared
    obtain ⟨inside, hrun⟩ := ih (compared :: enclosing)
    rw [Expression.tokens, List.cons_append, run_cons, step, Option.bind_some, run_append, hrun,
      Option.bind_some, run_singleton, step]
  | operand _ ih =>
    intro enclosing
    exact ⟨false, ih enclosing false⟩
  | compare c _ _ ihl ihr =>
    intro enclosing
    exact ⟨true, (run_binary (ihl enclosing false) rfl).trans (ihr enclosing true)⟩
  | comparison _ ih => exact ih
  | and _ _ ihl ihr =>
    intro enclosing
    obtain ⟨_, hl⟩ := ihl enclosing
    obtain ⟨compared, hr⟩ := ihr enclosing
    exact ⟨compared, (run_binary hl rfl).trans hr⟩
  | conjunction _ ih => exact ih
  | or _ _ ihl ihr =>
    intro enclosing
    obtain ⟨_, hl⟩ := ihl enclosing
    obtain ⟨compared, hr⟩ := ihr enclosing
    exact ⟨compared, (run_binary hl rfl).trans hr⟩

/-- The parentheses that are open are those that have not been closed. -/
theorem length_enclosing_run {o o' : Outline} {ts : List Token} (h : o.run ts = some o') :
    o.enclosing.length + ts.count .openParen = o'.enclosing.length + ts.count .closeParen := by
  induction ts generalizing o with
  | nil =>
    cases h
    rfl
  | cons t ts ih =>
    rw [run_cons, Option.bind_eq_some_iff] at h
    obtain ⟨q, hq, h⟩ := h
    have hrest := ih h
    have hstep : o.enclosing.length + [t].count .openParen =
        q.enclosing.length + [t].count .closeParen := by
      unfold step at hq
      split at hq
      · cases hq
        rfl
      · cases hq
        rfl
      · cases hq
        rfl
      · rename_i enclosing compared op
        unfold stepOperator at hq
        split at hq
        · split at hq <;> cases hq
          rfl
        · cases hq
          rfl
      · cases hq
        rfl
      · cases hq
    rw [← List.singleton_append, List.count_append, List.count_append]
    omega

end Outline

/-- Behind a sentence no parenthesis is open and no operand is due. -/
theorem Sentence.run {ts : List Token} (h : Sentence ts) :
    ∃ compared, Outline.start.run ts = some ⟨[], compared, false⟩ := by
  obtain ⟨e, he, rfl⟩ := h
  exact Outline.run_tokens he []

/-- Each token of a beginning of a sentence has a place. -/
theorem Viable.run {ts : List Token} (h : Viable ts) : ∃ o, Outline.start.run ts = some o := by
  obtain ⟨more, hmore⟩ := h
  obtain ⟨compared, hrun⟩ := hmore.run
  rw [Outline.run_append, Option.bind_eq_some_iff] at hrun
  obtain ⟨o, ho, -⟩ := hrun
  exact ⟨o, ho⟩

/-! ## Completing what has been read -/

namespace Reading

/-- Everything that waits was derived, within some bound. -/
def Grown (p : Pending) : Prop := ∃ room, Waiting room p

theorem Waiting.mono {room room' : Nat} {p : Pending} (h : Waiting room p) (hle : room ≤ room') :
    Waiting room' p where
  disjunct e he := ⟨(h.disjunct e he).1, Nat.le_trans (h.disjunct e he).2 hle⟩
  conjunct e he := ⟨(h.conjunct e he).1, Nat.le_trans (h.conjunct e he).2 hle⟩
  compared e c he := ⟨(h.compared e c he).1, Nat.le_trans (h.compared e c he).2 hle⟩

namespace Grown

variable {p q : Pending} {x : Expression}

theorem none : Grown .none := ⟨0, .none 0⟩

theorem disjunction (hp : Grown p) (hx : Derives .operand x) :
    Derives .disjunction (p.disjunction x) := by
  obtain ⟨room, hp⟩ := hp
  exact ((hp.mono (Nat.le_max_left room x.depth)).disjunction ⟨hx, Nat.le_max_right _ _⟩).1

theorem push (hp : Grown p) (hx : Derives .operand x) {op : Operator}
    (h : p.push x op = some q) : Grown q := by
  obtain ⟨room, hp⟩ := hp
  exact ⟨_, (hp.mono (Nat.le_max_left room x.depth)).push ⟨hx, Nat.le_max_right _ _⟩ h⟩

end Grown

theorem Surrounding.grown {outer : List Pending} (h : Surrounding outer) :
    ∀ p ∈ outer, Grown p := by
  induction outer with
  | nil => nofun
  | cons p outer ih =>
    intro q hq
    rcases List.mem_cons.1 hq with rfl | hq
    · exact ⟨_, h.1⟩
    · exact ih h.2 q hq

/-- Behind an operand the open parentheses can be closed. -/
theorem viable_of_operand {enclosing : List Pending} {p : Pending} {x : Expression} (n : Nat)
    (henclosing : ∀ p ∈ enclosing, Grown p) (hp : Grown p) (hx : Derives .operand x) :
    Viable (tokens ⟨enclosing, p, some x, n⟩) := by
  induction enclosing generalizing p x with
  | nil =>
    have hsentence : Sentence (tokens ⟨[], p, some x, n⟩) :=
      ⟨p.disjunction x, hp.disjunction hx, Pending.tokens_disjunction p x⟩
    exact hsentence.viable
  | cons outer rest ih =>
    obtain ⟨houter, hrest⟩ := List.forall_mem_cons.1 henclosing
    have hclosed := ih hrest houter (hp.disjunction hx).group
    have hstep : step ⟨outer :: rest, p, some x, n⟩ .closeParen =
      .ok ⟨rest, outer, some (.group (p.disjunction x)), n⟩ := rfl
    rw [tokens_step hstep] at hclosed
    exact hclosed.of_append

/-- Where an operand is due there can be one. -/
theorem viable_of_due {enclosing : List Pending} {p : Pending} (n : Nat)
    (henclosing : ∀ p ∈ enclosing, Grown p) (hp : Grown p) :
    Viable (tokens ⟨enclosing, p, none, n⟩) := by
  have hoperand := viable_of_operand n henclosing hp (.literal (.bool true))
  have hstep : step ⟨enclosing, p, none, n⟩ (.literal (.bool true)) =
    .ok ⟨enclosing, p, some (.literal (.bool true)), n⟩ := rfl
  rw [tokens_step hstep] at hoperand
  exact hoperand.of_append

/-- What has been read begins a sentence. -/
theorem Sound.viable {r : Reading} (h : Sound r) : Viable r.tokens := by
  obtain ⟨enclosing, p, operand, n⟩ := r
  cases operand with
  | none => exact viable_of_due n h.surrounding.grown ⟨_, h.pending⟩
  | some x => exact viable_of_operand n h.surrounding.grown ⟨_, h.pending⟩ (h.operand x rfl).1

end Reading

end FormLetter
