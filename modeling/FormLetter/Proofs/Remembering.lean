import FormLetter.Session
import FormLetter.Proofs.OnePass
import FormLetter.Proofs.Selection

/-!
# What a memo remembers

A memo goes from one letter to the next and takes in the reading of every condition that is looked
up, until it is told to forget. Nothing that it is used for can tell it from reading each condition
anew: a letter is the same with any memo that has come about so.

* `Memo.Remembers`: a memo holds the readings of some texts, each text once, and nothing else.
  `Memo.Remembers.read`: looking a text up adds this text.
* `Forest.conditionsMet`: the conditions of the elements that are decided about.
  `Forest.remembers_selectVisible`: deciding about the elements of a document adds these.
* `Renderer.renderWith_of_faithful`: a letter does not depend on what was read before.
* `Memo.Use.apply_of_remembers`: what one use gives, and what is remembered after it.
  `Memo.uses_from_empty`: the same of all uses of a memo, one after the other.
* `Session.remembers_run`: the memo of a session is one that has been used so.
-/

namespace FormLetter

/-! ## The texts of a memo -/

namespace Memo

/-- The memo holds the readings of the given texts, each text once, and nothing else. -/
structure Remembers (m : Memo) (texts : List String) : Prop where
  nodup : (m.readings.map Prod.fst).Nodup
  mem_iff : ∀ text reading,
    (text, reading) ∈ m.readings ↔ text ∈ texts ∧ reading = Expression.ofText? text

theorem remembers_empty : empty.Remembers [] where
  nodup := List.nodup_nil
  mem_iff text reading := by simp [empty]

namespace Remembers

variable {m : Memo} {texts : List String}

theorem faithful (h : m.Remembers texts) : m.Faithful := fun text reading hvalue =>
  ((h.mem_iff text reading).1 (mem_of_valueOf? hvalue)).2

theorem mem_of_valueOf? (h : m.Remembers texts) {text : String}
    {reading : Except Fault Expression} (hvalue : valueOf? text m.readings = some reading) :
    text ∈ texts :=
  ((h.mem_iff text reading).1 (FormLetter.mem_of_valueOf? hvalue)).1

/-- Looking a text up adds this text, if it is not there yet. -/
theorem read (h : m.Remembers texts) (text : String) :
    (m.read text).2.Remembers (texts ++ [text]) := by
  unfold Memo.read
  split
  · rename_i reading hvalue
    have hmem := h.mem_of_valueOf? hvalue
    refine ⟨h.nodup, fun other reading' => ?_⟩
    rw [h.mem_iff, List.mem_append, List.mem_singleton]
    constructor
    · exact fun ⟨hother, hreading⟩ => ⟨.inl hother, hreading⟩
    · rintro ⟨hother | rfl, hreading⟩
      · exact ⟨hother, hreading⟩
      · exact ⟨hmem, hreading⟩
  · rename_i hvalue
    have hnew : text ∉ m.readings.map Prod.fst := by
      rw [← isSome_valueOf?, hvalue]
      exact Bool.false_ne_true
    constructor
    · rw [List.map_append, List.map_singleton, List.nodup_append]
      refine ⟨h.nodup, List.nodup_cons.2 ⟨List.not_mem_nil, List.nodup_nil⟩, fun a ha b hb => ?_⟩
      rw [List.mem_singleton.1 hb]
      exact ne_of_mem_of_not_mem ha hnew
    · intro other reading
      rw [List.mem_append, List.mem_singleton, Prod.mk.injEq, h.mem_iff, List.mem_append,
        List.mem_singleton]
      constructor
      · rintro (⟨hother, hreading⟩ | ⟨rfl, hreading⟩)
        · exact ⟨.inl hother, hreading⟩
        · exact ⟨.inr rfl, hreading⟩
      · rintro ⟨hother | rfl, hreading⟩
        · exact .inl ⟨hother, hreading⟩
        · exact .inr ⟨rfl, hreading⟩

end Remembers

end Memo

/-! ## The conditions of a document -/

/-- The text that an element has for an attribute. -/
def Occurrence.attribute? (name : String) (o : Occurrence) : Option String :=
  match o.label with
  | .text _ => none
  | .element tag => tag.attributes.get? name

namespace Forest

/-- The conditions of the elements that are decided about: those that are not within an element
with a condition that does not hold. -/
def conditionsMetWithin (job : Job) (around : List Tag) (f : Forest) : List String :=
  ((f.occurrencesWithin around).filter (Occurrence.isReached job.hides)).filterMap
    (Occurrence.attribute? job.settings.conditionAttribute)

/-- The conditions of a document that are looked up, in document order. -/
def conditionsMet (job : Job) (f : Forest) : List String := f.conditionsMetWithin job []

section

variable {job : Job} {around : List Tag}

theorem conditionsMetWithin_text (haround : around.all (fun tag => !job.hides tag) = true)
    (content : String) (next : Forest) :
    (text content next).conditionsMetWithin job around = next.conditionsMetWithin job around := by
  have hreached : Occurrence.isReached job.hides ⟨around, .text content⟩ = true := haround
  rw [conditionsMetWithin, occurrencesWithin, List.filter_cons_of_pos hreached]
  exact List.filterMap_cons_none rfl

theorem conditionsMetWithin_element (haround : around.all (fun tag => !job.hides tag) = true)
    (tag : Tag) (children next : Forest) :
    (element tag children next).conditionsMetWithin job around =
      (tag.attributes.get? job.settings.conditionAttribute).toList ++
        (children.conditionsMetWithin job (around ++ [tag]) ++
          next.conditionsMetWithin job around) := by
  have hreached : Occurrence.isReached job.hides ⟨around, .element tag⟩ = true := haround
  have hfirst : [⟨around, .element tag⟩].filterMap
      (Occurrence.attribute? job.settings.conditionAttribute) =
        (tag.attributes.get? job.settings.conditionAttribute).toList := by
    cases hget : tag.attributes.get? job.settings.conditionAttribute with
    | none => exact List.filterMap_cons_none hget
    | some condition => exact List.filterMap_cons_some hget
  rw [conditionsMetWithin, occurrencesWithin, List.filter_cons_of_pos hreached,
    List.filter_append, ← List.singleton_append, List.filterMap_append, List.filterMap_append,
    hfirst]
  rfl

theorem conditionsMetWithin_of_hides {tag : Tag} (htag : job.hides tag = true) (f : Forest) :
    f.conditionsMetWithin job (around ++ [tag]) = [] := by
  rw [conditionsMetWithin, filter_isReached_eq_nil htag, List.filterMap_nil]

end

end Forest

/-- Deciding about one element looks its condition up. -/
theorem Job.remembers_judgeTag (job : Job) (tag : Tag) {tally : VisibilityTally}
    {texts : List String} (h : tally.memo.Remembers texts) :
    (job.judgeTag tag tally).2.memo.Remembers
      (texts ++ (tag.attributes.get? job.settings.conditionAttribute).toList) := by
  unfold judgeTag
  cases tag.attributes.get? job.settings.conditionAttribute with
  | none =>
    rw [Option.toList_none, List.append_nil]
    exact h
  | some condition =>
    have hmemo : (job.judge condition tally).2.memo = (tally.memo.read condition).2 := by
      unfold judge
      dsimp only
      split
      · split <;> rfl
      · rfl
    rw [Option.toList_some]
    dsimp only
    rw [hmemo]
    exact h.read condition

/-- Deciding about the elements of a document looks up the conditions met. -/
theorem Forest.remembers_selectVisible (job : Job) {around : List Tag}
    (haround : around.all (fun tag => !job.hides tag) = true) (f : Forest)
    {tally : VisibilityTally} {texts : List String} (h : tally.memo.Remembers texts) :
    (f.selectVisible job tally).2.memo.Remembers (texts ++ f.conditionsMetWithin job around) := by
  induction f generalizing around tally texts with
  | nil =>
    rw [show nil.conditionsMetWithin job around = [] from rfl, List.append_nil]
    exact h
  | text content next ih =>
    rw [conditionsMetWithin_text haround]
    exact ih haround h
  | element tag children next ihc ihn =>
    have htag := job.remembers_judgeTag tag h
    rw [conditionsMetWithin_element haround, ← List.append_assoc]
    cases hhides : job.hides tag with
    | true =>
      rw [selectVisible_of_hides hhides _ _ h.faithful, conditionsMetWithin_of_hides hhides,
        List.nil_append]
      exact ihn haround htag
    | false =>
      rw [selectVisible_of_not_hides hhides _ _ h.faithful, ← List.append_assoc]
      exact ihn haround (ihc (all_not_concat haround hhides) htag)

/-! ## Letters -/

/-- What deciding about the elements of a document leaves and counts does not depend on the
conditions read before. -/
theorem Forest.selectVisible_congr (job : Job) (f : Forest) {m m' : Memo} (h : m.Faithful)
    (h' : m'.Faithful) :
    let result := f.selectVisible job { memo := m }
    let result' := f.selectVisible job { memo := m' }
    result.1 = result'.1 ∧ result.2.evaluated = result'.2.evaluated ∧
      result.2.removed = result'.2.removed ∧ result.2.unsupported = result'.2.unsupported := by
  have hcount : ∀ {count : VisibilityTally → Nat} {kind : Tag → Bool}, job.Counts count kind →
      count { memo := m } = count { memo := m' } →
      count (f.selectVisible job { memo := m }).2 = count (f.selectVisible job { memo := m' }).2 := by
    intro count kind hkind hstart
    rw [count_selectVisible hkind [] rfl f h, count_selectVisible hkind [] rfl f h', hstart]
  refine ⟨?_, hcount job.counts_evaluated rfl, hcount job.counts_removed rfl,
    hcount job.counts_unsupported rfl⟩
  rw [fst_selectVisible f h, fst_selectVisible f h']

/-- A letter does not depend on the conditions read before. -/
theorem Renderer.renderWith_of_faithful (r : Renderer) {m : Memo} (h : m.Faithful)
    (document : Forest) (values : Entries String) (data : Datum) :
    (r.renderWith m document values data).1 = r.render document values data := by
  obtain ⟨htree, hevaluated, hremoved, hunsupported⟩ :=
    (document.expand (r.job values data)).1.selectVisible_congr (r.job values data) h
      Memo.faithful_empty
  simp only [render, renderWith, Report.ofPasses, htree, hevaluated, hremoved, hunsupported]

theorem Renderer.remembers_renderWith (r : Renderer) {m : Memo} {texts : List String}
    (h : m.Remembers texts) (document : Forest) (values : Entries String) (data : Datum) :
    let job := r.job values data
    (r.renderWith m document values data).2.Remembers
      (texts ++ (document.expand job).1.conditionsMet job) :=
  Forest.remembers_selectVisible (r.job values data) rfl _ h

/-! ## Using a memo -/

namespace Memo

/-- What a memo is used for. -/
inductive Use where
  /-- To read a condition. -/
  | read (condition : String)
  /-- To forget all conditions read so far. -/
  | forget
  /-- To write a letter. -/
  | write (renderer : Renderer) (document : Forest) (values : Entries String) (data : Datum)

/-- What comes of a use. -/
inductive Outcome where
  | reading (reading : Except Fault Expression)
  | forgotten
  | letter (rendering : Rendering)

namespace Use

/-- Uses a memo. -/
def apply (use : Use) (m : Memo) : Outcome × Memo :=
  match use with
  | .read condition =>
    let (reading, m) := m.read condition
    (.reading reading, m)
  | .forget => (.forgotten, .empty)
  | .write renderer document values data =>
    let (rendering, m) := renderer.renderWith m document values data
    (.letter rendering, m)

/-- What comes of a use if there is no memo. -/
def direct : Use → Outcome
  | .read condition => .reading (Expression.ofText? condition)
  | .forget => .forgotten
  | .write renderer document values data => .letter (renderer.render document values data)

/-- The texts looked up since the memo was told to forget, after a use, from those before it. -/
def lookUp (texts : List String) : Use → List String
  | .read condition => texts ++ [condition]
  | .forget => []
  | .write renderer document values data =>
    let job := renderer.job values data
    texts ++ (document.expand job).1.conditionsMet job

/-- What comes of a use does not depend on what the memo remembers, and the texts that it looks up
are remembered after it. -/
theorem apply_of_remembers (use : Use) {m : Memo} {texts : List String} (h : m.Remembers texts) :
    (use.apply m).1 = use.direct ∧ (use.apply m).2.Remembers (lookUp texts use) := by
  cases use with
  | read condition =>
    have hreading := (Memo.read_of_faithful h.faithful condition).1
    exact ⟨congrArg Outcome.reading hreading, h.read condition⟩
  | forget => exact ⟨rfl, remembers_empty⟩
  | write renderer document values data =>
    have hletter := renderer.renderWith_of_faithful h.faithful document values data
    exact ⟨congrArg Outcome.letter hletter,
      renderer.remembers_renderWith h document values data⟩

theorem inTurn_apply_of_remembers (uses : List Use) {m : Memo} {texts : List String}
    (h : m.Remembers texts) :
    (inTurn apply uses m).1 = uses.map direct ∧
      (inTurn apply uses m).2.Remembers (uses.foldl lookUp texts) := by
  induction uses generalizing m texts with
  | nil => exact ⟨rfl, h⟩
  | cons use uses ih =>
    obtain ⟨hfirst, hmemo⟩ := use.apply_of_remembers h
    obtain ⟨hothers, hlast⟩ := ih hmemo
    refine ⟨?_, hlast⟩
    rw [List.map_cons, ← hfirst, ← hothers]
    rfl

end Use

/-- The texts looked up by some uses of a memo since it was last told to forget. -/
def textsSinceForgotten (uses : List Use) : List String := uses.foldl Use.lookUp []

/-- Whatever a memo is used for, from the empty one on, each use gives what it gives without a memo.
The memo holds the reading of every text looked up since it was last told to forget, each text
once, and nothing else. -/
theorem uses_from_empty (uses : List Use) :
    let outcomes := (inTurn Use.apply uses .empty).1
    let m := (inTurn Use.apply uses .empty).2
    outcomes = uses.map Use.direct ∧
      (m.readings.map Prod.fst).Nodup ∧
      ∀ text reading, (text, reading) ∈ m.readings ↔
        text ∈ textsSinceForgotten uses ∧ reading = Expression.ofText? text := by
  obtain ⟨houtcomes, hmemo⟩ := Use.inTurn_apply_of_remembers uses remembers_empty
  exact ⟨houtcomes, hmemo.nodup, hmemo.mem_iff⟩

end Memo

/-! ## Sessions -/

namespace Session

/-- What a session uses its memo for to answer a request. -/
def memoUses (s : Session) : Request → List Memo.Use
  | .recall condition => [.read condition]
  | .forget => [.forget]
  | .render _ => [.write s.renderer s.document s.values s.data]
  | _ => []

/-- What a session uses its memo for to answer requests one after the other. -/
def memoUsesOfRun (s : Session) : List Request → List Memo.Use
  | [] => []
  | request :: rest => s.memoUses request ++ (s.answer request).2.memoUsesOfRun rest

theorem memo_answer (s : Session) (request : Request) :
    (s.answer request).2.memo = (inTurn Memo.Use.apply (s.memoUses request) s.memo).2 := by
  cases request <;> rfl

theorem memo_run (s : Session) (requests : List Request) :
    (s.run requests).2.memo =
      (inTurn Memo.Use.apply (s.memoUsesOfRun requests) s.memo).2 := by
  induction requests generalizing s with
  | nil => rfl
  | cons request rest ih =>
    rw [memoUsesOfRun, snd_inTurn_append, ← memo_answer]
    exact ih _

/-- The memo of a session remembers the texts looked up since it was last told to forget. -/
theorem remembers_run {s : Session} {texts : List String} (h : s.memo.Remembers texts)
    (requests : List Request) :
    (s.run requests).2.memo.Remembers
      ((s.memoUsesOfRun requests).foldl Memo.Use.lookUp texts) := by
  rw [memo_run]
  exact (Memo.Use.inTurn_apply_of_remembers _ h).2

/-- So whatever a session was asked before, it writes the letter that is written without a memo. -/
theorem answer_render_run {s : Session} {texts : List String} (h : s.memo.Remembers texts)
    (requests : List Request) (store : Bool) :
    let t := (s.run requests).2
    (t.answer (.render store)).1 =
      .rendering (t.renderer.render t.document t.values t.data)
        (t.answer (.render store)).2.memo.size := by
  intro t
  rw [← t.renderer.renderWith_of_faithful (remembers_run h requests).faithful]
  rfl

end Session

end FormLetter
