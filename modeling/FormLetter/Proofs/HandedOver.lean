import FormLetter.Exchange.Rendering
import FormLetter.Proofs.DataExchange

/-!
# Values handed over

What is handed over as JSON is read as it was: data, documents, field values, letters with their
reports, settings, conditions and everything that may be wrong with one. Each type is read from a
form that only its own values are handed over in, and of several variants the first one that accepts
a value is the one that it was handed over as.

* `Lossless`: handing a value over loses nothing. The lemmas go from plain values to lists, records
  and variants, and from there up to what a letter is written from.
* `Report.Fits`, `Settings.Fits`, `Fault.Fits`, `Problem.Fits`: the counts and limits are ones that
  can be handed over.
* `Renderer.lossless_render`: so are those of every letter that is written.
* `Exchange.handed_over`: nothing is lost of any of these values, and what is left of a JSON value
  that is read as a datum.
-/

namespace FormLetter

/-- Handing a value over loses nothing: a JSON text can be written of it, and is read as the
value. -/
structure Lossless {α : Type} [Exchange α] (x : α) : Prop where
  plain : (Exchange.toJson x).Plain
  read : Exchange.ofJson? (Exchange.toJson x) = some x

/-! ## Plain values -/

section

variable {α : Type} [Exchange α]

theorem lossless_string (s : String) : Lossless s := ⟨.string s, rfl⟩

theorem lossless_bool (b : Bool) : Lossless b := ⟨.bool b, rfl⟩

theorem lossless_nat {n : Nat} (h : n ≤ maxExchanged) : Lossless n := by
  refine ⟨.integer (by omega) (Int.ofNat_le.2 h), ?_⟩
  have hroom : (decide ((0 : Int) ≤ n) && decide ((n : Int).toNat ≤ maxExchanged)) = true := by
    simpa using h
  exact if_pos hroom

theorem lossless_number {n : Number} (h : n.isFinite = true) : Lossless n := ⟨.float h, rfl⟩

theorem lossless_limit {most : Option Nat} (h : ∀ n, most = some n → n ≤ maxExchanged) :
    Lossless most := by
  cases most with
  | none => exact ⟨.null, rfl⟩
  | some n =>
    have hn := lossless_nat (h n rfl)
    exact ⟨hn.plain, congrArg (Option.map some) hn.read⟩

theorem lossless_list {xs : List α} (h : ∀ x ∈ xs, Lossless x) : Lossless xs := by
  refine ⟨.array (List.forall_mem_map.2 fun x hx => (h x hx).plain), ?_⟩
  show (xs.map Exchange.toJson).mapM Exchange.ofJson? = some xs
  induction xs with
  | nil => rfl
  | cons x xs ih =>
    obtain ⟨hx, hxs⟩ := List.forall_mem_cons.1 h
    rw [List.map_cons, List.mapM_cons, hx.read, ih hxs]
    rfl

theorem lossless_entries {e : Entries α} (h : ∀ x ∈ e.toList, Lossless x.2) : Lossless e := by
  refine ⟨.object (List.forall_mem_map.2 fun x hx => (h x hx).plain), ?_⟩
  have hread : (e.toList.map fun x => (x.1, Exchange.toJson x.2)).mapM
      (fun m => (Exchange.ofJson? m.2).map fun value => (m.1, value)) = some e.toList := by
    generalize e.toList = xs at h
    induction xs with
    | nil => rfl
    | cons x xs ih =>
      obtain ⟨hx, hxs⟩ := List.forall_mem_cons.1 h
      rw [List.map_cons, List.mapM_cons, hx.read, ih hxs]
      rfl
  show Option.map Entries.ofList _ = some e
  rw [hread, Option.map_some, e.ofList_toList]

theorem lossless_values (values : Entries String) : Lossless values :=
  lossless_entries fun x _ => lossless_string x.2

theorem lossless_datum {d : Datum} (hordered : d.IsOrdered) (hfinite : d.IsFinite) : Lossless d :=
  ⟨d.plain_toJson hfinite, congrArg some (Datum.ofJson_toJson hordered)⟩

/-! ## Fields -/

variable {j : Json} {x : α} {name variant : String} {place : Nat}

theorem Json.required?_eq (hfield : j.field? name place = some (Exchange.toJson x))
    (hx : Lossless x) : j.required? name place = some x := by
  rw [required?, hfield]
  exact hx.read

theorem Json.optional?_eq (hfield : j.field? name place = some (Exchange.toJson x))
    (hx : Lossless x) (default : α) : j.optional? name place default = some x := by
  rw [optional?, hfield]
  exact hx.read

theorem Json.memberAs?_eq (hmember : j.member? name = some (Exchange.toJson x))
    (hx : Lossless x) : j.memberAs? name = some x := by
  rw [memberAs?, hmember]
  exact hx.read

/-- A variant is plain if what it holds is. -/
theorem Json.Plain.tagged (name : String) (h : j.Plain) : (Json.tagged name j).Plain :=
  .object (List.forall_mem_singleton.2 h)

/-- Nothing is lost of a variant with one field if nothing is lost of the field. -/
theorem Fault.lossless_of_taggedField {β : Type} [Exchange β] {y : β} (hx : Lossless x)
    (make : α → β) (hmake : make x = y)
    (hwrite : Exchange.toJson y = taggedField variant name (Exchange.toJson x))
    (hread : Exchange.ofJson? (Exchange.toJson y) =
      (fieldOf? (Exchange.toJson y) name).map make) : Lossless y := by
  constructor
  · rw [hwrite]
    exact Json.Plain.tagged variant (.object (List.forall_mem_singleton.2 hx.plain))
  · have hfield : fieldOf? (taggedField variant name (Exchange.toJson x)) name = some x := by
      refine Json.memberAs?_eq ?_ hx
      simp [Json.member?, Json.lastOf?]
    rw [hread, hwrite, hfield, Option.map_some, hmake]

end

/-! ## Documents -/

namespace Forest

theorem plain_elementToJson (tag : Tag) {children : List Json} (h : ∀ j ∈ children, j.Plain) :
    (elementToJson tag children).Plain := by
  refine .object ?_
  have hattributes := (lossless_values tag.attributes).plain
  simpa using ⟨Json.Plain.string tag.name, hattributes, Json.Plain.array h⟩

theorem tagOfJson?_elementToJson (tag : Tag) (children : List Json) :
    tagOfJson? (elementToJson tag children) = some tag := by
  have hname : (elementToJson tag children).required? "tag" 0 = some tag.name :=
    Json.required?_eq rfl (lossless_string tag.name)
  have hattributes : (elementToJson tag children).optional? "attributes" 1 .empty =
      some tag.attributes := Json.optional?_eq rfl (lossless_values tag.attributes) .empty
  rw [tagOfJson?, if_pos (show (elementToJson tag children).isRecord 3 = true from rfl), hname,
    Option.bind_some, hattributes]
  rfl

theorem childrenOf?_elementToJson (tag : Tag) (children : List Json) :
    childrenOf? (elementToJson tag children) = some children := rfl

theorem plain_toJsons (f : Forest) : ∀ j ∈ f.toJsons, j.Plain := by
  induction f with
  | nil => exact List.forall_mem_nil _
  | text content next ih => exact List.forall_mem_cons.2 ⟨.string content, ih⟩
  | element tag children next ihc ihn =>
    exact List.forall_mem_cons.2 ⟨plain_elementToJson tag ihc, ihn⟩

/-- A string is read as a text, and the record of an element is not a string. -/
theorem ofJsons?_toJsons (f : Forest) : ofJsons? f.toJsons = some f := by
  induction f with
  | nil => rw [toJsons, ofJsons?]
  | text content next ih => rw [toJsons, ofJsons?, ih, Option.map_some]
  | element tag children next ihc ihn =>
    rw [toJsons, ofJsons?]
    case x_1 => simp [elementToJson]
    split
    · rename_i h
      rw [childrenOf?_elementToJson] at h
      cases h
    · rename_i items h
      rw [childrenOf?_elementToJson] at h
      cases h
      rw [tagOfJson?_elementToJson, Option.bind_some, ihc, Option.bind_some, ihn, Option.map_some]

end Forest

theorem lossless_forest (f : Forest) : Lossless f :=
  ⟨.array f.plain_toJsons, f.ofJsons?_toJsons⟩

theorem lossless_element (e : Element) : Lossless e := by
  refine ⟨Forest.plain_elementToJson e.tag e.children.plain_toJsons, ?_⟩
  show (Forest.tagOfJson? (Forest.elementToJson e.tag e.children.toJsons)).bind _ = some e
  rw [Forest.tagOfJson?_elementToJson, Option.bind_some]
  show Option.map _ (Forest.ofJsons? e.children.toJsons) = some e
  rw [Forest.ofJsons?_toJsons]
  rfl

theorem lossless_node (n : Node) : Lossless n := by
  cases n with
  | text content => exact ⟨.string content, rfl⟩
  | element e =>
    exact ⟨(lossless_element e).plain, congrArg (Option.map Node.element) (lossless_element e).read⟩

/-! ## Letters -/

theorem lossless_input {i : RenderingInput} (hordered : i.data.IsOrdered)
    (hfinite : i.data.IsFinite) : Lossless i := by
  have hdocument := lossless_forest i.document
  have hvalues := lossless_values i.values
  have hdata := lossless_datum hordered hfinite
  refine ⟨.object (by simpa using ⟨hdocument.plain, hvalues.plain, hdata.plain⟩), ?_⟩
  have hrecord : (Exchange.toJson i).isRecord 3 = true := rfl
  have h0 : (Exchange.toJson i).required? "document" 0 = some i.document :=
    Json.required?_eq rfl hdocument
  have h1 : (Exchange.toJson i).optional? "values" 1 .empty = some i.values :=
    Json.optional?_eq rfl hvalues _
  have h2 : (Exchange.toJson i).optional? "model" 2 .null = some i.data :=
    Json.optional?_eq rfl hdata _
  simp only [Exchange.ofJson?]
  rw [if_pos hrecord, h0, Option.bind_some, h1, Option.bind_some, h2, Option.map_some]

/-- All counts are ones that can be handed over. -/
structure Report.Fits (r : Report) : Prop where
  fieldsReplaced : r.fieldsReplaced ≤ maxExchanged
  conditionsEvaluated : r.conditionsEvaluated ≤ maxExchanged
  conditionsRemoved : r.conditionsRemoved ≤ maxExchanged
  repeatsExpanded : r.repeatsExpanded ≤ maxExchanged
  repeatIterations : r.repeatIterations ≤ maxExchanged
  unsupported : r.unsupported ≤ maxExchanged

theorem lossless_report {r : Report} (h : r.Fits) : Lossless r := by
  have hreplaced := lossless_nat h.fieldsReplaced
  have hevaluated := lossless_nat h.conditionsEvaluated
  have hremoved := lossless_nat h.conditionsRemoved
  have hexpanded := lossless_nat h.repeatsExpanded
  have hiterations := lossless_nat h.repeatIterations
  have hunsupported := lossless_nat h.unsupported
  have hmissing := lossless_list fun x (_ : x ∈ r.missingRequired) => lossless_string x
  have hreached := lossless_bool r.limitReached
  refine ⟨.object (by simpa using ⟨hreplaced.plain, hevaluated.plain, hremoved.plain,
    hexpanded.plain, hiterations.plain, hunsupported.plain, hmissing.plain, hreached.plain⟩), ?_⟩
  have hrecord : (Exchange.toJson r).isRecord 8 = true := rfl
  have h0 : (Exchange.toJson r).required? "merge_fields_replaced" 0 = some r.fieldsReplaced :=
    Json.required?_eq rfl hreplaced
  have h1 : (Exchange.toJson r).required? "conditionals_evaluated" 1 = some r.conditionsEvaluated :=
    Json.required?_eq rfl hevaluated
  have h2 : (Exchange.toJson r).required? "conditionals_removed" 2 = some r.conditionsRemoved :=
    Json.required?_eq rfl hremoved
  have h3 : (Exchange.toJson r).required? "repeats_expanded" 3 = some r.repeatsExpanded :=
    Json.required?_eq rfl hexpanded
  have h4 : (Exchange.toJson r).required? "repeat_iterations" 4 = some r.repeatIterations :=
    Json.required?_eq rfl hiterations
  have h5 : (Exchange.toJson r).required? "unsupported_expressions" 5 = some r.unsupported :=
    Json.required?_eq rfl hunsupported
  have h6 : (Exchange.toJson r).required? "missing_required" 6 = some r.missingRequired :=
    Json.required?_eq rfl hmissing
  have h7 : (Exchange.toJson r).required? "iteration_limit_reached" 7 = some r.limitReached :=
    Json.required?_eq rfl hreached
  simp only [Exchange.ofJson?]
  rw [if_pos hrecord]
  simp only [h0, h1, h2, h3, h4, h5, h6, h7, Option.bind_some, Option.bind_eq_bind]

theorem lossless_rendering {r : Rendering} (h : r.report.Fits) : Lossless r := by
  have hdocument := lossless_forest r.document
  have hreport := lossless_report h
  refine ⟨.object (by simpa using ⟨hdocument.plain, hreport.plain⟩), ?_⟩
  have hrecord : (Exchange.toJson r).isRecord 2 = true := rfl
  have h0 : (Exchange.toJson r).required? "document" 0 = some r.document :=
    Json.required?_eq rfl hdocument
  have h1 : (Exchange.toJson r).required? "report" 1 = some r.report :=
    Json.required?_eq rfl hreport
  simp only [Exchange.ofJson?]
  rw [if_pos hrecord, h0, Option.bind_some, h1, Option.map_some]

/-- The counters of a report stop at the largest count that can be handed over. -/
theorem Report.fits_ofPasses (expansion : ExpansionTally) (visibility : VisibilityTally)
    (replaced : Nat) (missing : List String) :
    (ofPasses expansion visibility replaced missing).Fits := by
  have hcount (n : Nat) : shownCount n ≤ maxExchanged := Nat.min_le_right n counterLimit
  exact ⟨hcount _, hcount _, hcount _, hcount _, hcount _, hcount _⟩

/-- A letter that has been written can be handed over with its report. -/
theorem Renderer.lossless_render (r : Renderer) (document : Forest) (values : Entries String)
    (data : Datum) : Lossless (r.render document values data) :=
  lossless_rendering (Report.fits_ofPasses _ _ _ _)

/-! ## Settings -/

/-- The ceiling is one that can be handed over. -/
def Settings.Fits (s : Settings) : Prop := ∀ n, s.maxIterations = some n → n ≤ maxExchanged

theorem lossless_settings {s : Settings} (h : s.Fits) : Lossless s := by
  have hcondition := lossless_string s.conditionAttribute
  have hdirective := lossless_string s.repeatAttribute
  have hmost := lossless_limit h
  refine ⟨.object (by simpa using ⟨hcondition.plain, hdirective.plain, hmost.plain⟩), ?_⟩
  have hrecord : (Exchange.toJson s).isRecord 3 = true := rfl
  have h0 : (Exchange.toJson s).optional? "conditional_attribute" 0 "data-if" =
      some s.conditionAttribute := Json.optional?_eq rfl hcondition _
  have h1 : (Exchange.toJson s).optional? "repeat_attribute" 1 "data-repeat" =
      some s.repeatAttribute := Json.optional?_eq rfl hdirective _
  have h2 : (Exchange.toJson s).optional? "max_iterations" 2 none = some s.maxIterations :=
    Json.optional?_eq rfl hmost _
  simp only [Exchange.ofJson?]
  rw [if_pos hrecord, h0, Option.bind_some, h1, Option.bind_some, h2, Option.map_some]

theorem lossless_renderer {r : Renderer} (h : r.settings.Fits) : Lossless r := by
  have hsettings := lossless_settings h
  refine ⟨.object (List.forall_mem_singleton.2 hsettings.plain), ?_⟩
  have hrecord : (Exchange.toJson r).isRecord 1 = true := rfl
  have h0 : (Exchange.toJson r).required? "options" 0 = some r.settings :=
    Json.required?_eq rfl hsettings
  simp only [Exchange.ofJson?]
  rw [if_pos hrecord, h0, Option.map_some]

/-! ## Conditions -/

/-- Every operator has a name of its own. -/
theorem lossless_operator (op : Operator) : Lossless op := by
  refine ⟨.string op.name, ?_⟩
  rcases op with _ | _ | (_ | _ | _ | _ | _ | _) <;> rfl

theorem lossless_literal {v : Literal} (h : ∀ n, v = .number n → n.isFinite = true) :
    Lossless v := by
  cases v with
  | text value => exact ⟨(lossless_string value).plain.tagged "String", rfl⟩
  | number value => exact ⟨(lossless_number (h value rfl)).plain.tagged "Number", rfl⟩
  | bool value => exact ⟨(lossless_bool value).plain.tagged "Boolean", rfl⟩

theorem lossless_reference (r : Reference) : Lossless r :=
  ⟨.object (by simpa using ⟨.string r.path, .bool r.counted⟩), rfl⟩

namespace Expression

/-- All numbers are finite. -/
def IsFinite (e : Expression) : Prop :=
  ∀ n, .literal (.number n) ∈ e.tokens → n.isFinite = true

theorem IsFinite.of_binary {op : Operator} {left right : Expression}
    (h : IsFinite (.binary op left right)) : left.IsFinite ∧ right.IsFinite :=
  ⟨fun n hn => h n (List.mem_append_left _ hn),
    fun n hn => h n (List.mem_append_right _ (.tail _ hn))⟩

theorem IsFinite.of_group {inner : Expression} (h : IsFinite (.group inner)) : inner.IsFinite :=
  fun n hn => h n (.tail _ (List.mem_append_left _ hn))

theorem IsFinite.lossless_literal {v : Literal} (h : IsFinite (.literal v)) : Lossless v :=
  FormLetter.lossless_literal fun n hn => h n (hn ▸ .head _)

theorem plain_toJson {e : Expression} (h : e.IsFinite) : e.toJson.Plain := by
  induction e with
  | binary op left right ihl ihr =>
    obtain ⟨hl, hr⟩ := h.of_binary
    refine Json.Plain.tagged "Binary" (.object ?_)
    simpa using ⟨(lossless_operator op).plain, ihl hl, ihr hr⟩
  | literal value => exact h.lossless_literal.plain.tagged "Literal"
  | reference target => exact (lossless_reference target).plain.tagged "ModelRef"
  | group inner ih => exact (ih h.of_group).tagged "Group"

theorem ofJson?_toJson {e : Expression} (h : e.IsFinite) : ofJson? e.toJson = some e := by
  induction e with
  | binary op left right ihl ihr =>
    obtain ⟨hl, hr⟩ := h.of_binary
    rw [toJson, ofJson?]
    simp only [Json.tagged, Json.payload?, Json.variant?]
    split
    · rename_i l r hleft hright
      obtain rfl : left.toJson = l := Option.some.inj hleft
      obtain rfl : right.toJson = r := Option.some.inj hright
      rw [Json.memberAs?_eq rfl (lossless_operator op), Option.bind_some, ihl hl, Option.bind_some,
        ihr hr, Option.map_some]
    · rename_i hnone
      exact (hnone _ _ rfl rfl).elim
  | literal value =>
    rw [toJson, ofJson?]
    simp only [Json.tagged, Json.payload?, Json.variant?]
    rw [h.lossless_literal.read, Option.map_some]
  | reference target =>
    rw [toJson, ofJson?]
    simp only [Json.tagged, Json.payload?, Json.variant?]
    rw [(lossless_reference target).read, Option.map_some]
  | group inner ih =>
    rw [toJson, ofJson?]
    simp only [Json.tagged, Json.payload?, Json.variant?]
    rw [ih h.of_group, Option.map_some]

end Expression

theorem lossless_expression {e : Expression} (h : e.IsFinite) : Lossless e :=
  ⟨e.plain_toJson h, e.ofJson?_toJson h⟩

/-! ## Faults and problems -/

/-- The limit that a fault tells of, if it does. -/
def Fault.limit? : Fault → Option Nat
  | .nestingTooDeep limit => some limit
  | .tooManyOperators limit => some limit
  | _ => none

/-- The limit is one that can be handed over. -/
def Fault.Fits (f : Fault) : Prop := ∀ n, f.limit? = some n → n ≤ maxExchanged

theorem lossless_fault {f : Fault} (h : f.Fits) : Lossless f := by
  cases f with
  | unknownText source =>
    exact Fault.lossless_of_taggedField (lossless_string source) .unknownText rfl rfl rfl
  | unexpected token =>
    exact Fault.lossless_of_taggedField (lossless_string token) .unexpected rfl rfl rfl
  | unexpectedEnd => exact ⟨.string _, rfl⟩
  | trailing token =>
    exact Fault.lossless_of_taggedField (lossless_string token) .trailing rfl rfl rfl
  | nestingTooDeep limit =>
    exact Fault.lossless_of_taggedField (lossless_nat (h limit rfl)) .nestingTooDeep rfl rfl rfl
  | tooManyOperators limit =>
    exact Fault.lossless_of_taggedField (lossless_nat (h limit rfl)) .tooManyOperators rfl rfl rfl

/-- The fault that a problem tells of, if it does. -/
def Problem.fault? : Problem → Option Fault
  | .unreadableCondition _ fault => some fault
  | _ => none

/-- The fault is one that can be handed over. -/
def Problem.Fits (p : Problem) : Prop := ∀ f, p.fault? = some f → f.Fits

theorem lossless_problem {p : Problem} (h : p.Fits) : Lossless p := by
  cases p with
  | conflictingDirectives tag =>
    exact Fault.lossless_of_taggedField (lossless_string tag) .conflictingDirectives rfl rfl rfl
  | unreadableCondition condition fault =>
    have hcondition := lossless_string condition
    have hfault := lossless_fault (h fault rfl)
    refine ⟨Json.Plain.tagged _ (.object (by simpa using ⟨hcondition.plain, hfault.plain⟩)), ?_⟩
    let payload : Json :=
      .object [("expression", .string condition), ("source", Exchange.toJson fault)]
    have h0 : payload.memberAs? "expression" = some condition := Json.memberAs?_eq rfl hcondition
    have h1 : payload.memberAs? "source" = some fault := Json.memberAs?_eq rfl hfault
    show ((payload.memberAs? "expression").bind fun condition =>
      (payload.memberAs? "source").map fun fault =>
        Problem.unreadableCondition condition fault) = _
    rw [h0, Option.bind_some, h1, Option.map_some]
  | unreadableRepeat directive =>
    exact Fault.lossless_of_taggedField (lossless_string directive) .unreadableRepeat rfl rfl rfl
  | missingField path =>
    exact Fault.lossless_of_taggedField (lossless_string path) .missingField rfl rfl rfl

/-! ## Everything that is handed over -/

/-- Nothing is lost when data, documents and their parts, field values, what a letter is written
from, letters and reports, settings, conditions, faults and problems are handed over, if their
numbers are finite and their counts and limits are ones of 64 bits. Every JSON value is read as a
datum, which is in order and has finite numbers if the value comes from a JSON text; and what it is
handed over as is that value with rounded numbers and members in order. -/
theorem Exchange.handed_over :
    (∀ d : Datum, d.IsOrdered → d.IsFinite → Lossless d) ∧
    (∀ n : Node, Lossless n) ∧ (∀ e : Element, Lossless e) ∧ (∀ f : Forest, Lossless f) ∧
    (∀ values : Entries String, Lossless values) ∧
    (∀ i : RenderingInput, i.data.IsOrdered → i.data.IsFinite → Lossless i) ∧
    (∀ r : Rendering, r.report.Fits → Lossless r) ∧ (∀ r : Report, r.Fits → Lossless r) ∧
    (∀ s : Settings, s.Fits → Lossless s) ∧ (∀ r : Renderer, r.settings.Fits → Lossless r) ∧
    (∀ e : Expression, e.IsFinite → Lossless e) ∧
    (∀ f : Fault, f.Fits → Lossless f) ∧ (∀ p : Problem, p.Fits → Lossless p) ∧
    ∀ j : Json, ∃ d : Datum, Exchange.ofJson? j = some d ∧ d.IsOrdered ∧
      (j.Plain → d.IsFinite) ∧ Exchange.toJson d = j.settled :=
  ⟨fun _ => lossless_datum, lossless_node, lossless_element, lossless_forest, lossless_values,
    fun _ => lossless_input, fun _ => lossless_rendering, fun _ => lossless_report,
    fun _ => lossless_settings, fun _ => lossless_renderer, fun _ => lossless_expression,
    fun _ => lossless_fault, fun _ => lossless_problem, fun j =>
      ⟨.ofJson j, rfl, Datum.isOrdered_ofJson j, Datum.isFinite_ofJson, Datum.toJson_ofJson j⟩⟩

/-- Three rooms, a letter about them with a ceiling on its copies, and what is wrong with a
condition. The members of an object need not be in order, nor have names of their own. -/
theorem Exchange.handed_over_rooms :
    let d : Datum := .record [("owner", .null), ("rooms", .list [.number (.ofNat 3)])]
    let i : RenderingInput := ⟨.text "[[rooms]]" .nil, .empty, d⟩
    let report : Report := ⟨1, 2, 1, 0, 0, 1, ["owner"], false⟩
    let r : Rendering := ⟨.element ⟨"p", .empty⟩ .nil .nil, report⟩
    let s : Settings := { maxIterations := some 5 }
    let three : Expression := .literal (.number (.ofNat 3))
    let e : Expression := .group (.binary .or three (.literal (.bool true)))
    let p : Problem := .unreadableCondition "(" (.nestingTooDeep 64)
    let j : Json := .object [("b", .integer 3), ("a", .null), ("b", .string "three")]
    (d.IsOrdered ∧ d.IsFinite ∧ Lossless d) ∧ Lossless i ∧ (report.Fits ∧ Lossless report) ∧
      Lossless r ∧ (s.Fits ∧ Lossless s) ∧ Lossless (Renderer.mk s) ∧
      (e.IsFinite ∧ Lossless e) ∧ (p.Fits ∧ Lossless p) ∧
      (Fault.nestingTooDeep 64).Fits ∧ Lossless (Fault.nestingTooDeep 64) ∧
      j.Plain ∧ ∃ d : Datum, Exchange.ofJson? j = some d ∧ d.IsFinite ∧
        Exchange.toJson d = .object [("a", .null), ("b", .string "three")] := by
  intro d i report r s three e p j
  have hthree : (Number.ofNat 3).isFinite = true := by decide +kernel
  have hordered : d.IsOrdered := .record (by decide) (by
    simpa using ⟨.null, .list (List.forall_mem_singleton.2 (.number _))⟩)
  have hfinite : d.IsFinite := .record (by
    simpa using ⟨.null, .list (List.forall_mem_singleton.2 (.number hthree))⟩)
  have hreport : report.Fits := ⟨by decide, by decide, by decide, by decide, by decide, by decide⟩
  have hsettings : s.Fits := fun n hn => Option.some.inj hn ▸ (by decide)
  have he : e.IsFinite := by
    intro n hn
    have hn : n = .ofNat 3 := by simpa [e, three, Expression.tokens] using hn
    rw [hn]
    exact hthree
  have hfault : (Fault.nestingTooDeep 64).Fits := fun n hn => Option.some.inj hn ▸ (by decide)
  have hproblem : p.Fits := fun f hf => Option.some.inj hf ▸ hfault
  have hplain : j.Plain := .object (by
    simpa using ⟨.integer (by decide) (by decide), .null, .string _⟩)
  have hsettled : j.settled = .object [("a", .null), ("b", .string "three")] := by rfl
  obtain ⟨hd, -, -, -, -, hi, hr, hcounts, hs, hrenderer, hexpression, hf, hp, hj⟩ := handed_over
  obtain ⟨x, hread, -, hx, hwritten⟩ := hj j
  exact ⟨⟨hordered, hfinite, hd d hordered hfinite⟩, hi i hordered hfinite,
    ⟨hreport, hcounts report hreport⟩, hr r hreport, ⟨hsettings, hs s hsettings⟩,
    hrenderer ⟨s⟩ hsettings, ⟨he, hexpression e he⟩, ⟨hproblem, hp p hproblem⟩, hfault,
    hf _ hfault, hplain, x, hread, hx hplain, hwritten.trans hsettled⟩

end FormLetter
