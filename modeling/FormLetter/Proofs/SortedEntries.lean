import FormLetter.Data.Entries
import Mathlib.Data.List.Dedup
import Mathlib.Data.List.Sort
import Mathlib.Data.String.Basic

/-!
# Lists of entries put in order

An ascending list of entries is determined by the values that it has for its names. So entries that
are put in one after the other give the list that has each name once, in ascending order, with the
value that it was given last; and entries that ascend already stay as they are.

* `ascending_ext`: ascending lists with the same values are the same.
* `putAll_of_ascending`: ascending entries are not changed by putting them in.
* `lastValues`: the names of a list in ascending order, each with its last value.
  `putAll_eq_lastValues`: what entries give that are put in one after the other.
-/

namespace FormLetter

variable {α : Type} {xs ys done entries : List (String × α)} {name : String}

/-! ## What an ascending list is determined by -/

theorem mem_iff_valueOf? (h : Ascending entries) {value : α} :
    (name, value) ∈ entries ↔ valueOf? name entries = some value := by
  refine ⟨fun hmem => ?_, mem_of_valueOf?⟩
  induction entries with
  | nil => cases hmem
  | cons x rest ih =>
    obtain ⟨hx, hrest⟩ := List.pairwise_cons.1 h
    rw [valueOf?]
    rcases List.mem_cons.1 hmem with rfl | hmem
    · exact if_pos rfl
    · have hne : x.1 ≠ name := ne_of_lt (hx _ hmem)
      rw [if_neg hne, ih hrest hmem]

/-- Ascending lists that give the same values to the same names are the same. -/
theorem ascending_ext (hxs : Ascending xs) (hys : Ascending ys)
    (h : ∀ name, valueOf? name xs = valueOf? name ys) : xs = ys := by
  have hirrefl : Std.Irrefl fun a b : String × α => a.1 < b.1 := ⟨fun a => lt_irrefl a.1⟩
  have hantisymm : Std.Antisymm fun a b : String × α => a.1 < b.1 :=
    ⟨fun a b hab hba => absurd hba (lt_asymm hab)⟩
  refine List.Pairwise.eq_of_mem_iff hxs hys fun e => ?_
  rw [mem_iff_valueOf? hxs, mem_iff_valueOf? hys, h]

/-! ## Putting in entry by entry -/

/-- Puts entries in one after the other. -/
def putAll (done entries : List (String × α)) : List (String × α) :=
  entries.foldl (fun done e => put e.1 e.2 done) done

theorem ascending_putAll (h : Ascending done) (entries : List (String × α)) :
    Ascending (putAll done entries) := by
  induction entries generalizing done with
  | nil => exact h
  | cons e rest ih => exact ih (ascending_put h e.1 e.2)

theorem mem_putAll {e : String × α} (h : e ∈ putAll done entries) : e ∈ done ∨ e ∈ entries := by
  induction entries generalizing done with
  | nil => exact .inl h
  | cons x rest ih =>
    rcases ih h with h | h
    · rcases mem_put h with rfl | h
      · exact .inr (.head _)
      · exact .inl h
    · exact .inr (.tail _ h)

/-- What is put in behind all names is put at the end. -/
theorem put_of_forall_lt (h : ∀ e ∈ entries, e.1 < name) (value : α) :
    put name value entries = entries ++ [(name, value)] := by
  induction entries with
  | nil => rfl
  | cons x rest ih =>
    obtain ⟨hx, hrest⟩ := List.forall_mem_cons.1 h
    rw [put, if_neg (lt_asymm hx), if_neg (ne_of_gt hx), ih hrest, List.cons_append]

/-- Entries that ascend, also behind those put in before, are kept as they are. -/
theorem putAll_of_ascending (h : Ascending (done ++ entries)) :
    putAll done entries = done ++ entries := by
  induction entries generalizing done with
  | nil => exact (List.append_nil done).symm
  | cons e rest ih =>
    have hlt : ∀ x ∈ done, x.1 < e.1 := fun x hx =>
      (List.pairwise_append.1 h).2.2 x hx e (.head _)
    rw [List.append_cons] at h ⊢
    rw [← ih h, ← put_of_forall_lt hlt]
    rfl

/-! ## Last values -/

/-- The value of the last entry with a name. -/
def lastValue? (name : String) : List (String × α) → Option α
  | [] => none
  | (n, value) :: rest => (lastValue? name rest).or (if n = name then some value else none)

/-- The names of a list of entries in ascending order, each with its last value. -/
def lastValues (entries : List (String × α)) : List (String × α) :=
  ((entries.map Prod.fst).dedup.insertionSort (· ≤ ·)).filterMap fun name =>
    (lastValue? name entries).map fun value => (name, value)

theorem isSome_lastValue? : (lastValue? name entries).isSome = true ↔
    name ∈ entries.map Prod.fst := by
  induction entries with
  | nil => simp [lastValue?]
  | cons x rest ih =>
    rw [lastValue?, Option.isSome_or, Bool.or_eq_true, ih, List.map_cons, List.mem_cons, or_comm]
    refine or_congr_left ?_
    split
    · rename_i heq
      simp [heq]
    · rename_i hne
      simp [Ne.symm hne]

theorem ascending_lastValues (entries : List (String × α)) : Ascending (lastValues entries) := by
  have hnodup := ((entries.map Prod.fst).dedup.perm_insertionSort (· ≤ ·)).nodup_iff.2
    (List.nodup_dedup _)
  have hsorted := (entries.map Prod.fst).dedup.pairwise_insertionSort (· ≤ ·)
  refine List.Pairwise.filterMap _ ?_ (hsorted.and hnodup)
  rintro m n ⟨hle, hne⟩ e he e' he'
  obtain ⟨v, -, rfl⟩ := Option.map_eq_some_iff.1 he
  obtain ⟨v', -, rfl⟩ := Option.map_eq_some_iff.1 he'
  exact lt_of_le_of_ne hle hne

theorem valueOf?_lastValues (name : String) (entries : List (String × α)) :
    valueOf? name (lastValues entries) = lastValue? name entries := by
  refine Option.ext fun value => ?_
  rw [← mem_iff_valueOf? (ascending_lastValues entries), lastValues, List.mem_filterMap]
  constructor
  · rintro ⟨n, -, hn⟩
    obtain ⟨v, hv, heq⟩ := Option.map_eq_some_iff.1 hn
    cases heq
    exact hv
  · intro h
    refine ⟨name, ?_, by rw [h]; rfl⟩
    rw [List.mem_insertionSort, List.mem_dedup, ← isSome_lastValue?, h]
    rfl

theorem valueOf?_putAll (name : String) (done entries : List (String × α)) :
    valueOf? name (putAll done entries) = (lastValue? name entries).or (valueOf? name done) := by
  induction entries generalizing done with
  | nil => rfl
  | cons e rest ih =>
    show valueOf? name (putAll (put e.1 e.2 done) rest) = _
    rw [ih, valueOf?_put, lastValue?, Option.or_assoc]
    congr 1
    split <;> rfl

/-- Entries that are put in one after the other give each name once, with its last value. -/
theorem putAll_eq_lastValues (entries : List (String × α)) :
    putAll [] entries = lastValues entries := by
  refine ascending_ext (ascending_putAll .nil entries) (ascending_lastValues entries) fun name => ?_
  rw [valueOf?_putAll, valueOf?_lastValues, valueOf?, Option.or_none]

theorem mem_of_mem_lastValues {e : String × α} (h : e ∈ lastValues entries) : e ∈ entries := by
  rw [← putAll_eq_lastValues] at h
  exact (mem_putAll h).resolve_left List.not_mem_nil

theorem lastValues_of_ascending (h : Ascending entries) : lastValues entries = entries := by
  rw [← putAll_eq_lastValues, show putAll [] entries = entries from putAll_of_ascending h]

/-- Changing values and putting them in order can be done in either order. -/
theorem lastValues_map {β : Type} (f : α → β) (entries : List (String × α)) :
    lastValues (entries.map fun e => (e.1, f e.2)) =
      (lastValues entries).map fun e => (e.1, f e.2) := by
  have hlast (name : String) :
      lastValue? name (entries.map fun e => (e.1, f e.2)) = (lastValue? name entries).map f := by
    induction entries with
    | nil => rfl
    | cons x rest ih =>
      rw [List.map_cons, lastValue?, lastValue?, ih, Option.map_or]
      split <;> rfl
  simp only [lastValues, hlast, List.map_filterMap, List.map_map, Option.map_map]
  rfl

/-- The entries of a list of entries are the list again. -/
theorem Entries.ofList_toList (e : Entries α) : ofList e.toList = e := by
  have hinsert (e : Entries α) (entries : List (String × α)) :
      (entries.foldl (fun e x => e.insert x.1 x.2) e).toList = putAll e.toList entries := by
    induction entries generalizing e with
    | nil => rfl
    | cons x rest ih => exact ih (e.insert x.1 x.2)
  exact ext ((hinsert empty e.toList).trans (putAll_of_ascending e.ascending))

end FormLetter
