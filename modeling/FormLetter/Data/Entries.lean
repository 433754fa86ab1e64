/-!
# Entries by name

Field values, attributes and records give at most one value to a name, and list their entries in
ascending order of the names. Names are compared code point by code point. The first section
works on plain lists in that order, the second on the type of such lists.

* `ascending_put`: entering a value keeps the order.
* `valueOf?_put`: an entered value is found under its name, and every other one as before.
* `Entries.get?_insert`, `Entries.get?_erase`: the same of the type.
* `Entries.erase_insert`: a new entry that is taken away again leaves nothing behind.
* `Entries.contains_iff_mem_names`: the names of entries are those that have a value.
-/

namespace FormLetter

/-! ## Ascending lists -/

section

variable {α : Type}

/-- The names ascend, so none occurs twice. -/
def Ascending (entries : List (String × α)) : Prop :=
  entries.Pairwise fun a b => a.1 < b.1

instance (entries : List (String × α)) : Decidable (Ascending entries) :=
  inferInstanceAs (Decidable (List.Pairwise _ _))

/-- The value of the first entry with a name. -/
def valueOf? (name : String) : List (String × α) → Option α
  | [] => none
  | (n, v) :: rest => if n = name then some v else valueOf? name rest

/-- Enters a value at its place, instead of one that the name had before. -/
def put (name : String) (value : α) : List (String × α) → List (String × α)
  | [] => [(name, value)]
  | (n, v) :: rest =>
    if name < n then (name, value) :: (n, v) :: rest
    else if name = n then (name, value) :: rest
    else (n, v) :: put name value rest

theorem lt_of_not_lt_of_ne {s t : String} (h : ¬s < t) (hne : s ≠ t) : t < s :=
  Decidable.byContradiction fun h' => hne (String.le_antisymm h' h)

theorem mem_put {name : String} {value : α} {entries : List (String × α)} {e : String × α}
    (h : e ∈ put name value entries) : e = (name, value) ∨ e ∈ entries := by
  induction entries with
  | nil => exact .inl (List.mem_singleton.1 h)
  | cons x rest ih =>
    rw [put] at h
    split at h
    · simpa using h
    · split at h
      · rcases List.mem_cons.1 h with h | h
        · exact .inl h
        · exact .inr (.tail _ h)
      · rcases List.mem_cons.1 h with h | h
        · exact .inr (h ▸ .head _)
        · exact (ih h).imp_right (.tail _)

theorem ascending_put {entries : List (String × α)} (h : Ascending entries) (name : String)
    (value : α) : Ascending (put name value entries) := by
  induction entries with
  | nil => exact List.pairwise_singleton _ _
  | cons x rest ih =>
    obtain ⟨hx, hrest⟩ := List.pairwise_cons.1 h
    rw [put]
    split
    · rename_i hlt
      refine List.pairwise_cons.2 ⟨fun e he => ?_, h⟩
      rcases List.mem_cons.1 he with rfl | he
      · exact hlt
      · exact String.lt_trans hlt (hx e he)
    · split
      · rename_i heq
        exact List.pairwise_cons.2 ⟨fun e he => by rw [heq]; exact hx e he, hrest⟩
      · rename_i hlt hne
        refine List.pairwise_cons.2 ⟨fun e he => ?_, ih hrest⟩
        rcases mem_put he with rfl | he
        · exact lt_of_not_lt_of_ne hlt hne
        · exact hx e he

theorem valueOf?_put (entries : List (String × α)) (name n : String) (value : α) :
    valueOf? n (put name value entries) = if name = n then some value else valueOf? n entries := by
  induction entries with
  | nil => rfl
  | cons x rest ih =>
    rw [put]
    split
    · rfl
    · split
      · rename_i heq
        rw [valueOf?, valueOf?, ← heq]
        split <;> rfl
      · rename_i hne
        rw [valueOf?, valueOf?, ih]
        by_cases hx : x.1 = n
        · have h : name ≠ n := fun h => hne (h.trans hx.symm)
          rw [if_pos hx, if_pos hx, if_neg h]
        · rw [if_neg hx, if_neg hx]

theorem valueOf?_filter (entries : List (String × α)) (name n : String) :
    valueOf? n (entries.filter fun x => x.1 != name) =
      if name = n then none else valueOf? n entries := by
  induction entries with
  | nil => simp [valueOf?]
  | cons x rest ih =>
    by_cases hx : x.1 = name
    · rw [List.filter_cons_of_neg (by simp [hx]), ih]
      by_cases h : name = n <;> simp [valueOf?, h, hx]
    · rw [List.filter_cons_of_pos (by simp [hx]), valueOf?, ih, valueOf?]
      by_cases h : x.1 = n
      · have : name ≠ n := fun h' => hx (h.trans h'.symm)
        rw [if_pos h, if_pos h, if_neg this]
      · rw [if_neg h, if_neg h]

theorem mem_of_valueOf? {entries : List (String × α)} {name : String} {value : α}
    (h : valueOf? name entries = some value) : (name, value) ∈ entries := by
  induction entries with
  | nil => cases h
  | cons e rest ih =>
    obtain ⟨n, v⟩ := e
    rw [valueOf?] at h
    split at h
    · rename_i heq
      cases h
      rw [heq]
      exact .head _
    · exact .tail _ (ih h)

theorem isSome_valueOf? {entries : List (String × α)} {name : String} :
    (valueOf? name entries).isSome = true ↔ name ∈ entries.map Prod.fst := by
  induction entries with
  | nil => simp [valueOf?]
  | cons x rest ih =>
    rw [valueOf?, List.map_cons, List.mem_cons, ← ih]
    split
    · rename_i h
      simp [h]
    · rename_i h
      simp [Ne.symm h]

/-- Entering a value under a new name and taking it away again changes nothing. -/
theorem filter_put {entries : List (String × α)} {name : String}
    (h : valueOf? name entries = none) (value : α) :
    (put name value entries).filter (fun x => x.1 != name) = entries := by
  have hne : ∀ x ∈ entries, (x.1 != name) = true := by
    intro x hx
    rw [bne_iff_ne]
    rintro rfl
    have hsome := isSome_valueOf?.2 (List.mem_map_of_mem hx)
    rw [h] at hsome
    cases hsome
  induction entries with
  | nil => exact List.filter_cons_of_neg (by simp)
  | cons x rest ih =>
    obtain ⟨hx, hrest⟩ := List.forall_mem_cons.1 hne
    rw [put]
    split
    · rw [List.filter_cons_of_neg (by simp)]
      exact List.filter_eq_self.2 hne
    · split
      · rename_i heq
        rw [bne_iff_ne] at hx
        exact absurd heq.symm hx
      · rw [valueOf?, if_neg (bne_iff_ne.1 hx)] at h
        rw [List.filter_cons, if_pos hx, ih h hrest]

theorem valueOf?_map {β : Type} (f : String → α → β) (entries : List (String × α))
    (name : String) : valueOf? name (entries.map fun x => (x.1, f x.1 x.2)) =
      (valueOf? name entries).map (f name) := by
  induction entries with
  | nil => rfl
  | cons x rest ih =>
    rw [List.map_cons, valueOf?, valueOf?, ih]
    split
    · rename_i h
      rw [h]
      rfl
    · rfl

end

/-! ## The type of entries -/

/-- Values by name, in ascending order of the names. -/
structure Entries (α : Type) where
  toList : List (String × α)
  ascending : Ascending toList
  deriving DecidableEq

namespace Entries

variable {α β : Type}

/-- No entries. -/
def empty : Entries α := ⟨[], List.Pairwise.nil⟩

instance : Inhabited (Entries α) := ⟨empty⟩

/-- The value that a name has. -/
def get? (e : Entries α) (name : String) : Option α := valueOf? name e.toList

/-- Whether a name has a value. -/
def contains (e : Entries α) (name : String) : Bool := (e.get? name).isSome

/-- Gives a value to a name, instead of one that it had before. -/
def insert (e : Entries α) (name : String) (value : α) : Entries α :=
  ⟨put name value e.toList, ascending_put e.ascending name value⟩

/-- Takes the value of a name away. -/
def erase (e : Entries α) (name : String) : Entries α :=
  ⟨e.toList.filter fun x => x.1 != name, e.ascending.filter _⟩

/-- How many names have a value. -/
def size (e : Entries α) : Nat := e.toList.length

/-- The names that have a value, in ascending order. -/
def names (e : Entries α) : List String := e.toList.map Prod.fst

/-- Changes every value, with its name at hand. -/
def mapValues (f : String → α → β) (e : Entries α) : Entries β :=
  ⟨e.toList.map fun x => (x.1, f x.1 x.2), by
    unfold Ascending
    rw [List.pairwise_map]
    exact e.ascending⟩

/-- The entries of a list. Of several for one name the last one counts. -/
def ofList (entries : List (String × α)) : Entries α :=
  entries.foldl (fun e x => e.insert x.1 x.2) empty

theorem ext {e e' : Entries α} (h : e.toList = e'.toList) : e = e' := by
  cases e
  cases e'
  cases h
  rfl

theorem contains_iff_mem_names {e : Entries α} {name : String} :
    e.contains name = true ↔ name ∈ e.names := isSome_valueOf?

@[simp] theorem get?_empty (name : String) : (empty : Entries α).get? name = none := rfl

@[simp] theorem get?_insert (e : Entries α) (name n : String) (value : α) :
    (e.insert name value).get? n = if name = n then some value else e.get? n :=
  valueOf?_put e.toList name n value

@[simp] theorem get?_erase (e : Entries α) (name n : String) :
    (e.erase name).get? n = if name = n then none else e.get? n :=
  valueOf?_filter e.toList name n

theorem erase_insert {e : Entries α} {name : String} (h : e.get? name = none) (value : α) :
    (e.insert name value).erase name = e :=
  ext (filter_put h value)

@[simp] theorem names_mapValues (f : String → α → β) (e : Entries α) :
    (e.mapValues f).names = e.names := by
  simp [names, mapValues]

@[simp] theorem get?_mapValues (f : String → α → β) (e : Entries α) (name : String) :
    (e.mapValues f).get? name = (e.get? name).map (f name) :=
  valueOf?_map f e.toList name

@[simp] theorem contains_mapValues (f : String → α → β) (e : Entries α) (name : String) :
    (e.mapValues f).contains name = e.contains name := by
  simp [contains]

@[simp] theorem contains_erase (e : Entries α) (name n : String) :
    (e.erase name).contains n = (name != n && e.contains n) := by
  unfold contains
  rw [get?_erase]
  by_cases h : name = n <;> simp [h]

end Entries

end FormLetter
