import FormLetter.Field.Source

/-!
# Joined paths

A path is followed name by name, so two paths joined by a point are followed one after the other,
whatever points they begin or end with. What a path names depends on its names alone, and everything
that it goes through is a record. Field values from items are looked up by paths, too: looking up a
joined path in an item is looking up its second part in what its first part names.

* `pathNames`: the names that stand between the points of a path. `segments_eq_pathNames`: these are
  the ones that it is followed through.
* `Datum.exists_record_of_follow`: a datum that is gone through is a record.
* `FieldSource.get?_joined`: looking up a joined path in an item.
* `Datum.joined_paths`: the laws of paths together.
-/

namespace FormLetter

/-! ## Names of a path -/

/-- The names of a path: what stands between its points, where that is not empty. -/
def pathNames (path : String) : List String :=
  ((path.toList.splitOn '.').filter fun part => part ≠ []).map String.ofList

theorem splitDots_eq_splitOn (cs : List Char) : splitDots cs = cs.splitOn '.' := by
  rw [List.splitOn_eq_splitOnP]
  induction cs with
  | nil => rfl
  | cons c cs ih =>
    rw [splitDots, ih, List.splitOnP_cons_eq_if_modifyHead]
    by_cases hc : c = '.'
    · simp [hc]
    · have hne := List.splitOnP_ne_nil (· == '.') cs
      obtain ⟨part, parts, hparts⟩ := List.exists_cons_of_ne_nil hne
      simp [hc, hparts]

theorem segments_eq_pathNames (path : String) : segments path.toList = pathNames path := by
  rw [segments, pathNames, splitDots_eq_splitOn]
  congr 2
  funext part
  cases part <;> rfl

/-- A path of points alone has no names. -/
theorem segments_of_points {cs : List Char} (h : ∀ c ∈ cs, c = '.') : segments cs = [] := by
  induction cs with
  | nil => rfl
  | cons c cs ih =>
    obtain ⟨rfl, hcs⟩ := List.forall_mem_cons.1 h
    have hjoined := segments_append_dot [] cs
    rw [List.nil_append, ih hcs] at hjoined
    exact hjoined

/-! ## Following names -/

namespace Datum

variable {d x : Datum}

/-- Only records have anything under a name. -/
theorem exists_record_of_get? {name : String} (h : d.get? name = some x) :
    ∃ entries, d = .record entries := by
  cases d with
  | record entries => exact ⟨entries, rfl⟩
  | _ => cases h

/-- Where names lead on from is a record. -/
theorem exists_record_of_follow {names more : List String} (h : d.follow (names ++ more) = some x)
    (hmore : more ≠ []) : ∃ entries, d.follow names = some (.record entries) := by
  rw [follow_append, Option.bind_eq_some_iff] at h
  obtain ⟨y, hy, hx⟩ := h
  obtain ⟨name, more, rfl⟩ := List.exists_cons_of_ne_nil hmore
  rw [follow_cons, Option.bind_eq_some_iff] at hx
  obtain ⟨z, hz, -⟩ := hx
  obtain ⟨entries, rfl⟩ := exists_record_of_get? hz
  exact ⟨entries, hy⟩

end Datum

/-! ## Looking up in items -/

/-- The value of a joined path within an item is that of its second part within what the first part
names. -/
theorem Binding.get?_joined (name : String) (item : Datum) (first second : String) :
    (Binding.mk name item).get? (first ++ "." ++ second) =
      (item.at? first).bind fun x => (Binding.mk name x).get? second := by
  unfold get?
  rw [Datum.at?_append_dot]
  cases item.at? first <;> rfl

theorem FieldSource.get?_joined (values : Entries String) (name : String) (item : Datum)
    (conditionAttribute : Option String) (first second : String) :
    get? ⟨values, some ⟨name, item⟩, conditionAttribute⟩ (name ++ "." ++ first ++ "." ++ second) =
      (item.at? first).bind fun x =>
        get? ⟨values, some ⟨name, x⟩, conditionAttribute⟩ (name ++ "." ++ second) := by
  have hwithin (x : Datum) (rest : String) :
      get? ⟨values, some ⟨name, x⟩, conditionAttribute⟩ (name ++ "." ++ rest) =
        (Binding.mk name x).get? rest :=
    get?_of_pathWithin? rfl (Binding.pathWithin?_eq_some_iff.2 rfl)
  have hjoin : name ++ "." ++ first ++ "." ++ second = name ++ "." ++ (first ++ "." ++ second) := by
    simp only [String.append_assoc]
  simp only [hjoin, hwithin]
  exact Binding.get?_joined name item first second

/-! ## The laws of paths -/

/-- Paths compose. A joined path is followed by its first part, then by its second; what a path
names depends on its names alone; whatever it goes through before it ends is a record; and without
any name it stays where it begins. So a field that is looked up by a joined path in the item of a
repeat is looked up by the second part in what the first part names there, and has no value if that
names nothing. -/
theorem Datum.joined_paths (d : Datum) :
    (∀ first second, d.at? (first ++ "." ++ second) =
      (d.at? first).bind fun x => x.at? second) ∧
    (∀ path other, pathNames path = pathNames other → d.at? path = d.at? other) ∧
    (∀ path x, d.at? path = some x → ∀ names more, pathNames path = names ++ more → more ≠ [] →
      ∃ entries, d.follow names = some (.record entries)) ∧
    (∀ path : String, (∀ c ∈ path.toList, c = '.') → d.at? path = some d) ∧
    ∀ values name conditionAttribute first second,
      FieldSource.get? ⟨values, some ⟨name, d⟩, conditionAttribute⟩
          (name ++ "." ++ first ++ "." ++ second) =
        (d.at? first).bind fun x =>
          FieldSource.get? ⟨values, some ⟨name, x⟩, conditionAttribute⟩ (name ++ "." ++ second) := by
  have hnames (path : String) : d.at? path = d.follow (pathNames path) := by
    rw [at?, segments_eq_pathNames]
  refine ⟨at?_append_dot d, fun path other h => ?_, fun path x hx names more h hmore => ?_,
    fun path h => ?_, fun values name conditionAttribute first second =>
      FieldSource.get?_joined values name d conditionAttribute first second⟩
  · rw [hnames, hnames, h]
  · rw [hnames, h] at hx
    exact exists_record_of_follow hx hmore
  · rw [at?, segments_of_points h, follow_nil]

/-- Points around the names of a path and between them do not matter. -/
theorem Datum.joined_paths_points :
    let address : Datum := .record [("town", .text "Oslo")]
    let d : Datum := .record [("buyer", .record [("address", address)])]
    (pathNames ".buyer..address." = pathNames "buyer.address" ∧
        d.at? ".buyer..address." = d.at? "buyer.address") ∧
      (d.at? "buyer.address" = some address ∧
        pathNames "buyer.address" = ["buyer"] ++ ["address"] ∧ ["address"] ≠ [] ∧
        ∃ entries, d.follow ["buyer"] = some (.record entries)) ∧
      (∀ c ∈ "..".toList, c = '.') ∧ d.at? ".." = some d := by
  intro address d
  have hpoints : pathNames ".buyer..address." = pathNames "buyer.address" := by decide +kernel
  have hfound : d.at? "buyer.address" = some address := by rfl
  have hnames : pathNames "buyer.address" = ["buyer"] ++ ["address"] := by decide +kernel
  have hall : ∀ c ∈ "..".toList, c = '.' := by simp
  obtain ⟨-, hsame, hrecord, hwhole, -⟩ := d.joined_paths
  exact ⟨⟨hpoints, hsame _ _ hpoints⟩,
    ⟨hfound, hnames, by simp, hrecord _ _ hfound _ _ hnames (by simp)⟩, hall, hwhole _ hall⟩

-- Neither the items of a list nor the characters of a text have names.
example :
    let d : Datum := .record [("buyers", .list [.record [("name", .text "Kari")]])]
    (d.at? "buyers.name", d.at? "buyers.0") = (none, none) := rfl

end FormLetter
