import BearerSession.Value.Stored

/-!
# Data in stored form

The values of JSON are their own stored form, as long as they are not nested too deep.
-/

namespace BearerSession.Value

mutual

/-- Whether a value is data as JSON has it: no bytes, members or records, and all numbers finite. -/
def IsData : Value → Prop
  | .null | .bool _ | .int _ | .text _ | .real (.finite ..) => True
  | .list items => ItemsAreData items
  | .map entries => EntriesAreData entries
  | .real _ | .bytes _ | .member .. | .record .. => False

/-- Whether all values of a list are data. -/
def ItemsAreData : List Value → Prop
  | [] => True
  | v :: rest => v.IsData ∧ ItemsAreData rest

/-- Whether all values of a map are data. -/
def EntriesAreData : List (String × Value) → Prop
  | [] => True
  | (_, v) :: rest => v.IsData ∧ EntriesAreData rest

end

mutual

/-- How many values stand inside one another in a value. -/
def nesting : Value → Nat
  | .list items => 1 + itemsNesting items
  | .map entries => 1 + entriesNesting entries
  | _ => 1

/-- How many do at most in the values of a list. -/
def itemsNesting : List Value → Nat
  | [] => 0
  | v :: rest => max v.nesting (itemsNesting rest)

/-- How many do at most in the values of a map. -/
def entriesNesting : List (String × Value) → Nat
  | [] => 0
  | (_, v) :: rest => max v.nesting (entriesNesting rest)

end

theorem entriesAreData_iff {entries : List (String × Value)} :
    EntriesAreData entries ↔ ∀ e ∈ entries, e.2.IsData := by
  induction entries with
  | nil => simp [EntriesAreData]
  | cons e rest ih => rw [EntriesAreData, ih, List.forall_mem_cons]

mutual

/-- Data is its own stored form where it is not nested too deep. -/
theorem storedValue_eq (layout : StoredLayout) (levels : Nat) : (v : Value) → v.IsData →
    storedValue layout levels v = if v.nesting ≤ levels then .ok v else .error .overnested
  | .null, _ | .bool _, _ | .int _, _ | .text _, _ | .real (.finite ..), _ => by
    cases levels <;> simp [storedValue, nesting, storedReal]
  | .list items, h => by
    cases levels with
    | zero => simp [storedValue, nesting]
    | succ n =>
      rw [storedValue, if_neg (Nat.succ_ne_zero n), Nat.add_sub_cancel,
        storedItems_eq layout n items h, nesting, Nat.add_comm 1]
      simp only [Nat.add_le_add_iff_right]
      split <;> rfl
  | .map entries, h => by
    cases levels with
    | zero => simp [storedValue, nesting]
    | succ n =>
      rw [storedValue, if_neg (Nat.succ_ne_zero n), Nat.add_sub_cancel,
        storedEntries_eq layout n entries h, nesting, Nat.add_comm 1]
      simp only [Nat.add_le_add_iff_right]
      split <;> rfl

/-- So are the items of a list. -/
theorem storedItems_eq (layout : StoredLayout) (levels : Nat) : (items : List Value) →
    ItemsAreData items → storedItems layout levels items =
      if itemsNesting items ≤ levels then .ok items else .error .overnested
  | [], _ => rfl
  | v :: rest, h => by
    rw [storedItems, storedValue_eq layout levels v h.1, storedItems_eq layout levels rest h.2,
      itemsNesting]
    simp only [Nat.max_le]
    by_cases hv : v.nesting ≤ levels
    · by_cases hrest : itemsNesting rest ≤ levels <;> simp [hv, hrest, Except.map]
    · simp [hv]

/-- So are the entries of a map. -/
theorem storedEntries_eq (layout : StoredLayout) (levels : Nat) :
    (entries : List (String × Value)) → EntriesAreData entries →
      storedEntries layout levels entries =
        if entriesNesting entries ≤ levels then .ok entries else .error .overnested
  | [], _ => rfl
  | (k, v) :: rest, h => by
    rw [storedEntries, storedValue_eq layout levels v h.1, storedEntries_eq layout levels rest h.2,
      entriesNesting]
    simp only [Nat.max_le]
    by_cases hv : v.nesting ≤ levels
    · by_cases hrest : entriesNesting rest ≤ levels <;> simp [hv, hrest, Except.map]
    · simp [hv]

end

/-- The entries of a map that have a value. -/
def said (entries : List (String × Value)) : List (String × Value) :=
  entries.filter fun e => !e.2.isNull

/-- What is stored of data that a record says besides its fields is what has a value. -/
theorem storedExtras_eq (key : String → String) (levels : Nat) {extras : List (String × Value)}
    (h : EntriesAreData extras) :
    storedExtras ⟨key, false⟩ levels extras =
      if entriesNesting (said extras) ≤ levels then .ok (said extras) else .error .overnested := by
  induction extras with
  | nil => rfl
  | cons e rest ih =>
    obtain ⟨k, v⟩ := e
    rw [storedExtras]
    cases hnull : v.isNull with
    | true =>
      have hsaid : said ((k, v) :: rest) = said rest := by simp [said, hnull]
      rw [hsaid, ← ih h.2]
      simp [StoredLayout.omits, hnull]
    | false =>
      have hsaid : said ((k, v) :: rest) = (k, v) :: said rest := by simp [said, hnull]
      rw [hsaid, storedValue_eq _ levels v h.1, ih h.2, entriesNesting]
      simp only [Nat.max_le]
      by_cases hv : v.nesting ≤ levels
      · by_cases hrest : entriesNesting (said rest) ≤ levels <;>
          simp [StoredLayout.omits, hnull, hv, hrest, Except.map]
      · simp [StoredLayout.omits, hnull, hv]

/-- What is found among them is what has a value there. -/
theorem find?_said {entries : List (String × Value)} {k : String} {v : Value}
    (h : find? (said entries) k = some v) : v.isNull = false := by
  rw [find?, Option.map_eq_some_iff] at h
  obtain ⟨e, he, rfl⟩ := h
  simpa using (List.mem_filter.mp (List.mem_of_find?_eq_some he)).2

end BearerSession.Value
