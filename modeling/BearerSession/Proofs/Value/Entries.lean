import Mathlib.Data.List.Nodup
import BearerSession.Value.Basic

/-!
# Maps with each key once

A map whose keys are distinct is determined by what is found under its keys, up to the order of its
entries. Writing and erasing keep the keys distinct, and pairs with distinct keys make a map of just
these pairs.
-/

namespace BearerSession.Value

variable {α : Type} {entries : List (String × α)} {key : String} {value : α}

/-- Whether each key stands at most once in a map. -/
def Keyed (entries : List (String × α)) : Prop := (entries.map Prod.fst).Nodup

/-- A new key goes last. -/
theorem insertEntry_of_not_mem (h : key ∉ entries.map Prod.fst) :
    insertEntry key value entries = entries ++ [(key, value)] := by
  induction entries with
  | nil => rfl
  | cons entry rest ih =>
    rw [List.map_cons, List.mem_cons, not_or] at h
    rw [insertEntry, if_neg (Ne.symm h.1), ih h.2, List.cons_append]

/-- Writing a key adds it to the keys unless it is one of them. -/
theorem keys_insertEntry (entries : List (String × α)) (key : String) (value : α) :
    (insertEntry key value entries).map Prod.fst =
      if key ∈ entries.map Prod.fst then entries.map Prod.fst
      else entries.map Prod.fst ++ [key] := by
  induction entries with
  | nil => simp [insertEntry]
  | cons entry rest ih =>
    by_cases hk : entry.1 = key
    · simp [insertEntry, hk]
    · have hne : key ≠ entry.1 := Ne.symm hk
      rw [insertEntry, if_neg hk, List.map_cons, ih]
      simp only [List.map_cons, List.mem_cons, hne, false_or]
      split <;> simp

/-- Writing a key keeps the keys distinct. -/
theorem Keyed.insertEntry (h : Keyed entries) (key : String) (value : α) :
    Keyed (insertEntry key value entries) := by
  unfold Keyed at h ⊢
  rw [keys_insertEntry]
  split
  · exact h
  · next hk => exact List.nodup_append_comm.mp (List.nodup_cons.mpr ⟨hk, h⟩)

/-- Erasing a key keeps the keys distinct. -/
theorem Keyed.eraseEntry (h : Keyed entries) (key : String) : Keyed (eraseEntry key entries) :=
  h.sublist (List.filter_sublist.map _)

/-- So does any other order of the entries. -/
theorem Keyed.perm (h : Keyed entries) {other : List (String × α)} (hp : entries.Perm other) :
    Keyed other :=
  (hp.map Prod.fst).nodup_iff.mp h

/-- Where the keys are distinct, a value is found under a key just where an entry says so. -/
theorem Keyed.find?_eq_some_iff (h : Keyed entries) :
    find? entries key = some value ↔ (key, value) ∈ entries := by
  induction entries with
  | nil => simp [find?]
  | cons entry rest ih =>
    obtain ⟨k, v⟩ := entry
    obtain ⟨hnew, hrest⟩ := List.nodup_cons.mp h
    have hfound := ih hrest
    unfold find? at hfound ⊢
    by_cases hk : k = key
    · subst hk
      have hother : (k, value) ∉ rest := fun hmem =>
        hnew (List.mem_map.mpr ⟨(k, value), hmem, rfl⟩)
      simp [hother, eq_comm]
    · simp only [List.find?_cons, hk, decide_false, List.mem_cons, Prod.mk.injEq, Ne.symm hk,
        false_and, false_or]
      exact hfound

/-- The order of the entries does not matter for what is found. -/
theorem Keyed.find?_perm (h : Keyed entries) {other : List (String × α)} (hp : entries.Perm other)
    (key : String) : find? other key = find? entries key := by
  refine Option.ext fun value => ?_
  rw [(h.perm hp).find?_eq_some_iff, h.find?_eq_some_iff]
  exact hp.symm.mem_iff

/-- What is found decides on the entries but for their order. -/
theorem Keyed.perm_of_find? (h : Keyed entries) {other : List (String × α)} (hother : Keyed other)
    (hfind : ∀ key, find? entries key = find? other key) : entries.Perm other := by
  refine (List.perm_ext_iff_of_nodup (.of_map _ h) (.of_map _ hother)).mpr fun ⟨key, value⟩ => ?_
  rw [← h.find?_eq_some_iff, ← hother.find?_eq_some_iff, hfind]

/-- Writing a key does the same to a map in any order. -/
theorem Keyed.insertEntry_perm (h : Keyed entries) {other : List (String × α)}
    (hp : entries.Perm other) (key : String) (value : α) :
    (Value.insertEntry key value entries).Perm (Value.insertEntry key value other) := by
  refine (h.insertEntry key value).perm_of_find? ((h.perm hp).insertEntry key value) fun other => ?_
  rw [find?_insertEntry, find?_insertEntry, h.find?_perm hp]

/-- Pairs with new and distinct keys are added to a map as they are. -/
theorem Keyed.foldl_insertEntry {pairs : List (String × α)} (h : Keyed (entries ++ pairs)) :
    pairs.foldl (fun entries (k, v) => Value.insertEntry k v entries) entries =
      entries ++ pairs := by
  induction pairs generalizing entries with
  | nil => simp
  | cons pair rest ih =>
    obtain ⟨k, v⟩ := pair
    have hnew : k ∉ entries.map Prod.fst := by
      unfold Keyed at h
      rw [List.map_append, List.map_cons] at h
      exact fun hmem => List.disjoint_of_nodup_append h hmem List.mem_cons_self
    simp only [List.foldl_cons]
    rw [insertEntry_of_not_mem hnew, ih (by simpa using h), List.append_assoc,
      List.singleton_append]

/-- Pairs with distinct keys make a map of just these pairs. -/
theorem Keyed.entriesOf_eq (h : Keyed entries) : entriesOf entries = entries :=
  Keyed.foldl_insertEntry (show Keyed ([] ++ entries) from h)

/-- Pairs make a map with each key once, whatever their keys. -/
theorem keyed_entriesOf (pairs : List (String × α)) : Keyed (entriesOf pairs) := by
  suffices ∀ entries : List (String × α), Keyed entries →
      Keyed (pairs.foldl (fun entries (k, v) => insertEntry k v entries) entries) from
    this [] List.nodup_nil
  induction pairs with
  | nil => exact fun _ h => h
  | cons pair rest ih => exact fun entries h => ih _ (h.insertEntry pair.1 pair.2)

/-- A written map has no entries but the one just written and those from before. -/
theorem forall_mem_insertEntry {P : String × α → Prop} (h : ∀ e ∈ entries, P e)
    (hnew : P (key, value)) : ∀ e ∈ insertEntry key value entries, P e := by
  induction entries with
  | nil => exact List.forall_mem_singleton.mpr hnew
  | cons entry rest ih =>
    rw [List.forall_mem_cons] at h
    unfold insertEntry
    split
    · next hk => exact List.forall_mem_cons.mpr ⟨hk ▸ hnew, h.2⟩
    · exact List.forall_mem_cons.mpr ⟨h.1, ih h.2⟩

/-- A map of pairs has no other entries than these. -/
theorem forall_mem_entriesOf {P : String × α → Prop} {pairs : List (String × α)}
    (h : ∀ e ∈ pairs, P e) : ∀ e ∈ entriesOf pairs, P e := by
  suffices ∀ entries : List (String × α), (∀ e ∈ entries, P e) →
      ∀ e ∈ pairs.foldl (fun entries (k, v) => insertEntry k v entries) entries, P e from
    this [] (List.forall_mem_nil _)
  induction pairs with
  | nil => exact fun _ h => h
  | cons pair rest ih =>
    rw [List.forall_mem_cons] at h
    exact fun entries hentries => ih h.2 _ (forall_mem_insertEntry hentries h.1)

end BearerSession.Value
