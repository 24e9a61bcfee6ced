import BearerSession.Durable.SessionFile
import BearerSession.Proofs.Disk.Writing
import BearerSession.Proofs.Json.Plain

/-!
# What a session file holds

The values that a session file is given are the values that are read from it, in the order of their
keys. Its text is one JSON object with these values for all who read it.
-/

namespace BearerSession

namespace Value

variable {values : List (String × String)}

/-- Texts by key as values. -/
def ofTexts (values : List (String × String)) : List (String × Value) :=
  values.map fun (key, value) => (key, .text value)

/-- Texts have no keys to be put in order. -/
theorem sortedEntries_ofTexts : sortedEntries (ofTexts values) = ofTexts values := by
  induction values with
  | nil => rfl
  | cons entry rest ih => exact congrArg (List.cons _) ih

/-- Values by key with the keys in code point order. -/
def inOrder (values : List (String × String)) : List (String × Value) :=
  (ofTexts values).mergeSort fun a b => a.1 ≤ b.1

/-- Only the order of the values has changed. -/
theorem inOrder_perm (values : List (String × String)) : (inOrder values).Perm (ofTexts values) :=
  List.mergeSort_perm _ _

/-- The keys of texts are those of the values. -/
theorem Keyed.inOrder (h : Keyed values) : Keyed (inOrder values) := by
  refine Keyed.perm ?_ (inOrder_perm values).symm
  unfold Keyed at h ⊢
  rwa [ofTexts, List.map_map]

/-- Maps of texts have a JSON text that reads as they are. -/
theorem entriesReadBack_of_text (depth : Nat) {entries : List (String × Value)}
    (h : ∀ e ∈ entries, ∃ s, e.2 = .text s) : EntriesReadBack depth entries := by
  induction entries with
  | nil => trivial
  | cons entry rest ih =>
    obtain ⟨key, v⟩ := entry
    rw [List.forall_mem_cons] at h
    obtain ⟨s, rfl⟩ : ∃ s, v = .text s := h.1
    exact ⟨trivial, ih h.2⟩

/-- So has what a session file is given. -/
theorem Keyed.readsBack_inOrder (h : Keyed values) :
    (Value.map (Value.inOrder values)).ReadsBack Json.depthLimit := by
  refine ⟨by decide, h.inOrder, entriesReadBack_of_text _ fun e he => ?_⟩
  obtain ⟨entry, -, rfl⟩ := List.mem_map.mp ((inOrder_perm values).mem_iff.mp he)
  exact ⟨entry.2, rfl⟩

end Value

namespace SessionFile

open Value (Keyed)

variable {d : Disk} {p : Path} {values : List (String × String)}

/-- Whether the file at a path is there and its text reads as one JSON object with the given
values. -/
def Holds (d : Disk) (p : Path) (values : List (String × String)) : Prop :=
  ∃ bytes cs entries, d.bytes? p = some bytes ∧ Text.Utf8.decode bytes = .ok cs ∧
    Json.read (String.ofList cs) = .ok (.map entries) ∧ entries.Perm (Value.ofTexts values)

/-- The text of a session file. -/
theorem encode_eq (values : List (String × String)) :
    encode values =
      Text.Utf8.encode (Json.write .file 0 (.map (Value.inOrder values)) ['\n']) := by
  simp only [encode, Value.sorted]
  rw [show (values.map fun (k, v) => (k, Value.text v)) = Value.ofTexts values from rfl,
    Value.sortedEntries_ofTexts]
  rfl

/-- The bytes of a session file read as its text. -/
theorem decode_encode (h : Keyed values) :
    Text.Utf8.decode (encode values) =
      .ok (Json.write .file 0 (.map (Value.inOrder values)) ['\n']) := by
  rw [encode_eq]
  exact (Json.writeFile_spec h.readsBack_inOrder).1

/-- The text of a session file reads as its values. -/
theorem read_text (h : Keyed values) :
    Json.read (String.ofList (Json.write .file 0 (.map (Value.inOrder values)) ['\n'])) =
      .ok (.map (Value.inOrder values)) :=
  (Json.writeFile_spec h.readsBack_inOrder).2.2

/-- The values in the bytes of a session file are the ones it was given. -/
theorem exists_decode_encode (h : Keyed values) :
    ∃ loaded, decode (encode values) = .ok loaded ∧ loaded.Perm values := by
  refine ⟨(Value.inOrder values).map fun e => (e.1, e.2.display), ?_, ?_⟩
  · unfold decode
    rw [decode_encode h]
    simp only [(Json.writeFile_spec h.readsBack_inOrder).2.1, read_text h]
  · have hmap := (Value.inOrder_perm values).map fun e => (e.1, e.2.display)
    rwa [Value.ofTexts, List.map_map, show ((fun (e : String × Value) => (e.1, e.2.display)) ∘
      fun (e : String × String) => (e.1, Value.text e.2)) = id from rfl, List.map_id] at hmap

/-- Where a file can be written, it takes any values with distinct keys, and holds them then. -/
theorem store_eq_ok (hd : d.Receives p) (h : Keyed values) :
    ∃ e, store p values d = .ok () e ∧ e.Receives p ∧ Holds e p values ∧
      ∃ loaded, load e p = .ok loaded ∧ loaded.Perm values := by
  obtain ⟨e, hwrite, hbytes, he⟩ := hd.writeAtomically (encode values)
  obtain ⟨loaded, hdecode, hloaded⟩ := exists_decode_encode h
  refine ⟨e, ?_, he, ?_, loaded, ?_, hloaded⟩
  · simp only [store, hwrite]
  · exact ⟨_, _, _, hbytes, decode_encode h, read_text h, Value.inOrder_perm values⟩
  · simp only [load, hbytes, hdecode]

/-- A file that is missing holds no values. -/
theorem load_of_not_isFile (h : d.isFile p = false) : load d p = .ok [] := by
  have hbytes : d.bytes? p = none := by simpa [Disk.isFile] using h
  simp only [load, hbytes]

end SessionFile

end BearerSession
