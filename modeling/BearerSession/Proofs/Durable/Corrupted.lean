import BearerSession.Proofs.Durable.SharedFile
import BearerSession.Proofs.Durable.Veiled

/-!
# Session files with any bytes

A session file may hold any bytes. Where they are no text of a JSON object, every key reads as
absent, and the next write replaces them. Two kinds of bytes are not taken like this: those that are
no UTF-8, and those in which the JSON reader meets more digits or a deeper nesting than it reads.
Nothing can be read from such a file, and nothing can be written to it.
-/

namespace BearerSession

namespace SessionFile

open Value (Keyed find?)

variable {d : Disk} {p : Path} {bytes : List UInt8} {values : List (String × String)}

/-- Whether bytes are refused as those of a session file, and with which error. -/
inductive Refused (bytes : List UInt8) : Raised → Prop where
  /-- They are no UTF-8. -/
  | undecodable {fault : Text.Utf8.Fault} (h : Text.Utf8.decode bytes = .error fault) :
    Refused bytes (.undecodable fault)
  /-- A whole number in their text has too many digits. -/
  | tooManyDigits {cs : List Char} {count : Nat} (h : Text.Utf8.decode bytes = .ok cs)
    (hread : Json.read (String.ofList (Text.Utf8.normalizeLineEnds cs)) =
      .error (.tooManyDigits count)) :
    Refused bytes (.notJson (.tooManyDigits count))
  /-- A list or map in their text stands inside too many others. -/
  | tooDeep {cs : List Char} {nest : Json.Nest} (h : Text.Utf8.decode bytes = .ok cs)
    (hread : Json.read (String.ofList (Text.Utf8.normalizeLineEnds cs)) =
      .error (.tooDeep nest)) :
    Refused bytes (.notJson (.tooDeep nest))

/-- Nothing else keeps bytes from being loaded. -/
theorem decode_eq_error_iff {e : Raised} : decode bytes = .error e ↔ Refused bytes e := by
  constructor
  · intro h
    unfold decode at h
    split at h
    · next fault hdecode =>
      cases h
      exact .undecodable hdecode
    · next cs hdecode =>
      split at h
      · contradiction
      · next error hmalformed hread =>
        cases h
        cases error with
        | malformed complaint line column position => exact absurd rfl (hmalformed _ _ _ _)
        | tooManyDigits count => exact .tooManyDigits hdecode hread
        | tooDeep nest => exact .tooDeep hdecode hread
      · contradiction
      · contradiction
  · intro h
    cases h with
    | undecodable hdecode => simp only [decode, hdecode]
    | tooManyDigits hdecode hread => simp only [decode, hdecode, hread]
    | tooDeep hdecode hread => simp only [decode, hdecode, hread]

/-- Where bytes hold any values, they are the text of an object with these. -/
theorem exists_reads (h : decode bytes = .ok values) (hvalues : values ≠ []) :
    ∃ entries, Reads bytes entries ∧ values = entries.map fun (k, v) => (k, v.display) := by
  unfold decode at h
  split at h
  · contradiction
  · next cs hdecode =>
    split at h
    · exact absurd (Except.ok.inj h).symm hvalues
    · contradiction
    · next entries hread => exact ⟨entries, ⟨cs, hdecode, hread⟩, (Except.ok.inj h).symm⟩
    · exact absurd (Except.ok.inj h).symm hvalues

/-- What is loaded has each key once. -/
theorem keyed_load (h : load d p = .ok values) : Keyed values := by
  unfold load at h
  split at h
  · cases h
    exact List.nodup_nil
  · exact keyed_decode h

/-- A file that can be loaded and written stands for a memory with its values. -/
theorem mirrors_of_load (hd : d.Receives p) (h : load d p = .ok values) :
    Mirrors d p ⟨values, []⟩ :=
  ⟨hd, rfl, keyed_load h, values, h, .refl _⟩

/-- A file that stands for a memory takes a value under a key, and all else in it stays. -/
theorem exists_set_get {m : Memory} (h : Mirrors d p m) (key value : String) :
    ∃ e, set p key value d = .ok () e ∧ get p key e = .ok (some value) ∧
      ∀ other, other ≠ key → get p other e = get p other d := by
  obtain ⟨e, hset, hmirrors, -⟩ := h.set key value
  refine ⟨e, hset, ?_, fun other hother => ?_⟩
  · rw [hmirrors.get, Value.find?_insertEntry, if_pos rfl]
  · rw [hmirrors.get, h.get, Value.find?_insertEntry, if_neg (Ne.symm hother)]

/-- Of a file whose bytes are refused every operation raises the same error, and the disk stays as
it is. Any other file can be read: it is empty unless its bytes are the text of a JSON object. Where
it can be written, it takes any value under any key, and keeps all that has been there beside it. -/
theorem any_bytes (hbytes : d.bytes? p = some bytes) :
    (∀ e, Refused bytes e → ∀ key,
      get p key d = .error e ∧ remove p key d = .error e d ∧
        ∀ value, set p key value d = .error e d) ∧
      ((∀ e, ¬ Refused bytes e) →
        ((¬ ∃ entries, Reads bytes entries) → ∀ key, get p key d = .ok none) ∧
          (∀ entries, Reads bytes entries → ∀ key,
            get p key d = .ok ((find? entries key).map Value.display)) ∧
          (d.Receives p → ∀ key value, ∃ e, set p key value d = .ok () e ∧
            get p key e = .ok (some value) ∧
              ∀ other, other ≠ key → get p other e = get p other d)) := by
  have hload : load d p = decode bytes := by simp only [load, hbytes]
  refine ⟨fun e he key => ?_, fun hread => ?_⟩
  · rw [decode_eq_error_iff.mpr he] at hload
    simp only [get, remove, set, hload]
    exact ⟨rfl, trivial, fun _ => trivial⟩
  · cases hdecode : decode bytes with
    | error e => exact absurd (decode_eq_error_iff.mp hdecode) (hread e)
    | ok values =>
      have hget (key : String) : get p key d = .ok (find? values key) := by
        simp only [get, hload, hdecode, Except.map]
      refine ⟨fun hnone key => ?_, fun entries hentries key => ?_, fun hd => ?_⟩
      · have hempty : values = [] := by
          by_contra hvalues
          obtain ⟨entries, hentries, -⟩ := exists_reads hdecode hvalues
          exact hnone ⟨entries, hentries⟩
        rw [hget, hempty]
        rfl
      · rw [hentries.decode_eq] at hdecode
        rw [hget, ← Except.ok.inj hdecode, Value.find?_map_snd]
      · exact exists_set_get (mirrors_of_load hd (hload.trans hdecode))

/-- The disk of a session file with the given bytes. -/
def withBytes (bytes : List UInt8) : Disk :=
  Disk.empty.put ["session.json"] (.file bytes Disk.privateMode)

/-- The path of this file. -/
def sessionPath : Path := ⟨"/", ["session.json"]⟩

/-- A file that breaks off inside an object is empty, and takes a value. -/
theorem any_bytes_brokenOff :
    (withBytes [0x7B, 0x22]).bytes? sessionPath = some [0x7B, 0x22] ∧
      get sessionPath "k" (withBytes [0x7B, 0x22]) = .ok none ∧
        ∃ e, set sessionPath "k" "v" (withBytes [0x7B, 0x22]) = .ok () e ∧
          get sessionPath "k" e = .ok (some "v") := by
  have hbytes : (withBytes [0x7B, 0x22]).bytes? sessionPath = some [0x7B, 0x22] := rfl
  have hdecode : decode [0x7B, 0x22] = .ok [] := rfl
  have hread (e : Raised) : ¬ Refused [0x7B, 0x22] e := by
    rw [← decode_eq_error_iff, hdecode]
    nofun
  have hnone : ¬ ∃ entries, Reads [0x7B, 0x22] entries := by
    rintro ⟨entries, cs, hcs, hentries⟩
    obtain rfl : ['\x7b', '"'] = cs := Except.ok.inj hcs
    cases hentries
  obtain ⟨hempty, -, hset⟩ := (any_bytes hbytes).2 hread
  obtain ⟨e, hset, hget, -⟩ := hset ⟨rfl, _, rfl, rfl⟩ "k" "v"
  exact ⟨hbytes, hempty hnone "k", e, hset, hget⟩

/-- A file that is no UTF-8 can neither be read nor be written. -/
theorem refused_noUtf8 :
    ∃ (bytes : List UInt8) (e : Raised), (withBytes bytes).Receives sessionPath ∧
      (withBytes bytes).bytes? sessionPath = some bytes ∧
        get sessionPath "k" (withBytes bytes) = .error e ∧
          set sessionPath "k" "v" (withBytes bytes) = .error e (withBytes bytes) :=
  ⟨[0xFF], _, ⟨rfl, _, rfl, rfl⟩, rfl, rfl, rfl⟩

end SessionFile

end BearerSession
