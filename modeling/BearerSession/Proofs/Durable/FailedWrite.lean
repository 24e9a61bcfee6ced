import BearerSession.Proofs.Disk.Files
import BearerSession.Proofs.Durable.Corrupted

/-!
# Writes that fail

A call that changes a session file writes it as a whole or raises. Where it raises, whichever
operations of the disk have failed, every file has the bytes it had; only a temporary file may be
left, and only where it cannot be deleted or closed. What is read later is what was read before,
unless the directories that the call has made lead the path to another place.
-/

namespace BearerSession

open Value (find? insertEntry eraseEntry Keyed)

/-- The values that a call writes when it finds the given ones; none where it writes nothing. -/
def StorageCall.written? (values : List (String × String)) :
    StorageCall → Option (List (String × String))
  | .get _ => none
  | .set key value => some (insertEntry key value values)
  | .remove key => if (find? values key).isSome then some (eraseEntry key values) else none

/-- Values that are written have each key once, if those that were found do. -/
theorem StorageCall.keyed_written {values next : List (String × String)} {c : StorageCall}
    (h : Keyed values) (hnext : c.written? values = some next) : Keyed next := by
  cases c with
  | get key => cases hnext
  | set key value =>
    cases hnext
    exact h.insertEntry key value
  | remove key =>
    simp only [written?] at hnext
    split at hnext
    · cases hnext
      exact h.eraseEntry key
    · cases hnext

namespace SessionFile

variable {d f : Disk} {p : Path} {values next : List (String × String)} {c : StorageCall}

/-- What a write that has succeeded has done. -/
structure Written (d : Disk) (p : Path) (next : List (String × String)) (f : Disk) : Prop where
  /-- The file holds the new values and nothing else. -/
  bytes : f.bytes? p = some (encode next)
  /-- No one else may read it. -/
  mode : f.mode? p = some Disk.privateMode
  /-- The new values are read from it. -/
  values : ∀ key, get p key f = .ok (find? next key)
  /-- Every other file is as it was, and there is no new one. -/
  others : ∀ place, place ≠ f.locate p → f.bytesAt? place = d.bytesAt? place

/-- What a write that has failed has left. -/
structure Unwritten (d : Disk) (p : Path) (e : Raised) (f : Disk) : Prop where
  /-- The error says which file could not be written. -/
  error : ∃ detail, e = .session (.unwritableFile p.text detail)
  /-- The file to which the path leads is as it was, or still missing. -/
  bytes : f.bytes? p = d.bytesAt? (f.locate p)
  /-- Where the path leads to the same file as before, all that is read is the same. -/
  values : f.locate p = d.locate p → f.bytes? p = d.bytes? p ∧ ∀ key, get p key f = get p key d
  /-- It does so if no directory had to be made for it or it does not lead back. -/
  place : d.Steady p → f.locate p = d.locate p
  /-- Every other file is as it was, and a new one is the temporary file that cannot be deleted or
  closed. -/
  others : ∀ place, f.bytesAt? place = d.bytesAt? place ∨
    d.faults.strands = true ∧ d.IsTemporary p place

/-- A call that changes the values of a file writes the new ones. -/
theorem run_of_written (hload : load d p = .ok values) (hnext : c.written? values = some next) :
    c.run (Mount.mk d (.file p)) =
      match store p next d with
      | .ok () f => .ok none ⟨f, .file p⟩
      | .error e f => .error e ⟨f, .file p⟩ := by
  cases c with
  | get key => cases hnext
  | set key value =>
    cases hnext
    have hset : set p key value d = store p (insertEntry key value values) d := by
      simp only [set, hload]
    simp only [StorageCall.run, bind, EStateM.bind, Durable.set, Mount.onDisk, hset]
    cases store p (insertEntry key value values) d <;> rfl
  | remove key =>
    simp only [StorageCall.written?] at hnext
    split at hnext
    · next hkey =>
      cases hnext
      have hremove : remove p key d = store p (eraseEntry key values) d := by
        simp only [remove, hload, hkey, if_true]
      simp only [StorageCall.run, bind, EStateM.bind, Durable.remove, Mount.onDisk, hremove]
      cases store p (eraseEntry key values) d <;> rfl
    · cases hnext

/-- What is read from a file depends on its bytes alone. -/
theorem get_congr (h : f.bytes? p = d.bytes? p) (key : String) : get p key f = get p key d := by
  simp only [get, load, h]

/-- Values that have been stored are written. -/
theorem written_of_store (hkeyed : Keyed next) (h : store p next d = .ok () f) :
    Written d p next f := by
  unfold store at h
  cases hwrite : d.writeAtomically p (encode next) (some Disk.privateMode) with
  | mk error f' =>
    rw [hwrite] at h
    cases error with
    | none =>
      cases h
      obtain ⟨hbytes, hmode, hothers⟩ := Disk.writeAtomically_ok hwrite
      obtain ⟨loaded, hdecode, hloaded⟩ := exists_decode_encode hkeyed
      refine ⟨hbytes, hmode, fun key => ?_, hothers⟩
      simp only [get, load, hbytes, hdecode, Except.map, hkeyed.find?_perm hloaded.symm]
    | some error => cases h

/-- Storing values writes them or leaves every file as it was. -/
theorem store_cases (hp : p.endsInName = true) (hkeyed : Keyed next) :
    match store p next d with
    | .ok () f => Written d p next f
    | .error e f => Unwritten d p e f := by
  have hwritten {f : Disk} := written_of_store (d := d) (p := p) (f := f) hkeyed
  unfold store at hwritten ⊢
  cases hwrite : d.writeAtomically p (encode next) (some Disk.privateMode) with
  | mk error f =>
    rw [hwrite] at hwritten
    cases error with
    | none => exact hwritten rfl
    | some error =>
      have hbytes := Disk.bytes?_of_error hwrite hp
      refine ⟨⟨error.text, rfl⟩, hbytes, fun hplace => ?_, fun hs => hs.locate_of_error hwrite,
        Disk.bytesAt?_of_error hwrite⟩
      rw [hplace, d.bytesAt?_locate hp] at hbytes
      exact ⟨hbytes, get_congr hbytes⟩

/-- A call that has to write a session file writes just this file or raises, and then no file has
changed. Where its directories can be made, it raises just when the disk fails to create a file, to
set permissions, to write, to flush, or to replace a file. -/
theorem writes_or_leaves (hp : p.endsInName = true) (hload : load d p = .ok values)
    (hnext : c.written? values = some next) :
    (∀ made, d.makeDirectories p.parent = .ok made → ¬ made.HasDirectory (made.locate p) →
      ((c.run (σ := Mount)).raises ⟨d, .file p⟩ = true ↔
        d.faults.create = true ∨ d.faults.chmod = true ∨ d.faults.write.isSome = true ∨
          d.faults.sync = true ∨ d.faults.replace = true)) ∧
      ∃ f, c.run (Mount.mk d (.file p)) = .ok none ⟨f, .file p⟩ ∧ Written d p next f ∨
        ∃ e, c.run (Mount.mk d (.file p)) = .error e ⟨f, .file p⟩ ∧ Unwritten d p e f := by
  have hrun := run_of_written hload hnext
  refine ⟨fun made hmade hplace => ?_, ?_⟩
  · rw [← Disk.writeAtomically_fails_iff (encode next) hmade hp hplace, Act.raises, hrun, store]
    cases d.writeAtomically p (encode next) (some Disk.privateMode) with
    | mk error f => cases error <;> simp
  · have hcases := store_cases (d := d) hp (StorageCall.keyed_written (keyed_load hload) hnext)
    rw [hrun]
    cases hstore : store p next d with
    | ok u f =>
      rw [hstore] at hcases
      exact ⟨f, .inl ⟨rfl, hcases⟩⟩
    | error e f =>
      rw [hstore] at hcases
      exact ⟨f, .inr ⟨e, rfl, hcases⟩⟩

/-- A disk with a session file, on which some operations fail. -/
def faulty (faults : DiskFaults) : Disk :=
  { withBytes [0x7B, 0x22, 0x6B, 0x22, 0x3A, 0x22, 0x6F, 0x6C, 0x64, 0x22, 0x7D] with faults }

/-- Where neither replacing nor deleting works, the value stays. -/
theorem writes_or_leaves_unreplaced :
    let faults := { DiskFaults.none with replace := true, unlink := true }
    sessionPath.endsInName = true ∧
      load (faulty faults) sessionPath = .ok [("k", "old")] ∧
      (StorageCall.set "k" "new").written? [("k", "old")] = some [("k", "new")] ∧
      ∃ e f, (StorageCall.set "k" "new").run (Mount.mk (faulty faults) (.file sessionPath)) =
            .error e ⟨f, .file sessionPath⟩ ∧
        get sessionPath "k" f = get sessionPath "k" (faulty faults) := by
  intro faults
  have hname : sessionPath.endsInName = true := by decide
  have hload : load (faulty faults) sessionPath = .ok [("k", "old")] := by
    decide +kernel
  have hnext : (StorageCall.set "k" "new").written? [("k", "old")] = some [("k", "new")] := by
    decide
  obtain ⟨hraises, f, hcases⟩ := writes_or_leaves hname hload hnext
  have hmade : (faulty faults).makeDirectories sessionPath.parent = .ok (faulty faults) := by decide
  have hplace : ¬ (faulty faults).HasDirectory ((faulty faults).locate sessionPath) := by
    unfold Disk.HasDirectory
    decide
  have hfails := (hraises _ hmade hplace).mpr (.inr (.inr (.inr (.inr rfl))))
  obtain ⟨hrun, -⟩ | ⟨e, hrun, hleft⟩ := hcases
  · rw [Act.raises, hrun] at hfails
    cases hfails
  · have hsteady : (faulty faults).Steady sessionPath := .inl (by decide)
    exact ⟨hname, hload, hnext, e, f, hrun, (hleft.values (hleft.place hsteady)).2 "k"⟩

/-- A path that leads back from a directory that is not there. -/
def roundabout : Path := ⟨"/", ["a", "..", "session.json"]⟩

/-- Nothing is read at such a path, and after a write that fails something is: the directory that
has been made for the write leads the path to another file. -/
theorem read_after_failure :
    ∃ (d : Disk) (p : Path), load d p = .ok [] ∧ (set p "k" "new").raises d = true ∧
      get p "k" d = .ok none ∧ get p "k" ((set p "k" "new").after d) = .ok (some "old") :=
  ⟨faulty { DiskFaults.none with chmod := true }, roundabout, by decide +kernel, by decide +kernel,
    by decide +kernel, by decide +kernel⟩

end SessionFile

end BearerSession
