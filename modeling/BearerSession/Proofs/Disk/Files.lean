import BearerSession.Proofs.Disk.Writing

/-!
# Files that a write leaves alone

Making directories leaves every file as it is, and so does a write that fails, but for a temporary
file that cannot be deleted or closed. This one stands beside the file that was to be written, under
a name of its own. A write that succeeds changes the one file to which its path then leads.
-/

namespace BearerSession

namespace Disk

variable {d e f made : Disk} {p : Path} {bytes : List UInt8} {mode : Option Nat}

/-- The bytes of the file at a place. -/
def bytesAt? (d : Disk) (place : List String) : Option (List UInt8) :=
  match d.entryAt? place with
  | some (.file bytes _) => some bytes
  | _ => none

/-- A path that ends in a name has the bytes of the file at the place to which it leads. -/
theorem bytesAt?_locate (d : Disk) (hp : p.endsInName = true) :
    d.bytesAt? (d.locate p) = d.bytes? p := by
  rw [bytes?, if_pos hp]
  rfl

/-- A file that is put somewhere leaves the other places alone. -/
theorem bytesAt?_put_of_ne {place other : List String} (hplace : place ≠ []) (h : other ≠ place)
    (entry : DiskEntry) : (d.put place entry).bytesAt? other = d.bytesAt? other := by
  unfold bytesAt?
  rw [entryAt?_put d _ _ _ hplace, if_neg h]

/-- What making one directory keeps, making all those on the way to a path keeps too. -/
theorem makeDirectories_keeps {I : Disk → Prop}
    (step : ∀ d e p, d.makeDirectory p = .ok e → I d → I e)
    (h : d.makeDirectories p = .ok e) (hd : I d) : I e := by
  have hways (ways : List Path) (d : Disk) (h : ways.foldlM makeDirectory d = .ok e) (hd : I d) :
      I e := by
    induction ways generalizing d with
    | nil =>
      cases h
      exact hd
    | cons way rest ih =>
      rw [List.foldlM_cons] at h
      cases hfirst : d.makeDirectory way with
      | error e => simp [hfirst, Bind.bind, Except.bind] at h
      | ok f =>
        rw [hfirst] at h
        exact ih f h (step d f way hfirst hd)
  simp only [makeDirectories] at h
  split at h
  · cases h
    exact hd
  · contradiction
  · split at h
    · contradiction
    · exact hways _ d h hd

/-- Making a directory leaves every file as it is. -/
theorem bytesAt?_makeDirectory (h : d.makeDirectory p = .ok e) (place : List String) :
    e.bytesAt? place = d.bytesAt? place := by
  unfold makeDirectory at h
  split at h
  · cases h
    rfl
  · contradiction
  · next hentry =>
    cases h
    have hplace : d.locate p ≠ [] :=
      ne_nil_of_not_hasDirectory (d := d) (by simp [HasDirectory, hentry])
    by_cases hsame : place = d.locate p
    · unfold bytesAt?
      rw [entryAt?_put d _ _ _ hplace, if_pos hsame, hsame, hentry]
    · exact bytesAt?_put_of_ne hplace hsame _

/-- So does making several. -/
theorem bytesAt?_makeDirectories (h : d.makeDirectories p = .ok e) (place : List String) :
    e.bytesAt? place = d.bytesAt? place :=
  makeDirectories_keeps (I := fun e => e.bytesAt? place = d.bytesAt? place)
    (fun _ _ _ hstep hbefore => (bytesAt?_makeDirectory hstep place).trans hbefore) h rfl

/-- Paths start where they did, and the same operations fail. -/
theorem settings_makeDirectories (h : d.makeDirectories p = .ok e) :
    e.workingDirectory = d.workingDirectory ∧ e.faults = d.faults := by
  refine makeDirectories_keeps
    (I := fun e => e.workingDirectory = d.workingDirectory ∧ e.faults = d.faults)
    (fun e f q hstep hbefore => ?_) h ⟨rfl, rfl⟩
  unfold makeDirectory at hstep
  split at hstep
  · cases hstep
    exact hbefore
  · contradiction
  · cases hstep
    exact hbefore

/-- A name leads into the place of the path before it. -/
theorem locate_child (d : Disk) (p : Path) {name : String} (h : name ≠ "..") :
    d.locate (p.child name) = d.locate p ++ [name] := by
  simp only [locate, Path.child, List.foldl_append, List.foldl_cons, List.foldl_nil, step, h,
    false_and, if_false]
  rfl

/-- A path that ends in a name is its parent with this name. -/
theorem locate_of_endsInName (d : Disk) (hp : p.endsInName = true) :
    d.locate p = d.locate p.parent ++ [p.name] := by
  simp only [Path.endsInName, Bool.and_eq_true, Bool.not_eq_true', List.isEmpty_eq_false_iff,
    bne_iff_ne] at hp
  have hchild : p.parent.child p.name = p := by
    obtain ⟨root, parts⟩ := p
    simp only [Path.parent, Path.child, Path.name, List.getLastD_eq_getLast?,
      List.getLast?_eq_some_getLast hp.1, Option.getD_some, List.dropLast_concat_getLast]
  rw [← d.locate_child p.parent hp.2, hchild]

/-- A path without two dots leads along its parts. -/
theorem locate_of_not_mem (d : Disk) (hp : ".." ∉ p.parts) :
    d.locate p = p.start d.workingDirectory ++ p.parts := by
  unfold locate
  generalize p.start d.workingDirectory = place
  generalize p.parts = parts at hp
  induction parts generalizing place with
  | nil => rw [List.foldl_nil, List.append_nil]
  | cons part rest ih =>
    rw [List.mem_cons, not_or] at hp
    rw [List.foldl_cons, ih _ hp.2, step, if_neg fun h => hp.1 h.1.symm, List.append_assoc,
      List.singleton_append]

/-- The temporary file beside a path has a name that is longer than that of the path. -/
theorem exists_locate_temporaryPath (d : Disk) (p : Path) :
    ∃ place name, d.locate (d.temporaryPath p) = place ++ [name] ∧ p.name.length < name.length := by
  have hlength : s!".{p.name}.{serialText d.temporaries}.tmp".length = p.name.length + 14 := by
    simp only [String.length_append, toString, serialText, String.length_ofList, List.length_map,
      List.length_reverse, List.length_range]
    rw [show ".".length = 1 from rfl, show ".tmp".length = 4 from rfl]
    omega
  refine ⟨_, _, d.locate_child _ fun hdots => ?_, by omega⟩
  rw [hdots, show "..".length = 2 from rfl] at hlength
  omega

/-- Whether a place is that of the temporary file with which a write to a path begins. -/
def IsTemporary (d : Disk) (p : Path) (place : List String) : Prop :=
  ∃ made, d.makeDirectories p.parent = .ok made ∧ place = made.locate (made.temporaryPath p)

/-- It is not the place of the file that is written, wherever this one may be. -/
theorem IsTemporary.ne_locate {place : List String} (h : d.IsTemporary p place)
    (hp : p.endsInName = true) (e : Disk) : e.locate p ≠ place := by
  obtain ⟨made, -, rfl⟩ := h
  obtain ⟨beside, name, hplace, hlength⟩ := made.exists_locate_temporaryPath p
  rw [e.locate_of_endsInName hp, hplace]
  intro heq
  have hname : p.name = name := by simpa using congrArg List.getLast? heq
  rw [hname] at hlength
  exact absurd hlength (Nat.lt_irrefl _)

/-- A disk on which a write has begun: its directories are made, and a temporary file has got its
name. -/
def begun (d : Disk) : Disk := { d with temporaries := d.temporaries + 1 }

/-- A write fails halfway as the disk does. -/
theorem write_of_writeFailure? {fault : WriteFault} {reason : DiskError}
    (h : d.writeFailure? p mode = some (.writing fault, reason)) : d.faults.write = some fault := by
  unfold writeFailure? at h
  cases hwrite : d.faults.write with
  | none =>
    simp only [hwrite] at h
    split_ifs at h <;> cases h
  | some other =>
    simp only [hwrite] at h
    split_ifs at h <;> cases h
    rfl

/-- What a failing step leaves is a file, and only where it cannot be deleted or closed. -/
theorem leftover?_eq_some {step : WriteStep} {reason : DiskError} {entry : DiskEntry}
    (hfails : d.writeFailure? p mode = some (step, reason))
    (h : d.leftover? bytes mode step = some entry) :
    d.faults.strands = true ∧ ∃ held bits, entry = .file held bits := by
  have hdeleting (file : DiskEntry)
      (h : (if d.faults.unlink then some file else none) = some entry) :
      d.faults.strands = true ∧ file = entry := by
    split at h
    · next hunlink => exact ⟨by simp [DiskFaults.strands, hunlink], Option.some.inj h⟩
    · cases h
  cases step with
  | creation => cases h
  | permissions =>
    obtain ⟨hstrands, rfl⟩ := hdeleting _ h
    exact ⟨hstrands, _, _, rfl⟩
  | writing fault =>
    simp only [leftover?] at h
    split at h
    · next hleft =>
      cases h
      have hwrite := write_of_writeFailure? hfails
      exact ⟨by simpa [DiskFaults.strands, hwrite, or_comm] using hleft, _, _, rfl⟩
    · cases h
  | sync =>
    obtain ⟨hstrands, rfl⟩ := hdeleting _ h
    exact ⟨hstrands, _, _, rfl⟩
  | replacement =>
    obtain ⟨hstrands, rfl⟩ := hdeleting _ h
    exact ⟨hstrands, _, _, rfl⟩

/-- A write that fails does so before anything has happened, or after its directories have been
made. A temporary file is left only where it cannot be deleted or closed. -/
theorem writeAtomically_error {error : DiskError}
    (h : d.writeAtomically p bytes mode = (some error, f)) :
    f = d ∨ ∃ made, d.makeDirectories p.parent = .ok made ∧
      (f = made.begun ∨ d.faults.strands = true ∧ ∃ held bits,
        f = made.begun.put (made.locate (made.temporaryPath p)) (.file held bits)) := by
  unfold writeAtomically at h
  split at h
  · cases h
    exact .inl rfl
  · next made hmade =>
    simp only at h
    split at h
    · next step reason hfails =>
      refine .inr ⟨made, hmade, ?_⟩
      rw [← (settings_makeDirectories hmade).2]
      obtain ⟨-, rfl⟩ := Prod.mk.inj h
      split
      · next entry hentry =>
        obtain ⟨hstrands, held, bits, rfl⟩ := leftover?_eq_some hfails hentry
        exact .inr ⟨hstrands, held, bits, rfl⟩
      · exact .inl rfl
    · cases h

/-- All files are as before but for the temporary file, which is left only where deleting or closing
fails. -/
theorem bytesAt?_of_error {error : DiskError}
    (h : d.writeAtomically p bytes mode = (some error, f)) (place : List String) :
    f.bytesAt? place = d.bytesAt? place ∨ d.faults.strands = true ∧ d.IsTemporary p place := by
  obtain rfl | ⟨made, hmade, rfl | ⟨hstrands, held, bits, rfl⟩⟩ := writeAtomically_error h
  · exact .inl rfl
  · exact .inl (bytesAt?_makeDirectories hmade place)
  · by_cases hplace : place = made.locate (made.temporaryPath p)
    · exact .inr ⟨hstrands, made, hmade, hplace⟩
    · have hroot : made.locate (made.temporaryPath p) ≠ [] := by
        obtain ⟨beside, name, hbeside, -⟩ := made.exists_locate_temporaryPath p
        simp [hbeside]
      rw [bytesAt?_put_of_ne hroot hplace]
      exact .inl (bytesAt?_makeDirectories hmade place)

/-- So is the file to which the path leads in the end. -/
theorem bytes?_of_error {error : DiskError}
    (h : d.writeAtomically p bytes mode = (some error, f)) (hp : p.endsInName = true) :
    f.bytes? p = d.bytesAt? (f.locate p) := by
  rw [← f.bytesAt?_locate hp]
  obtain hsame | ⟨-, htemporary⟩ := bytesAt?_of_error h (f.locate p)
  · exact hsame
  · exact absurd rfl (htemporary.ne_locate hp f)

/-- Whether a path leads to the same place whatever a write to it makes: it does not lead back by
two dots, or its directory is there already and the name of its temporary file is free. -/
def Steady (d : Disk) (p : Path) : Prop :=
  ".." ∉ p.parts ∨
    d.HasDirectory (d.locate p.parent) ∧ d.entryAt? (d.locate (d.temporaryPath p)) = none

/-- A write that fails leads such a path nowhere else. -/
theorem Steady.locate_of_error (hs : d.Steady p) {error : DiskError}
    (h : d.writeAtomically p bytes mode = (some error, f)) : f.locate p = d.locate p := by
  have hcases := writeAtomically_error h
  rcases hs with hdots | ⟨hparent, hfree⟩
  · have hstart : f.workingDirectory = d.workingDirectory := by
      obtain rfl | ⟨made, hmade, rfl | ⟨-, held, bits, rfl⟩⟩ := hcases
      · rfl
      · exact (settings_makeDirectories hmade).1
      · exact (settings_makeDirectories hmade).1
    rw [locate_of_not_mem f hdots, locate_of_not_mem d hdots, hstart]
  · rw [makeDirectories_of_hasDirectory hparent] at hcases
    obtain rfl | ⟨made, hmade, rfl | ⟨-, held, bits, rfl⟩⟩ := hcases
    · rfl
    · cases hmade
      rfl
    · cases hmade
      refine locate_put_file (d := d.begun) ?_ _ _ p
      simp [HasDirectory, show d.begun.entryAt? = d.entryAt? from rfl, hfree]

/-- A write that succeeds puts the bytes where its path then leads, and leaves all else as it is. -/
theorem writeAtomically_ok (h : d.writeAtomically p bytes mode = (none, f)) :
    f.bytes? p = some bytes ∧ f.mode? p = some (mode.getD privateMode) ∧
      ∀ place, place ≠ f.locate p → f.bytesAt? place = d.bytesAt? place := by
  unfold writeAtomically at h
  split at h
  · cases h
  · next made hmade =>
    simp only at h
    split at h
    · cases h
    · next hfree =>
      obtain rfl : f = made.begun.put (made.locate p) (.file bytes (mode.getD privateMode)) :=
        (Prod.mk.inj h).2.symm
      have hplace := not_hasDirectory_of_writeFailure? hfree
      have hroot := ne_nil_of_not_hasDirectory hplace
      have hname := endsInName_of_writeFailure? hfree
      have hlocate :
          (made.begun.put (made.locate p) (.file bytes (mode.getD privateMode))).locate p =
            made.locate p := locate_put_file (d := made.begun) hplace _ _ p
      have hentry := entryAt?_put made.begun (made.locate p) (made.locate p)
        (.file bytes (mode.getD privateMode)) hroot
      rw [if_pos rfl] at hentry
      refine ⟨?_, ?_, fun place hother => ?_⟩
      · rw [bytes?, if_pos hname, hlocate, hentry]
      · simp only [mode?]
        rw [hlocate, hentry]
      · rw [hlocate] at hother
        exact (bytesAt?_put_of_ne hroot hother _).trans (bytesAt?_makeDirectories hmade place)

/-- Where no directory stands in the place of a file, only the operations of the disk can fail. -/
theorem writeFailure?_isSome_iff {bits : Nat} (hp : p.endsInName = true)
    (hplace : ¬ d.entryAt? (d.locate p) = some .directory) :
    (d.writeFailure? p (some bits)).isSome = true ↔
      d.faults.create = true ∨ d.faults.chmod = true ∨ d.faults.write.isSome = true ∨
        d.faults.sync = true ∨ d.faults.replace = true := by
  simp only [writeFailure?, hp, hplace]
  cases d.faults.create <;> cases d.faults.chmod <;> cases d.faults.write <;>
    cases d.faults.sync <;> cases d.faults.replace <;> simp

/-- So it is with the whole write, where the directories of the path can be made. -/
theorem writeAtomically_fails_iff {bits : Nat} (bytes : List UInt8)
    (hmade : d.makeDirectories p.parent = .ok made) (hp : p.endsInName = true)
    (hplace : ¬ made.HasDirectory (made.locate p)) :
    (d.writeAtomically p bytes (some bits)).1.isSome = true ↔
      d.faults.create = true ∨ d.faults.chmod = true ∨ d.faults.write.isSome = true ∨
        d.faults.sync = true ∨ d.faults.replace = true := by
  unfold HasDirectory at hplace
  rw [← (settings_makeDirectories hmade).2, ← writeFailure?_isSome_iff hp hplace]
  simp only [writeAtomically, hmade]
  cases made.writeFailure? p (some bits) <;> rfl

/-- A disk on which at most directories have been made for a write to a path. -/
structure Prepared (d : Disk) (p : Path) (e : Disk) : Prop where
  /-- No file has changed. -/
  files : ∀ place, e.bytesAt? place = d.bytesAt? place
  /-- The same operations fail. -/
  faults : e.faults = d.faults
  /-- A path that leads to the same place whatever is made still does so. -/
  steady : d.Steady p → e.Steady p ∧ e.locate p = d.locate p

namespace Prepared

theorem refl (d : Disk) (p : Path) : d.Prepared p d := ⟨fun _ => rfl, rfl, fun hs => ⟨hs, rfl⟩⟩

theorem trans (h : d.Prepared p e) (h' : e.Prepared p f) : d.Prepared p f where
  files place := (h'.files place).trans (h.files place)
  faults := h'.faults.trans h.faults
  steady hs :=
    have ⟨hmiddle, hfirst⟩ := h.steady hs
    have ⟨hend, hsecond⟩ := h'.steady hmiddle
    ⟨hend, hsecond.trans hfirst⟩

/-- Making the directories of a path prepares for a write to it. -/
theorem of_makeDirectories (h : d.makeDirectories p.parent = .ok e) : d.Prepared p e where
  files := bytesAt?_makeDirectories h
  faults := (settings_makeDirectories h).2
  steady hs := by
    obtain hdots | ⟨hparent, hfree⟩ := hs
    · refine ⟨.inl hdots, ?_⟩
      rw [locate_of_not_mem e hdots, locate_of_not_mem d hdots, (settings_makeDirectories h).1]
    · cases (makeDirectories_of_hasDirectory hparent).symm.trans h
      exact ⟨.inr ⟨hparent, hfree⟩, rfl⟩

end Prepared

/-- What is left of a disk where a file could not be written. -/
structure Spared (d : Disk) (p : Path) (f : Disk) : Prop where
  /-- Every file is as it was, and a new one is a temporary file that cannot be deleted or closed.
  -/
  files : ∀ place, f.bytesAt? place = d.bytesAt? place ∨
    d.faults.strands = true ∧ ∃ e, d.Prepared p e ∧ e.IsTemporary p place
  /-- The path leads to the same place as before if no directory had to be made for it or it does
  not lead back. -/
  place : d.Steady p → f.locate p = d.locate p
  /-- The file to which it leads is as it was, or still missing. -/
  bytes : p.endsInName = true → f.bytes? p = d.bytesAt? (f.locate p)

/-- A disk that is only prepared is spared. -/
theorem Prepared.spared (h : d.Prepared p e) : d.Spared p e where
  files place := .inl (h.files place)
  place hs := (h.steady hs).2
  bytes hp := (e.bytesAt?_locate hp).symm.trans (h.files (e.locate p))

/-- So is a disk on which the write has failed. -/
theorem spared_of_error {error : DiskError}
    (h : d.writeAtomically p bytes mode = (some error, f)) : d.Spared p f where
  files place := (bytesAt?_of_error h place).imp_right fun ⟨hstrands, htemporary⟩ =>
    ⟨hstrands, d, .refl d p, htemporary⟩
  place hs := hs.locate_of_error h
  bytes := bytes?_of_error h

/-- What is spared after a preparation is spared altogether. -/
theorem Prepared.trans_spared (h : d.Prepared p e) (h' : e.Spared p f) : d.Spared p f where
  files place := by
    obtain hsame | ⟨hstrands, g, hg, htemporary⟩ := h'.files place
    · exact .inl (hsame.trans (h.files place))
    · exact .inr ⟨h.faults ▸ hstrands, g, h.trans hg, htemporary⟩
  place hs :=
    have ⟨hsteady, hplace⟩ := h.steady hs
    (h'.place hsteady).trans hplace
  bytes hp := (h'.bytes hp).trans (h.files (f.locate p))

end Disk

end BearerSession
