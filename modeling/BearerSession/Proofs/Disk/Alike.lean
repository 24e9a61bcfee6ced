import BearerSession.Proofs.Disk.Files

/-!
# Disks with files that are alike

Two disks are alike when the same stands at each of their places, up to bytes of files that are
alike there. No operation of a disk looks into the bytes of a file, so it does the same on both: it
fails for the same reason, or leaves disks that are alike again. Only a write that fails halfway
leaves a temporary file that ends wherever the disk has cut it off, which may be at different points
of bytes that are alike; what counts as alike may therefore depend on the place and on what fails.
-/

namespace BearerSession

/-- Entries that are alike: directories, or files of one mode with bytes that are alike. -/
inductive DiskEntry.Alike (same : List UInt8 → List UInt8 → Prop) : DiskEntry → DiskEntry → Prop
  /-- Two directories. -/
  | directory : DiskEntry.Alike same .directory .directory
  /-- Two files. -/
  | file {bytes bytes' : List UInt8} (h : same bytes bytes') (mode : Nat) :
      DiskEntry.Alike same (.file bytes mode) (.file bytes' mode)

/-- Disks that are alike. -/
structure Disk.Alike (same : DiskFaults → List String → List UInt8 → List UInt8 → Prop)
    (d d' : Disk) : Prop where
  /-- At each place stand entries that are alike there, if any. -/
  entry : ∀ place,
    Option.Rel (DiskEntry.Alike (same d.faults place)) (d.entryAt? place) (d'.entryAt? place)
  /-- The cache directories hold the same. -/
  caches : d.caches = d'.caches
  /-- The same operations fail. -/
  faults : d.faults = d'.faults
  /-- Relative paths start at the same place. -/
  workingDirectory : d.workingDirectory = d'.workingDirectory
  /-- As many temporary files have been made. -/
  temporaries : d.temporaries = d'.temporaries

namespace Disk

variable {same same' : DiskFaults → List String → List UInt8 → List UInt8 → Prop} {d d' : Disk}
  {p : Path} {place : List String}

/-- Dropping an entry leaves the others where they are looked up. -/
theorem lookup_filter_ne {place other : List String} (h : other ≠ place)
    (entries : List (List String × DiskEntry)) :
    (entries.filter fun e => e.1 ≠ place).lookup other = entries.lookup other := by
  induction entries with
  | nil => rfl
  | cons head rest ih =>
    obtain ⟨key, entry⟩ := head
    by_cases hkey : key = place
    · have hother : (other == key) = false := by simpa [hkey] using h
      rw [List.filter_cons_of_neg (by simpa using hkey), ih, List.lookup_cons, hother]
    · rw [List.filter_cons_of_pos (by simpa using hkey), List.lookup_cons, List.lookup_cons, ih]

/-- Putting something in the place of the root changes nothing that can be seen. -/
theorem entryAt?_put_root (d : Disk) (other : List String) (entry : DiskEntry) :
    (d.put [] entry).entryAt? other = d.entryAt? other := by
  rw [entryAt?, entryAt?]
  split
  · rfl
  · next hother =>
    have hkey : (other == []) = false := by simpa using hother
    rw [put, List.lookup_cons, hkey]
    exact lookup_filter_ne hother d.entries

/-- Nor does erasing it. -/
theorem entryAt?_erase_root (d : Disk) (other : List String) :
    (d.erase []).entryAt? other = d.entryAt? other := by
  rw [entryAt?, entryAt?]
  split
  · rfl
  · next hother => exact lookup_filter_ne hother d.entries

namespace Alike

/-- A disk is like itself. -/
theorem refl (hsame : ∀ faults place bytes, same faults place bytes bytes) (d : Disk) :
    Alike same d d := by
  refine ⟨fun place => ?_, rfl, rfl, rfl, rfl⟩
  cases d.entryAt? place with
  | none => exact .none
  | some entry =>
    cases entry with
    | directory => exact .some .directory
    | file bytes mode => exact .some (.file (hsame _ place bytes) mode)

variable (h : Alike same d d')

include h

/-- Where more is alike, disks stay alike. -/
theorem mono (hsame : ∀ faults place bytes bytes',
    same faults place bytes bytes' → same' faults place bytes bytes') : Alike same' d d' := by
  refine ⟨fun place => ?_, h.caches, h.faults, h.workingDirectory, h.temporaries⟩
  have hentry := h.entry place
  generalize d.entryAt? place = e at hentry ⊢
  generalize d'.entryAt? place = e' at hentry ⊢
  cases hentry with
  | none => exact .none
  | some hentry =>
    cases hentry with
    | directory => exact .some .directory
    | file hbytes mode => exact .some (.file (hsame _ _ _ _ hbytes) mode)

/-- Directories stand at the same places. -/
theorem hasDirectory_iff (place : List String) : d.HasDirectory place ↔ d'.HasDirectory place := by
  have hentry := h.entry place
  unfold HasDirectory
  generalize d.entryAt? place = e at hentry ⊢
  generalize d'.entryAt? place = e' at hentry ⊢
  cases hentry with
  | none => rfl
  | some hentry => cases hentry <;> simp

/-- Paths lead to the same places. -/
theorem locate_eq (p : Path) : d.locate p = d'.locate p := by
  have hway := locate_congr (d := d') (e := d) (p := p) h.workingDirectory (Nat.le_refl _)
    fun m _ => h.hasDirectory_iff _
  rwa [upTo_length] at hway

/-- Entries that are alike at a place may be put there. -/
theorem put {entry entry' : DiskEntry} {place : List String}
    (hentry : DiskEntry.Alike (same d.faults place) entry entry') :
    Alike same (d.put place entry) (d'.put place entry') := by
  refine ⟨fun other => ?_, h.caches, h.faults, h.workingDirectory, h.temporaries⟩
  by_cases hplace : place = []
  · rw [hplace, entryAt?_put_root, entryAt?_put_root]
    exact h.entry other
  · rw [entryAt?_put _ _ _ _ hplace, entryAt?_put _ _ _ _ hplace]
    split
    · next hother =>
      rw [hother]
      exact .some hentry
    · exact h.entry other

/-- A place may be erased. -/
theorem erase (place : List String) : Alike same (d.erase place) (d'.erase place) := by
  refine ⟨fun other => ?_, h.caches, h.faults, h.workingDirectory, h.temporaries⟩
  by_cases hplace : place = []
  · rw [hplace, entryAt?_erase_root, entryAt?_erase_root]
    exact h.entry other
  · rw [entryAt?_erase _ _ _ hplace, entryAt?_erase _ _ _ hplace]
    split
    · exact .none
    · exact h.entry other

/-- The next temporary file gets the same path. -/
theorem temporaryPath_eq (p : Path) : d.temporaryPath p = d'.temporaryPath p := by
  rw [temporaryPath, temporaryPath, h.workingDirectory, h.temporaries]

/-- Bytes that are read at a path are alike. -/
theorem bytes? (p : Path) :
    Option.Rel (same d.faults (d.locate p)) (d.bytes? p) (d'.bytes? p) := by
  have hentry := h.entry (d.locate p)
  rw [Disk.bytes?, Disk.bytes?, ← h.locate_eq p]
  split
  case isFalse => exact .none
  generalize d.entryAt? (d.locate p) = e at hentry ⊢
  generalize d'.entryAt? (d.locate p) = e' at hentry ⊢
  cases hentry with
  | none => exact .none
  | some hentry =>
    cases hentry with
    | directory => exact .none
    | file hbytes mode => exact .some hbytes

end Alike

/-- What comes of an operation on disks that are alike: the same refusal, or disks that are alike.
-/
inductive SameEnd {ε : Type} (same : DiskFaults → List String → List UInt8 → List UInt8 → Prop) :
    Except ε Disk → Except ε Disk → Prop
  /-- Both are refused for one reason. -/
  | error (e : ε) : SameEnd same (.error e) (.error e)
  /-- Both leave disks that are alike. -/
  | ok {d d' : Disk} (h : Alike same d d') : SameEnd same (.ok d) (.ok d')

namespace Alike

variable (h : Alike same d d')

include h

theorem makeDirectory (p : Path) : SameEnd same (d.makeDirectory p) (d'.makeDirectory p) := by
  have hentry := h.entry (d.locate p)
  rw [Disk.makeDirectory, Disk.makeDirectory, ← h.locate_eq p]
  generalize d.entryAt? (d.locate p) = e at hentry ⊢
  generalize d'.entryAt? (d.locate p) = e' at hentry ⊢
  cases hentry with
  | none => exact .ok (h.put .directory)
  | some hentry =>
    cases hentry with
    | directory => exact .ok h
    | file hbytes mode => exact .error _

/-- A file stands in the way on both or on none. -/
theorem isBlocked_eq (place : List String) : d.isBlocked place = d'.isBlocked place := by
  unfold isBlocked
  congr 1
  funext way
  have hentry := h.entry way
  generalize d.entryAt? way = e at hentry ⊢
  generalize d'.entryAt? way = e' at hentry ⊢
  cases hentry with
  | none => rfl
  | some hentry => cases hentry <;> rfl

theorem makeDirectories (p : Path) :
    SameEnd same (d.makeDirectories p) (d'.makeDirectories p) := by
  have hways (ways : List Path) :
      SameEnd same (ways.foldlM Disk.makeDirectory d) (ways.foldlM Disk.makeDirectory d') := by
    induction ways generalizing d d' with
    | nil => exact .ok h
    | cons way rest ih =>
      have hfirst := h.makeDirectory way
      rw [List.foldlM_cons, List.foldlM_cons]
      generalize d.makeDirectory way = r at hfirst ⊢
      generalize d'.makeDirectory way = r' at hfirst ⊢
      cases hfirst with
      | error e => exact .error e
      | ok hnext => exact ih hnext
  have hentry := h.entry (d.locate p)
  rw [Disk.makeDirectories, Disk.makeDirectories, ← h.locate_eq p, ← h.isBlocked_eq]
  generalize d.entryAt? (d.locate p) = e at hentry ⊢
  generalize d'.entryAt? (d.locate p) = e' at hentry ⊢
  cases hentry with
  | none =>
    dsimp only
    split
    · exact .error _
    · exact hways _
  | some hentry =>
    cases hentry with
    | directory => exact .ok h
    | file hbytes mode => exact .error _

/-- The same step fails, if any. -/
theorem writeFailure?_eq (p : Path) (mode : Option Nat) :
    d.writeFailure? p mode = d'.writeFailure? p mode := by
  have hdirectory := h.hasDirectory_iff (d.locate p)
  unfold HasDirectory at hdirectory
  rw [writeFailure?, writeFailure?, h.faults, h.temporaryPath_eq, ← h.locate_eq]
  simp only [hdirectory]

/-- A step that fails leaves temporary files that are alike, if any. -/
theorem leftover? {bytes bytes' : List UInt8} (hnone : same d.faults place [] [])
    (hall : same d.faults place bytes bytes')
    (hcut : d.faults.write.isSome = true → ∀ n,
      same d.faults place (bytes.take n) (bytes'.take n))
    {mode : Option Nat} {step : WriteStep} {reason : DiskError}
    (hfails : d.writeFailure? p mode = some (step, reason)) :
    Option.Rel (DiskEntry.Alike (same d.faults place)) (d.leftover? bytes mode step)
      (d'.leftover? bytes' mode step) := by
  have hfile {held held' : List UInt8} (hheld : same d.faults place held held') (bits : Nat)
      (b : Bool) : Option.Rel (DiskEntry.Alike (same d.faults place))
        (if b then some (.file held bits) else none)
        (if b then some (.file held' bits) else none) := by
    cases b with
    | true => exact .some (.file hheld bits)
    | false => exact .none
  unfold Disk.leftover?
  rw [← h.faults]
  cases step with
  | creation => exact .none
  | permissions => exact hfile hnone _ _
  | writing fault =>
    exact hfile (hcut (by rw [write_of_writeFailure? hfails]; rfl) _) _ _
  | sync => exact hfile hall _ _
  | replacement => exact hfile hall _ _

/-- Files may be replaced by bytes that are alike, if they are so at the place of the temporary file
wherever the disk may cut them off. -/
theorem writeAtomically {bytes bytes' : List UInt8} (hnone : ∀ place, same d.faults place [] [])
    (hbytes : ∀ place, same d.faults place bytes bytes')
    (hcut : d.faults.write.isSome = true → ∀ place, d.IsTemporary p place → ∀ n,
      same d.faults place (bytes.take n) (bytes'.take n)) (mode : Option Nat) :
    (d.writeAtomically p bytes mode).1 = (d'.writeAtomically p bytes' mode).1 ∧
      Alike same (d.writeAtomically p bytes mode).2 (d'.writeAtomically p bytes' mode).2 := by
  have hmade := h.makeDirectories p.parent
  rw [Disk.writeAtomically, Disk.writeAtomically]
  have hsettings {f : Disk} (hf : d.makeDirectories p.parent = .ok f) : f.faults = d.faults :=
    (settings_makeDirectories hf).2
  unfold IsTemporary at hcut
  generalize d.makeDirectories p.parent = r at hmade hcut hsettings ⊢
  generalize d'.makeDirectories p.parent = r' at hmade ⊢
  cases hmade with
  | error e => exact ⟨rfl, h⟩
  | @ok f f' hf =>
    have hafter : Alike same { f with temporaries := f.temporaries + 1 }
        { f' with temporaries := f'.temporaries + 1 } :=
      ⟨hf.entry, hf.caches, hf.faults, hf.workingDirectory, congrArg (· + 1) hf.temporaries⟩
    dsimp only
    rw [← hf.writeFailure?_eq, ← hf.temporaryPath_eq, ← hf.locate_eq, ← hf.locate_eq]
    rw [← hsettings rfl] at hnone hbytes hcut
    cases hfails : f.writeFailure? p mode with
    | none => exact ⟨rfl, hafter.put (.file (hbytes _) (mode.getD privateMode))⟩
    | some failure =>
      have hleft := hf.leftover? (hnone _) (hbytes _) (fun hw => hcut hw _ ⟨f, rfl, rfl⟩) hfails
      dsimp only
      generalize f.leftover? bytes mode failure.1 = left at hleft ⊢
      generalize f'.leftover? bytes' mode failure.1 = left' at hleft ⊢
      cases hleft with
      | none => exact ⟨rfl, hafter⟩
      | some hentry => exact ⟨rfl, hafter.put hentry⟩

end Alike

end Disk

end BearerSession
