import BearerSession.Disk.Path

/-!
# The disk

A tree of directories and files, the contents of the cache directories, and the operations that
currently fail. Files are bytes with permission bits.
-/

namespace BearerSession

/-- Why the disk refuses an operation. -/
inductive DiskError where
  /-- The path is taken. -/
  | exists (path : Path)
  /-- A part of the path is no directory. -/
  | notDirectory (path : Path)
  /-- A directory where a file is needed. -/
  | directory (path : Path)
  /-- The target of a replacement is a directory. -/
  | isDirectory (source target : Path)
  /-- The target of a replacement has no name that could be given away. -/
  | busy (source target : Path)
  /-- Nothing is there. -/
  | missing (path : Path)
  /-- A cache directory cannot be made. -/
  | uncreated (path : Path)
  /-- The device failed. -/
  | device
  deriving DecidableEq, Repr

/-- The wording of a refusal. -/
def DiskError.text : DiskError → String
  | .exists path => s!"[Errno 17] File exists: '{path.text}'"
  | .notDirectory path => s!"[Errno 20] Not a directory: '{path.text}'"
  | .directory path => s!"[Errno 21] Is a directory: '{path.text}'"
  | .isDirectory source target =>
    s!"[Errno 21] Is a directory: '{source.text}' -> '{target.text}'"
  | .busy source target =>
    s!"[Errno 16] Device or resource busy: '{source.text}' -> '{target.text}'"
  | .missing path => s!"[Errno 2] No such file or directory: '{path.text}'"
  | .uncreated path =>
    s!"[Errno 20] Cache directory \"{path.text}\" does not exist and could not be created"
  | .device => "disk error"

/-- What stands at a place of the disk. -/
inductive DiskEntry where
  /-- A directory. -/
  | directory
  /-- A file with its bytes and permission bits. -/
  | file (bytes : List UInt8) (mode : Nat)
  deriving DecidableEq, Repr

/-- The contents of a cache directory and how many connections to it are open. -/
structure CacheContents where
  /-- The values by key. -/
  values : List (String × String)
  /-- The open connections. -/
  connections : Nat
  deriving DecidableEq, Repr

/-- How writing to a file fails. -/
structure WriteFault where
  /-- How many bytes still reach the file. -/
  written : Nat
  /-- The bytes that do not are held back in the buffer of the open file, so that closing it writes
  them again and fails again. -/
  isBuffered : Bool
  deriving DecidableEq, Repr

/-- The operations of the disk that currently fail. -/
structure DiskFaults where
  /-- Creating a temporary file fails. -/
  create : Bool
  /-- Changing permission bits fails. -/
  chmod : Bool
  /-- Writing to a file fails. -/
  write : Option WriteFault
  /-- Flushing to the device fails. -/
  sync : Bool
  /-- Replacing a file fails. -/
  replace : Bool
  /-- Deleting a file fails. -/
  unlink : Bool
  deriving DecidableEq, Repr

/-- A disk on which everything works. -/
def DiskFaults.none : DiskFaults := ⟨false, false, Option.none, false, false, false⟩

/-- Whether a temporary file that was made may be left: it cannot be deleted, or it cannot be
closed. -/
def DiskFaults.strands (f : DiskFaults) : Bool :=
  f.unlink || f.write.any WriteFault.isBuffered

/-- The disk. -/
structure Disk where
  /-- The entries by the names that lead to them. The root directory has no entry. -/
  entries : List (List String × DiskEntry)
  /-- The contents of the cache directories. -/
  caches : List (List String × CacheContents)
  /-- The operations that fail. -/
  faults : DiskFaults
  /-- Where relative paths start. -/
  workingDirectory : List String
  /-- How many names of temporary files have been used. -/
  temporaries : Nat
  deriving DecidableEq, Repr

namespace Disk

/-- A disk with nothing on it. -/
def empty : Disk := ⟨[], [], .none, [], 0⟩

/-- What stands at a place. -/
def entryAt? (d : Disk) (place : List String) : Option DiskEntry :=
  if place = [] then some .directory else d.entries.lookup place

/-- One step from a place. Two dots lead back from a directory, and nowhere from anything else. -/
def step (d : Disk) (place : List String) (part : String) : List String :=
  if part = ".." ∧ d.entryAt? place = some .directory then place.dropLast else place ++ [part]

/-- Where a path leads. -/
def locate (d : Disk) (p : Path) : List String :=
  p.parts.foldl d.step (p.start d.workingDirectory)

/-- Put an entry at a place. -/
def put (d : Disk) (place : List String) (entry : DiskEntry) : Disk :=
  { d with entries := (place, entry) :: d.entries.filter fun e => e.1 ≠ place }

/-- Remove the entry at a place. -/
def erase (d : Disk) (place : List String) : Disk :=
  { d with entries := d.entries.filter fun e => e.1 ≠ place }

/-- What was put at a place stands there, and nothing else has changed. -/
theorem entryAt?_put (d : Disk) (place other : List String) (entry : DiskEntry) (h : place ≠ []) :
    (d.put place entry).entryAt? other =
      if other = place then some entry else d.entryAt? other := by
  by_cases ho : other = place
  · subst ho
    simp [entryAt?, put, h]
  · by_cases hr : other = []
    · subst hr
      simp [entryAt?, Ne.symm h]
    · have hb : (other == place) = false := by simpa using ho
      simp only [entryAt?, put, hr, if_false, List.lookup_cons, hb, ho]
      generalize d.entries = entries
      induction entries with
      | nil => rfl
      | cons head rest ih =>
        obtain ⟨k, e⟩ := head
        by_cases hk : k = place
        · subst hk
          simpa [List.lookup_cons, hb] using ih
        · by_cases hko : other = k
          · subst hko
            simp [hk]
          · have hkb : (other == k) = false := by simpa using hko
            simpa [hk, List.lookup_cons, hkb] using ih

/-- Nothing stands at an erased place, and nothing else has changed. -/
theorem entryAt?_erase (d : Disk) (place other : List String) (h : place ≠ []) :
    (d.erase place).entryAt? other = if other = place then none else d.entryAt? other := by
  by_cases hr : other = []
  · subst hr
    simp [entryAt?, Ne.symm h]
  · simp only [entryAt?, erase, hr, if_false]
    generalize d.entries = entries
    induction entries with
    | nil => simp
    | cons head rest ih =>
      obtain ⟨k, e⟩ := head
      by_cases hk : k = place
      · subst hk
        by_cases ho : other = k
        · subst ho
          simpa using ih
        · have hb : (other == k) = false := by simpa using ho
          simpa [List.lookup_cons, hb, ho] using ih
      · by_cases hko : other = k
        · subst hko
          simp [hk]
        · have hkb : (other == k) = false := by simpa using hko
          simpa [hk, List.lookup_cons, hkb] using ih

/-- The bytes of the file at a path. Dots lead to directories, so a path that does not end in a name
has no file. -/
def bytes? (d : Disk) (p : Path) : Option (List UInt8) :=
  if p.endsInName then
    match d.entryAt? (d.locate p) with
    | some (.file bytes _) => some bytes
    | _ => none
  else none

/-- Whether a path leads to a file. -/
def isFile (d : Disk) (p : Path) : Bool := (d.bytes? p).isSome

/-- The permission bits at a path. -/
def mode? (d : Disk) (p : Path) : Option Nat :=
  match d.entryAt? (d.locate p) with
  | some (.file _ mode) => some mode
  | some .directory => some 0o755
  | none => none

/-- The places on the way to a place, the outermost first, without the place itself. -/
def waysTo (place : List String) : List (List String) :=
  (List.range place.length).map fun n => place.take n

/-- Whether a file stands where a directory is needed on the way to a place. -/
def isBlocked (d : Disk) (place : List String) : Bool :=
  (waysTo place).any fun way =>
    match d.entryAt? way with
    | some (.file ..) => true
    | _ => false

/-- Make the directory at a path, where none is there. -/
def makeDirectory (d : Disk) (p : Path) : Except DiskError Disk :=
  match d.entryAt? (d.locate p) with
  | some .directory => .ok d
  | some (.file ..) => .error (.exists p)
  | none => .ok (d.put (d.locate p) .directory)

/-- Make the directory at a path and those on the way to it, where they are missing. -/
def makeDirectories (d : Disk) (p : Path) : Except DiskError Disk :=
  let place := d.locate p
  match d.entryAt? place with
  | some .directory => .ok d
  | some (.file ..) => .error (.exists p)
  | none =>
    if d.isBlocked place then .error (.notDirectory p)
    else p.ways.foldlM makeDirectory d

/-- The permission bits of a file that is simply written. -/
def plainMode : Nat := 0o644

/-- Write a file, making the directories on the way to it. -/
def writeFile (d : Disk) (p : Path) (bytes : List UInt8) : Except DiskError Disk := do
  let d ← d.makeDirectories p.parent
  if d.entryAt? (d.locate p) = some .directory then throw (.directory p)
  else return d.put (d.locate p) (.file bytes plainMode)

/-- The names below a place, directories with a slash at the end, in code point order; none when no
directory is there. -/
def listing? (d : Disk) (p : Path) : Option (List String) :=
  let place := d.locate p
  match d.entryAt? place with
  | some .directory =>
    let below := d.entries.filterMap fun (other, entry) =>
      if place.isPrefixOf other && other ≠ place then
        let name := String.intercalate "/" (other.drop place.length)
        some (match entry with
          | .directory => name ++ "/"
          | .file .. => name)
      else none
    some (below.mergeSort fun a b => a ≤ b)
  | _ => none

end Disk

end BearerSession
