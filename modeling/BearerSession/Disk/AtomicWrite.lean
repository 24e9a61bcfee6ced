import BearerSession.Disk.Basic

/-!
# Atomic writes

A file is replaced as a whole: the new contents go to a temporary file in the same directory, which
then takes the place of the old file. Whichever step fails, the old file stays. The temporary file
is closed and then deleted. It is left where deleting it fails, and where closing it fails, for then
it is not deleted at all: what could not be written may still be in its buffer, and closing it
tries to write that once more.
-/

namespace BearerSession.Disk

/-- A number in eight digits, the part of a temporary file's name that is its own. -/
def serialText (n : Nat) : String :=
  String.ofList ((List.range 8).reverse.map fun place =>
    Nat.digitChar (n / Nat.pow 10 place % 10))

/-- The next temporary file beside a path. It goes by its path from the root. -/
def temporaryPath (d : Disk) (p : Path) : Path :=
  (p.parent.absolute d.workingDirectory).child s!".{p.name}.{serialText d.temporaries}.tmp"

/-- The permission bits of a temporary file. -/
def privateMode : Nat := 0o600

/-- The steps at which replacing a file can fail. -/
inductive WriteStep where
  /-- Creating the temporary file. -/
  | creation
  /-- Setting the permission bits, before anything is written. -/
  | permissions
  /-- Writing the bytes. -/
  | writing (fault : WriteFault)
  /-- Flushing what was written to the device. -/
  | sync
  /-- Putting the temporary file in the place of the old one. -/
  | replacement
  deriving DecidableEq, Repr

/-- The first step that fails and why. Permission bits are set only where they are given, and a
directory is never replaced, least of all one without a name of its own. -/
def writeFailure? (d : Disk) (p : Path) (mode : Option Nat) : Option (WriteStep × DiskError) :=
  if d.faults.create then some (.creation, .device)
  else if mode.isSome && d.faults.chmod then some (.permissions, .device)
  else match d.faults.write with
  | some fault => some (.writing fault, .device)
  | none =>
    if d.faults.sync then some (.sync, .device)
    else if d.faults.replace then some (.replacement, .device)
    else if !p.endsInName then some (.replacement, .busy (d.temporaryPath p) p)
    else if d.entryAt? (d.locate p) = some .directory then
      some (.replacement, .isDirectory (d.temporaryPath p) p)
    else none

/-- The temporary file as a failing step leaves it; none where it was never there or is deleted. -/
def leftover? (d : Disk) (bytes : List UInt8) (mode : Option Nat) : WriteStep → Option DiskEntry
  | .creation => none
  | .permissions => if d.faults.unlink then some (.file [] privateMode) else none
  | .writing fault =>
    if fault.isBuffered || d.faults.unlink then
      some (.file (bytes.take fault.written) (mode.getD privateMode))
    else none
  | .sync | .replacement =>
    if d.faults.unlink then some (.file bytes (mode.getD privateMode)) else none

/-- Replace the file at a path, and say what went wrong. -/
def writeAtomically (d : Disk) (p : Path) (bytes : List UInt8) (mode : Option Nat) :
    Option DiskError × Disk :=
  match d.makeDirectories p.parent with
  | .error e => (some e, d)
  | .ok d =>
    let after := { d with temporaries := d.temporaries + 1 }
    match d.writeFailure? p mode with
    | some (step, e) =>
      (some e,
        match d.leftover? bytes mode step with
        | some entry => after.put (d.locate (d.temporaryPath p)) entry
        | none => after)
    | none => (none, after.put (d.locate p) (.file bytes (mode.getD privateMode)))

end BearerSession.Disk
