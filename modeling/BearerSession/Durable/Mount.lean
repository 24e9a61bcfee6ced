import BearerSession.Durable.CacheDirectory
import BearerSession.Durable.Memory
import BearerSession.Durable.SessionFile

/-!
# Backends over one disk

A mounted backend is a backend together with the disk it works on. Those that keep nothing of their
own leave all they know on the disk, so several of them on one path share their values.
-/

namespace BearerSession

/-- Which operations of a cache directory time out. -/
structure CacheTimeouts where
  /-- Writing does. -/
  write : Bool
  /-- Removing does. -/
  remove : Bool
  deriving DecidableEq, Repr

/-- No operation times out. -/
def CacheTimeouts.none : CacheTimeouts := ⟨false, false⟩

/-- A backend of durable storage. -/
inductive Backend where
  /-- Values in memory. -/
  | memory (m : Memory)
  /-- A session file. -/
  | file (path : Path)
  /-- A cache directory, whether a connection to it is open, and which of its operations time out.
  -/
  | cache (path : Path) (connected : Bool) (timeouts : CacheTimeouts)
  deriving DecidableEq, Repr

/-- A backend together with the disk. -/
structure Mount where
  /-- The disk. -/
  disk : Disk
  /-- The backend. -/
  backend : Backend
  deriving DecidableEq, Repr

namespace Mount

/-- Run a computation on the disk alone. -/
def onDisk {α : Type} (f : Act Disk α) : Act Mount α := fun m =>
  match f m.disk with
  | .ok a d => .ok a { m with disk := d }
  | .error e d => .error e { m with disk := d }

/-- Run a computation on the values in memory. -/
def onMemory {α : Type} (memory : Memory) (f : Act Memory α) : Act Mount α := fun m =>
  match f memory with
  | .ok a memory => .ok a { m with backend := .memory memory }
  | .error e memory => .error e { m with backend := .memory memory }

/-- Make sure that a connection to the cache directory is open. -/
def connected : Act Mount Unit := fun m =>
  match m.backend with
  | .cache path false timeouts =>
    match CacheDirectory.connect path m.disk with
    | .ok d => .ok () ⟨d, .cache path true timeouts⟩
    | .error e => .error e m
  | _ => .ok () m

/-- Change the values of a cache directory. -/
def changeCache (path : Path) (f : List (String × String) → List (String × String)) :
    Act Mount Unit := do
  connected
  modify fun m => { m with disk := CacheDirectory.change path f m.disk }

instance : Durable Mount where
  get key m :=
    match m.backend with
    | .memory memory => Durable.get key memory
    | .file path => SessionFile.get path key m.disk
    | .cache path .. => .ok (CacheDirectory.get? path key m.disk)
  set key value := fun m =>
    match m.backend with
    | .memory memory => onMemory memory (Durable.set key value) m
    | .file path => onDisk (SessionFile.set path key value) m
    | .cache path _ timeouts =>
      if timeouts.write then .error (.session (.busyCache key path.text)) m
      else changeCache path (Value.insertEntry key value) m
  remove key := fun m =>
    match m.backend with
    | .memory memory => onMemory memory (Durable.remove key) m
    | .file path => onDisk (SessionFile.remove path key) m
    | .cache path _ timeouts =>
      -- only for a write is the timeout turned into an error of the session
      if timeouts.remove then .error .overdueCache m
      else changeCache path (Value.eraseEntry key) m

/-- Whatever a session file is used for, it is loaded. -/
instance : Noting Mount where
  notes m :=
    match m.backend with
    | .file path => SessionFile.notes m.disk path
    | _ => []

/-- Release what a backend holds. Only cache directories hold anything, and they can be used again.
-/
def close (m : Mount) : Mount :=
  match m.backend with
  | .cache path true timeouts =>
    ⟨CacheDirectory.disconnect path m.disk, .cache path false timeouts⟩
  | _ => m

end Mount

end BearerSession
