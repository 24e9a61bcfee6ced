import BearerSession.Durable.Basic

/-!
# Cache directories

A cache directory keeps its values in a database of its own, which all who open the directory share.
The database has one file at rest and two more while a connection to it is open.

The database is not the program's own, and this is what is assumed of it. A value once written is
there for every connection, open or later, until it is written again or removed, and closing a
connection keeps it. A write or a removal happens as a whole, or it is refused because the database
stays busy too long, and then nothing has changed. Reading is never refused. What a directory held
before the program, as long as no database is in it, does not matter to it.
-/

namespace BearerSession.CacheDirectory

/-- The file of the database. -/
def databaseName : String := "cache.db"

/-- The files that exist while a connection is open. -/
def connectionNames : List String := ["cache.db-shm", "cache.db-wal"]

/-- The contents of the cache directory at a place. -/
def contents (d : Disk) (place : List String) : CacheContents :=
  (d.caches.lookup place).getD ⟨[], 0⟩

/-- Replace the contents of the cache directory at a place. -/
def withContents (d : Disk) (place : List String) (c : CacheContents) : Disk :=
  { d with caches := (place, c) :: d.caches.filter fun e => e.1 ≠ place }

/-- An empty file of the database. -/
def databaseFile : DiskEntry := .file [] Disk.plainMode

/-- Make the cache directory at a path where it is missing. A file in its place is noticed only when
its database is opened. -/
def create (p : Path) (d : Disk) : Except Raised Disk :=
  match d.makeDirectories p with
  | .ok d => .ok d
  | .error (.exists _) => .error .unopenedCache
  | .error _ => .error (.disk (.uncreated p))

/-- Open a connection to the cache directory at a path, making it where it is missing. -/
def connect (p : Path) (d : Disk) : Except Raised Disk := do
  let d ← create p d
  let place := d.locate p
  let c := contents d place
  let d := (databaseName :: connectionNames).foldl (fun d n => d.put (place ++ [n]) databaseFile) d
  .ok (withContents d place { c with connections := c.connections + 1 })

/-- Close a connection to the cache directory at a path. -/
def disconnect (p : Path) (d : Disk) : Disk :=
  let place := d.locate p
  let c := contents d place
  let d :=
    if c.connections ≤ 1 then connectionNames.foldl (fun d n => d.erase (place ++ [n])) d else d
  withContents d place { c with connections := c.connections - 1 }

/-- Read a key of the cache directory at a path. -/
def get? (p : Path) (key : String) (d : Disk) : Option String :=
  Value.find? (contents d (d.locate p)).values key

/-- Change the values of the cache directory at a path. -/
def change (p : Path) (f : List (String × String) → List (String × String)) (d : Disk) : Disk :=
  let place := d.locate p
  let c := contents d place
  withContents d place { c with values := f c.values }

end BearerSession.CacheDirectory
