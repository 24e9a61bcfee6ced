import BearerSession.Disk.AtomicWrite
import BearerSession.Json.Writer
import BearerSession.Log

/-!
# The session file

All values of a session stand in one JSON object. Nothing is kept in memory: each read loads the
file, and each change writes the whole file anew. A file that is missing, is no JSON or holds no
object reads as empty.
-/

namespace BearerSession.SessionFile

/-- The values in the bytes of a session file. Values other than texts read as their text. -/
def decode (bytes : List UInt8) : Except Raised (List (String × String)) :=
  match Text.Utf8.decode bytes with
  | .error fault => .error (.undecodable fault)
  | .ok cs =>
    match Json.read (String.ofList (Text.Utf8.normalizeLineEnds cs)) with
    | .error (.malformed ..) => .ok []
    | .error e => .error (.notJson e)
    | .ok (.map entries) => .ok (entries.map fun (k, v) => (k, v.display))
    | .ok _ => .ok []

/-- The bytes of a session file with the given values, its keys in order. -/
def encode (values : List (String × String)) : List UInt8 :=
  let map := (Value.map (values.map fun (k, v) => (k, .text v))).sorted
  Text.Utf8.encode (Json.write .file 0 map ['\n'])

/-- Load the values of the file at a path. -/
def load (d : Disk) (p : Path) : Except Raised (List (String × String)) :=
  match d.bytes? p with
  | none => .ok []
  | some bytes => decode bytes

/-- What loading the file at a path notes: why it reads as empty, where a file is there. -/
def notes (d : Disk) (p : Path) : List LogRecord :=
  match (d.bytes? p).map Text.Utf8.decode with
  | some (.ok cs) =>
    match Json.read (String.ofList (Text.Utf8.normalizeLineEnds cs)) with
    | .ok (.map _) => []
    | .ok _ => [⟨.warning, s!"Ignoring session file {p.text}: expected a JSON object"⟩]
    | .error e =>
      if e.isMalformed then
        [⟨.warning, s!"Ignoring unreadable session file {p.text}: {e.text}"⟩]
      else []
  | _ => []

/-- Give the file at a path new values. -/
def store (p : Path) (values : List (String × String)) : Act Disk Unit := fun d =>
  match d.writeAtomically p (encode values) (some Disk.privateMode) with
  | (none, d) => .ok () d
  | (some e, d) => .error (.session (.unwritableFile p.text e.text)) d

/-- Read a key of the file at a path. -/
def get (p : Path) (key : String) (d : Disk) : Except Raised (Option String) :=
  (load d p).map fun values => Value.find? values key

/-- Write a key of the file at a path. -/
def set (p : Path) (key value : String) : Act Disk Unit := fun d =>
  match load d p with
  | .error e => .error e d
  | .ok values => store p (Value.insertEntry key value values) d

/-- Remove a key of the file at a path; a file without it stays as it is. -/
def remove (p : Path) (key : String) : Act Disk Unit := fun d =>
  match load d p with
  | .error e => .error e d
  | .ok values =>
    if (Value.find? values key).isSome then store p (Value.eraseEntry key values) d else .ok () d

end BearerSession.SessionFile
