import BearerSession.Config.Basic
import BearerSession.Machine

/-!
# The configuration file

A configuration is kept as one JSON object. A missing file means the default configuration; a file
that is no valid configuration is an error that tells why.
-/

namespace BearerSession.Config

/-- The configuration in the bytes of a file, or what is wrong with them. -/
def decode (bytes : List UInt8) : Except Raised Config :=
  match Text.Utf8.decode bytes with
  | .error fault => .error (.undecodable fault)
  | .ok cs =>
    match Json.read (String.ofList (Text.Utf8.normalizeLineEnds cs)) with
    | .error e => .error (.notJson e)
    | .ok v =>
      match ofValue v with
      | .ok c => .ok c
      | .error report => .error (.invalid report)

/-- The bytes of the file of a configuration. -/
def encode (c : Config) : List UInt8 :=
  Text.Utf8.encode (Json.write .file 0 (.map c.entries) ['\n'])

/-- The configuration in the file at a path. A file is not valid when its contents are of no
acceptable value; any other error stays what it is. -/
def read (p : Path) (d : Disk) : Except Raised Config :=
  match d.bytes? p with
  | none => .ok default
  | some bytes =>
    match decode bytes with
    | .ok c => .ok c
    | .error e => .error (if e.family = .value then .session (.invalidConfig p.text e.text) else e)

/-- A given path, or the one of the configuration file. -/
def place (path : Option Path) : Act Machine Path :=
  match path with
  | some p => pure p
  | none => Machine.configPath

/-- Load a configuration. -/
def load (path : Option Path) : Act Machine Config := do
  let p ← place path
  match read p (← get).disk with
  | .ok c => return c
  | .error e => throw e

/-- Save a configuration. -/
def save (c : Config) (path : Option Path) : Act Machine Unit := do
  let p ← place path
  Machine.onDisk fun d =>
    match d.writeAtomically p c.encode none with
    | (none, d) => .ok () d
    | (some e, d) => .error (.disk e) d

end BearerSession.Config
