import BearerSession.Durable.Mount

/-!
# The machine a session runs on

A machine has a disk, an environment, a description of itself, and a supply of fresh identifiers.
Configuration and data live in directories that follow the platform: those of the environment or
below the home directory.
-/

namespace BearerSession

/-- How a machine describes itself. -/
structure Platform where
  /-- The operating system. -/
  system : String
  /-- The release of the operating system. -/
  release : String
  /-- The kind of machine. -/
  machine : String
  deriving DecidableEq, Repr

/-- The machine a session runs on. -/
structure Machine where
  /-- The disk. -/
  disk : Disk
  /-- The environment variables. -/
  environment : List (String × String)
  /-- What the machine says of itself. -/
  platform : Platform
  /-- The last identifier that was given out. -/
  lastId : Nat
  deriving DecidableEq, Repr

namespace Machine

/-- The name of the program, for its directories. -/
def programName : String := "authsession"

/-- The value of an environment variable. -/
def valueOf? (m : Machine) (name : String) : Option String := Value.find? m.environment name

/-- The value of an environment variable, unless it is empty. -/
def setVariable? (m : Machine) (name : String) : Option String :=
  (m.valueOf? name).bind Text.nonempty?

/-- An identifier of 128 bits in its five groups of hexadecimal digits. -/
def identifierText (n : Nat) : String :=
  let digits := Text.hex 32 n
  let group (start length : Nat) := String.ofList ((digits.drop start).take length)
  String.intercalate "-" [group 0 8, group 8 4, group 12 4, group 16 4, group 20 12]

/-- Give out a fresh identifier. -/
def freshIdentifier : Act Machine String := fun m =>
  .ok (identifierText (m.lastId + 1)) { m with lastId := m.lastId + 1 }

/-- The home directory of whoever runs the session when the environment does not say. -/
def fallbackHome : String := "/root"

/-- The home directory. -/
def home (m : Machine) : Path :=
  match m.valueOf? "HOME" with
  | none => .ofText fallbackHome
  | some s => .ofText (if s.isEmpty then "/" else s)

/-- Replace a tilde at the start of a path by the home directory. The homes of other users are not
known. -/
def expandHome (m : Machine) (p : Path) : Except Raised Path :=
  match p.root.isEmpty, p.parts with
  | true, first :: rest =>
    if first = "~" then .ok (m.home.join ⟨"", rest⟩)
    else if first = "~root" then .ok ((Path.ofText fallbackHome).join ⟨"", rest⟩)
    else if first.startsWith "~" then .error .noHome
    else .ok p
  | _, _ => .ok p

/-- Whether directories follow the environment on this platform. -/
def followsEnvironment (m : Machine) : Bool :=
  m.platform.system == "Linux" || m.platform.system.endsWith "BSD"

/-- The directory of an environment variable, or the one below the home directory. -/
def baseDirectory (m : Machine) (name : String) (below : List String) : Path :=
  match m.setVariable? name with
  | some s => .ofText s
  | none => m.home.join ⟨"", below⟩

/-- The directory of the program below the home directory, where directories do not follow the
environment. -/
def plainDirectory (m : Machine) : Path := m.home.child ("." ++ programName)

/-- Where the configuration lives. -/
def configPlace (m : Machine) : Path :=
  if m.followsEnvironment then (m.baseDirectory "XDG_CONFIG_HOME" [".config"]).child programName
  else m.plainDirectory

/-- Where data live. -/
def dataPlace (m : Machine) : Path :=
  if m.followsEnvironment then
    (m.baseDirectory "XDG_DATA_HOME" [".local", "share"]).child programName
  else m.plainDirectory.child "data"

/-- Work on the disk alone. -/
def onDisk {α : Type} (f : Act Disk α) : Act Machine α := fun m =>
  match f m.disk with
  | .ok a d => .ok a { m with disk := d }
  | .error e d => .error e { m with disk := d }

/-- Make a directory and answer it. -/
def made (p : Path) : Act Machine Path := fun m =>
  match m.disk.makeDirectories p with
  | .ok d => .ok p { m with disk := d }
  | .error e => .error (.disk e) m

/-- The configuration directory, made where it is missing. -/
def configDirectory : Act Machine Path := fun m => made m.configPlace m

/-- The data directory, made where it is missing. -/
def dataDirectory : Act Machine Path := fun m => made m.dataPlace m

/-- The name of the configuration file. -/
def configFileName : String := "config.json"

/-- The configuration file in the configuration directory. -/
def configPath : Act Machine Path := do return (← configDirectory).child configFileName

end Machine

end BearerSession
