import BearerSession.Command.Footprint
import BearerSession.Output.Markup

/-!
# The program

The machine of a command line is built from what the command line looks at. After the run, what has
changed is written back. A cache directory is kept as one JSON object in the file of its database.
-/

namespace BearerSession.Host

open Command

/-- The environment variables that matter to a session. -/
def variableNames : List String :=
  ["HOME", "XDG_CONFIG_HOME", "XDG_DATA_HOME", Output.noColourVariable, "TERM",
    Config.policyVariable, Config.backendVariable, Config.pathVariable]

/-- The environment as far as it matters. -/
def environment : IO (List (String × String)) :=
  variableNames.filterMapM fun name => do return (← IO.getEnv name).map fun v => (name, v)

/-- A line that the system says about itself, or nothing. -/
def systemLine (name : String) : IO String := do
  try return Text.trim (← IO.FS.readFile name) catch _ => return ""

/-- What the system says about itself. -/
def platform : IO Platform := do
  return ⟨← systemLine "/proc/sys/kernel/ostype", ← systemLine "/proc/sys/kernel/osrelease",
    ← systemLine "/proc/sys/kernel/arch"⟩

/-- A number of 128 bits with the marks of a random identifier. -/
def marked (n : Nat) : Nat :=
  let high := n >>> 80 % Nat.pow 2 48
  let middle := n >>> 64 % Nat.pow 2 12
  let low := n % Nat.pow 2 62
  high <<< 80 + 4 <<< 76 + middle <<< 64 + 2 <<< 62 + low

/-- A number for a fresh identifier. -/
def randomNumber : IO Nat := do
  return marked ((← IO.getRandomBytes 16).toList.foldl (fun n b => n * 256 + b.toNat) 0)

/-- The text of a place. -/
def placeText (place : List String) : String := "/" ++ String.intercalate "/" place

/-- Read the entry at a place. -/
def readEntry (d : Disk) (place : List String) : IO Disk := do
  if place = [] then return d
  let file := (← IO.currentDir) / placeText place
  if ← file.isDir then return d.put place .directory
  if ← file.pathExists then
    return d.put place (.file (← IO.FS.readBinFile file).toList Disk.plainMode)
  return d

/-- Read the entry at a path and those on the way to it, from the root on. -/
def readPath (d : Disk) (p : Path) : IO Disk := do
  let start := p.start d.workingDirectory
  let d ← (Disk.waysTo start ++ [start]).foldlM readEntry d
  p.ways.foldlM (fun d way => readEntry d (d.locate way)) d

/-- Read what a cache directory keeps. -/
def readCache (d : Disk) (p : Path) : IO Disk := do
  let d ← readPath d (p.child CacheDirectory.databaseName)
  match (d.bytes? (p.child CacheDirectory.databaseName)).map SessionFile.decode with
  | some (.ok values) => return CacheDirectory.withContents d (d.locate p) ⟨values, 0⟩
  | _ => return d

/-- Read the durable data of a session. -/
def readData (o : Overrides) (m : Machine) : IO Machine := do
  match dataPlace? o m with
  | some (.cache, p) => return { m with disk := ← readCache m.disk p }
  | some (_, p) => return { m with disk := ← readPath m.disk p }
  | none => return m

/-- The machine of a command line. -/
def machineFor (args : List String) : IO Machine := do
  let here := Path.ofText (← IO.currentDir).toString
  let blank : Machine := {
    disk := { Disk.empty with workingDirectory := here.location [] }
    environment := ← environment
    platform := ← platform
    lastId := (← randomNumber) - 1 }
  match overridesOf? args with
  | none => return blank
  | some o =>
    match configPlace? o blank with
    | none => return blank
    | some p => readData o { blank with disk := ← readPath blank.disk p }

/-- Put a file in the place of an old one. Private files are readable by their owner only. -/
def replaceFile (place : List String) (bytes : List UInt8) (mode : Nat) : IO Unit := do
  let here ← IO.currentDir
  let fresh := here / (placeText place ++ ".new")
  IO.FS.writeBinFile fresh ⟨bytes.toArray⟩
  if mode = Disk.privateMode then
    let closed : IO.AccessRight := ⟨false, false, false⟩
    IO.setAccessRights fresh ⟨⟨true, true, false⟩, closed, closed⟩
  IO.FS.rename fresh (here / placeText place)

/-- Write an entry. -/
def writeEntry (entry : List String × DiskEntry) : IO Unit := do
  match entry with
  | (place, .directory) => IO.FS.createDirAll ((← IO.currentDir) / placeText place)
  | (place, .file bytes mode) => replaceFile place bytes mode

/-- Write back what has changed. -/
def writeBack (before after : Disk) : IO Unit := do
  (changedEntries before after).forM writeEntry
  for (place, contents) in after.caches do
    replaceFile (place ++ [CacheDirectory.databaseName]) (SessionFile.encode contents.values)
      Disk.plainMode

end BearerSession.Host

open BearerSession Command

/-- Run a command line. -/
def main (args : List String) : IO UInt32 := do
  let m ← Host.machineFor args
  let out ← IO.getStdout
  let shut (code : Int) (s : Streams) (after : Machine) : IO UInt32 := do
    Host.writeBack m.disk after.disk
    out.putStr s.out
    (← IO.getStderr).putStr s.err
    return UInt32.ofNat code.toNat
  match run args (.plain (← out.isTty)) m with
  | (.finished code s, after) => shut code s after
  | (.brokenDown _ s, after) => shut brokenDownExitCode s after
  | (.misused e, _) =>
    (← IO.getStderr).putStr (framed e.text)
    return UInt32.ofNat usageExitCode.toNat
