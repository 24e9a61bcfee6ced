import BearerSession.Config.File

/-!
# The durable storage of a configuration

A configuration names a backend and perhaps its place; without one it is put into the data
directory.
-/

namespace BearerSession.Config

/-- The name of a backend's place in the data directory. -/
def placeName : BackendKind → String
  | .cache => "session-cache"
  | _ => "session.json"

/-- The place of the durable storage of a configuration. -/
def storagePath (s : StorageConfig) : Act Machine Path := do
  match s.path.bind Text.nonempty? with
  | some text =>
    match (← get).expandHome (.ofText text) with
    | .ok p => return p
    | .error e => throw e
  | none => return (← Machine.dataDirectory).child (placeName s.backend)

/-- Open the cache directory at a path. -/
def openCache (p : Path) : Act Machine Backend := fun m =>
  match CacheDirectory.connect p m.disk with
  | .ok d => .ok (.cache p true .none) { m with disk := d }
  | .error e => .error e m

/-- Open the durable storage of a configuration. -/
def openBackend (c : Config) : Act Machine Backend := do
  match c.storage.backend with
  | .memory => return .memory ⟨[], []⟩
  | .file => return .file (← storagePath c.storage)
  | .cache => openCache (← storagePath c.storage)

end BearerSession.Config
