import BearerSession.Config.File

/-!
# Changing one setting

A setting is named by its key, with dots between the names of nested ones. Its new value comes as
text and is read by the rule of the setting; all other settings stay.
-/

namespace BearerSession.Config

open Validation Identity

/-- The settings that hold values. -/
inductive Setting where
  /-- The identifier of the application. -/
  | appId
  /-- The version of the application. -/
  | appVersion
  /-- The policy until one has been set. -/
  | policy
  /-- The backend of durable storage. -/
  | backend
  /-- The place of durable data. -/
  | path
  /-- How long an attempt may last. -/
  | timeout
  /-- Whether callers share attempts. -/
  | share
  deriving DecidableEq, Repr

namespace Setting

/-- The names that lead to a setting. -/
def names : Setting → List String
  | .appId => ["app_id"]
  | .appVersion => ["app_version"]
  | .policy => ["default_persistence_policy"]
  | .backend => ["storage", "backend"]
  | .path => ["storage", "path"]
  | .timeout => ["authorization_timeout"]
  | .share => ["share_inflight_outcome"]

/-- All settings. -/
def all : List Setting := [.appId, .appVersion, .policy, .backend, .path, .timeout, .share]

/-- The groups of settings that names lead into: all settings, and those of the storage. -/
def isGroup (names : List String) : Bool := names = [] || names = ["storage"]

/-- The parts of a key between its dots. -/
def keyParts (key : String) : List String :=
  (key.toList.foldr (fun c parts =>
    if c = '.' then [] :: parts
    else match parts with
      | part :: rest => (c :: part) :: rest
      | [] => [[c]]) [[]]).map String.ofList

/-- The setting of a key. A key that leads through a setting without parts is invalid; one that ends
at no setting is unknown. -/
def ofKey (key : String) : Except SessionError Setting :=
  let parts := keyParts key
  if !isGroup parts.dropLast then .error (.invalidKey key)
  else
    match all.find? fun s => s.names = parts with
    | some s => .ok s
    | none => .error (.unknownKey key)

end Setting

/-- The truth value of a word of the command line; all other words are false. -/
def truthOf (value : String) : Bool := ["true", "1", "yes"].contains (Text.lower (Text.trim value))

/-- Change one setting to the value of a text, and answer how the new value is shown. -/
def change (c : Config) (s : Setting) (key value : String) :
    Except SessionError (Config × String) :=
  let checked (r : Checked Config) : Except SessionError (Config × String) :=
    match reported title r with
    | .ok c => .ok (c, value)
    | .error report => .error (.invalidValue key report.text)
  match s with
  | .appId => .ok ({ c with appId := value }, value)
  | .appVersion => .ok ({ c with appVersion := value }, value)
  | .policy =>
    match Policy.read? value with
    | some p => .ok ({ c with policy := p }, p.name)
    | none => .error (.invalidPolicy value key)
  | .backend =>
    checked <| (StorageConfig.backendRule ["storage", "backend"] (.text value)).map fun b =>
      { c with storage := { c.storage with backend := b } }
  | .path => .ok ({ c with storage := { c.storage with path := some value } }, value)
  | .timeout =>
    checked <|
      (timeoutRule ["authorization_timeout"] (.text value)).map fun t => { c with timeout := t }
  | .share => .ok ({ c with share := truthOf value }, Value.boolText (truthOf value))

/-- Change one setting in the configuration file, and answer how the new value is shown. -/
def set (path : Option Path) (key value : String) : Act Machine String := do
  let c ← load path
  match Setting.ofKey key with
  | .error e => throw (.session e)
  | .ok s =>
    match c.change s key value with
    | .error e => throw (.session e)
    | .ok (c, shown) =>
      save c path
      return shown

end BearerSession.Config
