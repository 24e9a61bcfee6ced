import BearerSession.Identity
import BearerSession.Number.Word
import BearerSession.Policy

/-!
# The configuration of a session

Each setting has a default. Reading checks every setting by its own rule and knows the spellings of
truth values and numbers; settings it does not know are left out.
-/

namespace BearerSession

/-- The backends of durable storage. -/
inductive BackendKind where
  /-- One JSON file. -/
  | file
  /-- A cache directory. -/
  | cache
  /-- Memory only. -/
  | memory
  deriving DecidableEq, Repr

/-- The name of a backend. -/
def BackendKind.name : BackendKind → String
  | .file => "file"
  | .cache => "diskcache"
  | .memory => "memory"

/-- The backend of a name, to the letter. -/
def BackendKind.ofName? (s : String) : Option BackendKind :=
  if s = "file" then some .file
  else if s = "diskcache" then some .cache
  else if s = "memory" then some .memory
  else none

@[simp] theorem BackendKind.ofName?_name (b : BackendKind) : ofName? b.name = some b := by
  cases b <;> rfl

/-- Where durable data are kept. -/
structure StorageConfig where
  /-- The backend. -/
  backend : BackendKind
  /-- Its place; a default one when none is given. -/
  path : Option String
  deriving DecidableEq, Repr

/-- The configuration of a session. -/
structure Config where
  /-- The identifier of the host application. -/
  appId : String
  /-- The version of the host application. -/
  appVersion : String
  /-- The policy until one has been set. -/
  policy : Policy
  /-- Where durable data are kept. -/
  storage : StorageConfig
  /-- How long an attempt may last, in seconds; for ever when none is given. -/
  timeout : Option Binary64
  /-- Whether callers that arrive during an attempt receive its outcome. -/
  share : Bool
  deriving DecidableEq, Repr

/-- The storage of a configuration that says nothing. -/
def StorageConfig.default : StorageConfig := ⟨.file, none⟩

/-- A configuration that says nothing. -/
def Config.default : Config := ⟨"authsession", "0.0.0", .always, .default, none, true⟩

namespace StorageConfig

open Validation Identity

/-- The title of storage settings in reports. -/
def title : String := "StorageConfig"

/-- A backend: the name of one. -/
def backendRule (place : List String) : Value → Checked BackendKind
  | .text s =>
    match BackendKind.ofName? s with
    | some b => .ok b
    | none => broken place .choice
  | _ => broken place .choice

/-- Read storage settings from the entries of a map. -/
def ofEntries (entries : List (String × Value)) : Checked StorageConfig :=
  also
    (((Value.find? entries "backend").elim (.ok default.backend) (backendRule ["backend"])).map mk)
    ((Value.find? entries "path").elim (.ok none) (textRule? ["path"]))

/-- Read storage settings from a value. -/
def ofValue : Value → Checked StorageConfig
  | .map entries => ofEntries entries
  | .record t fields _ => if t = title then ofEntries fields else broken [] .record
  | _ => broken [] .record

/-- The entries of storage settings. -/
def entries (s : StorageConfig) : List (String × Value) :=
  [("backend", .text s.backend.name), ("path", .ofText? s.path)]

/-- Storage settings as a value. -/
def toValue (s : StorageConfig) : Value := .record title s.entries []

end StorageConfig

namespace Config

open Validation Identity

/-- The title of configurations in reports. -/
def title : String := "SessionConfig"

/-- A policy by its name, to the letter. -/
def policyNameRule (place : List String) (s : String) : Checked Policy :=
  match Policy.ofName? s with
  | some p => .ok p
  | none => broken place .member

/-- A policy, or the name of one as a text or as bytes that are UTF-8. -/
def policyRule (place : List String) : Value → Checked Policy
  | .text s | .member _ s => policyNameRule place s
  | .bytes b =>
    match Text.Utf8.decode b with
    | .ok s => policyNameRule place (String.ofList s)
    | .error _ => broken place .member
  | _ => broken place .member

/-- The truth value that a word stands for, in any case. -/
def boolOfWord? (s : String) : Option Bool :=
  let word := String.ofList (s.toList.map Char.toLower)
  if ["0", "off", "f", "false", "n", "no"].contains word then some false
  else if ["1", "on", "t", "true", "y", "yes"].contains word then some true
  else none

/-- A truth value by its word. -/
def boolWordRule (place : List String) (s : String) : Checked Bool :=
  match boolOfWord? s with
  | some b => .ok b
  | none => broken place .boolWord

/-- Whether a whole number lies in the range of doubles. -/
def fitsReal (n : Int) : Bool :=
  match Binary64.ofInt n with
  | .finite .. => true
  | _ => false

/-- A truth value, a number that is zero or one, or a word for one. -/
def boolRule (place : List String) : Value → Checked Bool
  | .bool b => .ok b
  | .text s => boolWordRule place s
  | .bytes b =>
    match Text.Utf8.decode b with
    | .ok s => boolWordRule place (String.ofList s)
    | .error _ => broken place .boolWord
  | .int n =>
    if n = 0 then .ok false
    else if n = 1 then .ok true
    else if fitsReal n then broken place .boolWord else broken place .bool
  | .real x =>
    if x.compareInt? 0 = some .eq then .ok false
    else if x.compareInt? 1 = some .eq then .ok true
    else if x.isWhole then broken place .boolWord else broken place .bool
  | _ => broken place .bool

/-- A number by its text. -/
def numberTextRule (place : List String) (s : String) : Checked Binary64 :=
  match Number.real? s with
  | some x => .ok x
  | none => broken place .numberText

/-- A number, a truth value counted as one, or the text of a number. -/
def numberRule (place : List String) : Value → Checked Binary64
  | .real x => .ok x
  | .bool b => .ok (.ofInt b.toNat)
  | .int n => if fitsReal n then .ok (.ofInt n) else broken place .number
  | .text s => numberTextRule place s
  | .bytes b =>
    match Text.Utf8.decode b with
    | .ok s => numberTextRule place (String.ofList s)
    | .error _ => broken place .numberText
  | _ => broken place .number

/-- A length of time: a positive number or nothing. -/
def timeoutRule (place : List String) : Value → Checked (Option Binary64)
  | .null => .ok none
  | v =>
    match numberRule place v with
    | .error issues => .error issues
    | .ok x => if x.isPositive then .ok (some x) else broken place .greater

/-- Read a configuration from the entries of a map. -/
def ofEntries (entries : List (String × Value)) : Checked Config :=
  let setting {α : Type} (key : String) (otherwise : α) (rule : Value → Checked α) : Checked α :=
    (Value.find? entries key).elim (.ok otherwise) rule
  also (also (also (also (also ((setting "app_id" default.appId (textRule ["app_id"])).map mk)
    (setting "app_version" default.appVersion (textRule ["app_version"])))
    (setting "default_persistence_policy" default.policy
      (policyRule ["default_persistence_policy"])))
    (setting "storage" default.storage fun v => under "storage" (StorageConfig.ofValue v)))
    (setting "authorization_timeout" default.timeout (timeoutRule ["authorization_timeout"])))
    (setting "share_inflight_outcome" default.share (boolRule ["share_inflight_outcome"]))

/-- Read a configuration from a value. -/
def ofValue (v : Value) : Except Report Config :=
  reported title <| match v with
    | .map entries => ofEntries entries
    | .record t fields _ => if t = title then ofEntries fields else broken [] .record
    | _ => broken [] .record

/-- The settings under their names, with values for the policy and for the storage. -/
def settings (policy storage : Value) (c : Config) : List (String × Value) :=
  [("app_id", .text c.appId), ("app_version", .text c.appVersion),
    ("default_persistence_policy", policy), ("storage", storage),
    ("authorization_timeout", c.timeout.elim .null .real),
    ("share_inflight_outcome", .bool c.share)]

/-- The entries of a configuration, as they are written to a file. -/
def entries (c : Config) : List (String × Value) :=
  c.settings (.text c.policy.name) (.map c.storage.entries)

/-- A configuration as a value. -/
def toValue (c : Config) : Value :=
  .record title (c.settings c.policy.toValue c.storage.toValue) []

end Config

end BearerSession
