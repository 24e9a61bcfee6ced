import BearerSession.Config.File

/-!
# The effective configuration

Settings come from the command line, from the environment, from the configuration file, or from the
defaults, in this order. Policy, backend and path are overridden one by one, and the result is
checked as a whole.
-/

namespace BearerSession

/-- The settings given on the command line. -/
structure Overrides where
  /-- The configuration file. -/
  config : Option String
  /-- The policy. -/
  policy : Option String
  /-- The backend of durable storage. -/
  backend : Option String
  /-- The place of durable data. -/
  path : Option String
  deriving DecidableEq, Repr

namespace Config

/-- The environment variable of the policy. -/
def policyVariable : String := "AUTHSESSION_PERSISTENCE_POLICY"

/-- The environment variable of the backend. -/
def backendVariable : String := "AUTHSESSION_STORAGE_BACKEND"

/-- The environment variable of the place of durable data. -/
def pathVariable : String := "AUTHSESSION_STORAGE_PATH"

/-- The policy that a setting names. -/
def parsePolicy (value origin : String) : Except SessionError Policy :=
  match Policy.read? value with
  | some p => .ok p
  | none => .error (.invalidPolicy value origin)

/-- The policy that a setting names, where it is given. -/
def parsePolicy? (value : Option String) (origin : String) : Except SessionError (Option Policy) :=
  match value with
  | none => .ok none
  | some s => (parsePolicy s origin).map some

/-- A configuration with some of its settings overridden. -/
def override (c : Config) (policy : Option Policy) (backend path : Option String) :
    Except SessionError Config :=
  match backend.elim (some c.storage.backend) BackendKind.ofName? with
  | some b =>
    .ok { c with policy := policy.getD c.policy, storage := ⟨b, path.or c.storage.path⟩ }
  | none =>
    .error (.invalidOverride
      (Validation.Report.text ⟨title, [⟨["storage", "backend"], .choice⟩]⟩))

/-- The configuration file named on the command line. -/
def overridePath (o : Overrides) : Act Machine (Option Path) := fun m =>
  match o.config with
  | none => .ok none m
  | some s =>
    if s.isEmpty then .ok none m
    else match m.expandHome (.ofText s) with
      | .ok p => .ok (some p) m
      | .error e => .error e m

/-- A refusal of the session inside a computation. -/
def orThrow {σ α : Type} : Except SessionError α → Act σ α
  | .ok a => pure a
  | .error e => throw (.session e)

/-- Find the effective configuration. -/
def resolve (o : Overrides) : Act Machine Config := do
  let c ← load (← overridePath o)
  let m ← get
  let fromEnvironment ← orThrow (parsePolicy? (m.setVariable? policyVariable) policyVariable)
  let fromCommand ← orThrow (parsePolicy? o.policy "--policy")
  orThrow (c.override (fromCommand.or fromEnvironment)
    (o.backend.or (m.setVariable? backendVariable)) (o.path.or (m.setVariable? pathVariable)))

end Config

end BearerSession
