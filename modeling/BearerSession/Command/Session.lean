import BearerSession.Credential.Logging
import BearerSession.Workplace

/-!
# The session of a command

A command opens the session that its configuration names, uses it, and closes it whatever happens.
What is noted on the way is in the log.
-/

namespace BearerSession

namespace Workplace

open Logged (silent)
open Session (loggedSetIfAbsent)

/-- Give an open store the identities of the installation. -/
def loggedInstall (c : Config) : Act (Logged (Session Workplace)) Unit := do
  let device ← silent describeDevice
  loggedSetIfAbsent .device device.toValue
    [⟨.info, "Created device identity for this installation"⟩]
  loggedSetIfAbsent .app (Identity.app c.appId c.appVersion).toValue []

end Workplace

namespace Command

open Logged (silent note)
open Session

/-- Open the session of a configuration over a backend, use it, and close it whatever happens. What
cannot be opened is not closed. -/
def loggedOnBackend {α : Type} (c : Config) (use : Act (Logged (Session Workplace)) α)
    (backend : Backend) : Act (Logged Machine) α := fun m =>
  let opened : Act (Logged (Session Workplace)) Unit := do
    loggedRestoreAll
    Workplace.loggedInstall c
  match opened ⟨⟨.blank c.policy, ⟨m.state, backend⟩⟩, m.log⟩ with
  | .error e s => .error e ⟨s.state.durable.machine, s.log⟩
  | .ok () s =>
    match use s with
    | .ok a s => .ok a ⟨s.state.durable.close.machine, s.log⟩
    | .error e s => .error e ⟨s.state.durable.close.machine, s.log⟩

/-- Use the session of a configuration over the backend that it names. -/
def loggedOnSession {α : Type} (c : Config) (use : Act (Logged (Session Workplace)) α) :
    Act (Logged Machine) α := do
  loggedOnBackend c use (← silent c.openBackend)

/-- The identity of a kind, with what reading it notes. -/
def loggedIdentity (kind : IdentityKind) : Act (Logged (Session Workplace)) (Identity kind) := do
  note fun s => s.store.readingNotes (Session.identityCell kind)
  silent (Session.identity kind)

/-- What is cached, without the tokens. A user is shown by name, or else by identifier. -/
def statusEntries : Act (Logged (Session Workplace)) (List (String × Value)) := do
  let user ← loggedIdentity .user
  let clientId ← loggedGet .clientId
  let policy ← loggedPolicy
  let authorized ← silent do return (← get).store.header.isSome
  let device ← loggedIdentity .device
  return [
    ("client_id", clientId),
    ("persistence_policy", .text policy.name),
    ("authorized", .bool authorized),
    ("user", .ofText? (((user.declared .displayName).bind Text.nonempty?).or (user.declared .id))),
    ("device_id", .ofText? (device.declared .id))]

end Command

end BearerSession
