import BearerSession.Config.Storage
import BearerSession.Credential.Store

/-!
# Opening a session

A session is opened over a backend on a machine. The identities of device and application are made
when the installation has none yet; from then on they stay.
-/

namespace BearerSession

namespace Session

variable {σ : Type} [Durable σ]

/-- Give a cell a value unless it has one. -/
def setIfAbsent (n : CellName) (v : Value) : Act (Session σ) Unit := do
  if (← get n).isNull then set n v

/-- Give the installation its identities, where it has none yet. -/
def install (device : Identity .device) (app : Identity .app) : Act (Session σ) Unit := do
  setIfAbsent .device device.toValue
  setIfAbsent .app app.toValue

/-- The cell of an identity. -/
def identityCell : IdentityKind → CellName
  | .app => .app
  | .device => .device
  | .user => .user

/-- The identity of a kind; one that says nothing when there is none. -/
def identity (kind : IdentityKind) : Act (Session σ) (Identity kind) := fun s =>
  match (s.store.cell (identityCell kind)).getAsMap with
  | .error e => .error e s
  | .ok entries =>
    match Identity.ofGiven (.map entries) with
    | .ok i => .ok i s
    | .error report => .error (.invalid report) s

end Session

/-- A machine and a backend of durable storage on it. -/
structure Workplace where
  /-- The machine. -/
  machine : Machine
  /-- The backend. -/
  backend : Backend

namespace Workplace

/-- Work on the disk and the backend. -/
def onMount {α : Type} (f : Act Mount α) : Act Workplace α := fun w =>
  match f ⟨w.machine.disk, w.backend⟩ with
  | .ok a m => .ok a ⟨{ w.machine with disk := m.disk }, m.backend⟩
  | .error e m => .error e ⟨{ w.machine with disk := m.disk }, m.backend⟩

instance : Durable Workplace where
  get key w := Durable.get key (Mount.mk w.machine.disk w.backend)
  set key value := onMount (Durable.set key value)
  remove key := onMount (Durable.remove key)

instance : Noting Workplace where
  notes w := Noting.notes (Mount.mk w.machine.disk w.backend)

/-- Release what the backend holds. -/
def close (w : Workplace) : Workplace :=
  let m := Mount.close ⟨w.machine.disk, w.backend⟩
  ⟨{ w.machine with disk := m.disk }, m.backend⟩

/-- Give out a fresh identifier for the device of a session that has no device identity yet. -/
def identifierFor (device : Value) (w : Workplace) : String × Workplace :=
  let id := Machine.identifierText (w.machine.lastId + 1)
  if device.isNull then
    (id, { w with machine := { w.machine with lastId := w.machine.lastId + 1 } })
  else (id, w)

/-- The identity of the device that a machine describes. -/
def deviceIdentity (m : Machine) (id : String) : Identity .device :=
  .device id m.platform.system m.platform.release m.platform.machine

/-- Describe the device of a session, in view of the identity that it has. -/
def describeDevice : Act (Session Workplace) (Identity .device) := fun s =>
  match (s.store.cell .device).get with
  | .error e => .error e s
  | .ok device =>
    let (id, w) := identifierFor device s.durable
    .ok (deviceIdentity w.machine id) ⟨s.store, w⟩

/-- Give an open store the identities of the installation. -/
def install (c : Config) : Act (Session Workplace) Unit := do
  Session.install (← describeDevice) (.app c.appId c.appVersion)

/-- Open the session of a configuration over a backend. -/
def openSession (c : Config) : Act Workplace Store := fun w =>
  match Session.openStore c.policy w with
  | .error e w => .error e w
  | .ok store w =>
    match install c ⟨store, w⟩ with
    | .ok () s => .ok s.store s.durable
    | .error e s => .error e s.durable

end Workplace

end BearerSession
