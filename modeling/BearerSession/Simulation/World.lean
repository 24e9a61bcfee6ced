import BearerSession.Header.Challenge
import BearerSession.Simulation.Script
import BearerSession.Simulation.Table
import BearerSession.Workplace

/-!
# The simulated world

Managers, their scripted parties, storages, cells and stores stand in tables over one machine with
one virtual clock. Storages are shared by their place in the table; what happens is noted, the
latest event first.
-/

namespace BearerSession.Simulation

/-- A cell of its own, over a storage and under a policy that is set from outside. -/
structure LooseCell where
  /-- The cell. -/
  cell : Cell
  /-- The place of its storage. -/
  storage : Nat
  /-- What its policy getter answers. -/
  policy : Policy

/-- A store of its own, over a storage. -/
structure LooseStore where
  /-- The store. -/
  store : Store
  /-- The place of its storage. -/
  storage : Nat

/-- A manager with all that belongs to it. -/
structure ManagedSession where
  /-- The attempts. -/
  manager : Manager Waiter
  /-- The credentials. -/
  store : Store
  /-- The configuration. -/
  config : Config
  /-- The place of its storage. -/
  storage : Nat
  /-- The place of its process. -/
  process : Option Nat
  /-- Its realm handlers. -/
  registry : Registry RealmListener

/-- The simulated world. -/
structure World where
  /-- The machine. -/
  machine : Machine
  /-- The time in seconds. -/
  clock : Binary64
  /-- The storages. -/
  storages : Table Backend
  /-- The cells of their own. -/
  cells : Table LooseCell
  /-- The stores of their own. -/
  stores : Table LooseStore
  /-- The managers. -/
  managers : Table ManagedSession
  /-- The processes. -/
  processes : Table ScriptedProcess
  /-- The listeners. -/
  listeners : Table ScriptedListener
  /-- The realm handlers that belong to no manager. -/
  registry : Registry RealmListener
  /-- The shared manager. -/
  shared : Option Nat
  /-- How many callers have waited. -/
  callers : Nat
  /-- The outcomes that callers were told. -/
  answers : List (Nat × Outcome)
  /-- What happened, the latest first. -/
  events : List Event

namespace World

/-- A world in which nothing has been made. -/
def new (m : Machine) : World :=
  ⟨m, .zero false, .empty, .empty, .empty, .empty, .empty, .empty, .empty, none, 0, [], []⟩

/-- Note an event. -/
def note (e : Event) (w : World) : World := { w with events := e :: w.events }

/-- Note an event in a computation. -/
def noting (e : Event) : Act World Unit := modify (note e)

/-- The place that a name leads to. -/
def place {α : Type} (table : World → Table α) (name : String) : Act World Nat := fun w =>
  match (table w).find? name with
  | some i => .ok i w
  | none => .error (.unknownName name) w

/-- The thing that a name leads to. -/
def thing {α : Type} (table : World → Table α) (name : String) : Act World α := fun w =>
  match ((table w).find? name).bind (table w).get? with
  | some a => .ok a w
  | none => .error (.unknownName name) w

/-- The thing at a place. -/
def thingAt {α : Type} (table : World → Table α) (i : Nat) : Act World α := fun w =>
  match (table w).get? i with
  | some a => .ok a w
  | none => .error (.unknownName (toString i)) w

/-- Work on the machine. -/
def onMachine {α : Type} (f : Act Machine α) : Act World α := fun w =>
  match f w.machine with
  | .ok a m => .ok a { w with machine := m }
  | .error e m => .error e { w with machine := m }

/-- Work on the storage at a place. -/
def onStorage {α : Type} (i : Nat) (f : Act Workplace α) : Act World α := fun w =>
  match w.storages.get? i with
  | none => .error (.unknownName (toString i)) w
  | some b =>
    let back (p : Workplace) : World :=
      { w with machine := p.machine, storages := w.storages.modify i fun _ => p.backend }
    match f ⟨w.machine, b⟩ with
    | .ok a p => .ok a (back p)
    | .error e p => .error e (back p)

/-- Work on a store over the storage at a place; answer also the store as it is then. -/
def onSession {α : Type} (s : Store) (storage : Nat) (keep : Store → World → World)
    (f : Act (Session Workplace) α) : Act World α := fun w =>
  match w.storages.get? storage with
  | none => .error (.unknownName (toString storage)) w
  | some b =>
    let back (t : Session Workplace) : World :=
      keep t.store
        { w with
          machine := t.durable.machine
          storages := w.storages.modify storage fun _ => t.durable.backend }
    match f ⟨s, ⟨w.machine, b⟩⟩ with
    | .ok a t => .ok a (back t)
    | .error e t => .error e (back t)

/-- Work on the store of its own at a place. -/
def onStore {α : Type} (i : Nat) (f : Act (Session Workplace) α) : Act World α := do
  let s ← thingAt stores i
  onSession s.store s.storage
    (fun store w => { w with stores := w.stores.modify i fun s => { s with store } }) f

/-- Work on the credentials of the manager at a place. -/
def onManaged {α : Type} (i : Nat) (f : Act (Session Workplace) α) : Act World α := do
  let m ← thingAt managers i
  onSession m.store m.storage
    (fun store w => { w with managers := w.managers.modify i fun m => { m with store } }) f

/-- Work on the cell of its own at a place. -/
def onCell {α : Type} (i : Nat) (f : Cell → Policy → Act Workplace (Cell × α)) :
    Act World α := do
  let c ← thingAt cells i
  let (cell, a) ← onStorage c.storage (f c.cell c.policy)
  modify fun w => { w with cells := w.cells.modify i fun c => { c with cell } }
  return a

/-- Make a storage. -/
def addStorage (name : Option String) (b : Backend) : Act World Nat := fun w =>
  let (i, storages) := w.storages.push b
  let storages := match name with
    | some n => storages.name n i
    | none => storages
  .ok i { w with storages }

/-- Make the storage of a configuration. -/
def openStorage (name : Option String) (c : Config) : Act World Nat := do
  addStorage name (← onMachine c.openBackend)

/-- Open a cell of its own. -/
def openCell (name : String) (storage : String) (cellName : String) (kind : CellKind)
    (policy : Option Policy) : Act World Nat := do
  let i ← place storages storage
  let p := policy.getD .always
  let cell ← onStorage i ((Cell.blank cellName kind policy.isSome).restore p)
  modify fun w => { w with cells := w.cells.add name ⟨cell, i, p⟩ }
  place cells name

/-- Open a store of its own. -/
def openStore (name : String) (storage : String) (policy : Policy) : Act World Nat := do
  let i ← place storages storage
  let store ← onStorage i (Session.openStore policy)
  modify fun w => { w with stores := w.stores.add name ⟨store, i⟩ }
  place stores name

/-- The place of a listener; one that was not made is a plain one. -/
def listenerPlace (name : String) : Act World Nat := fun w =>
  match w.listeners.find? name with
  | some i => .ok i w
  | none =>
    .ok w.listeners.items.length
      { w with listeners := w.listeners.add name ⟨name, false, none, none⟩ }

/-- The registry of a manager, or the one that belongs to none. -/
def registryAt (i : Option Nat) : Act World (Registry RealmListener) :=
  match i with
  | none => return (← get).registry
  | some i => return (← thingAt managers i).registry

/-- Replace the registry of a manager, or the one that belongs to none. -/
def setRegistry (i : Option Nat) (r : Registry RealmListener) : Act World Unit :=
  match i with
  | none => modify fun w => { w with registry := r }
  | some i =>
    modify fun w => { w with managers := w.managers.modify i fun m => { m with registry := r } }

/-- What can be seen of the manager at a place. -/
def snapshot (w : World) (i : Nat) : Snapshot :=
  match w.managers.get? i with
  | some m => ⟨m.manager.state, m.manager.last, m.store.header⟩
  | none => ⟨.idle, .idle, none⟩

/-- Change the attempts of the manager at a place. -/
def updateManager (i : Nat) (f : Manager Waiter → Manager Waiter) (w : World) : World :=
  { w with managers := w.managers.modify i fun m => { m with manager := f m.manager } }

/-- Construct a manager. The process is attached first, and the identities of the installation are
made last. -/
def construct (c : Config) (storage : Option Nat) (process : Option Nat) : Act World Nat := do
  let i ← match storage with
    | some i => pure i
    | none => openStorage none c
  let store ← onStorage i (Session.openStore c.policy)
  let here := (← get).managers.items.length
  let attach (manager : Option Nat) : Act World Unit := match process with
    | some p =>
      modify fun w =>
        { w with processes := w.processes.modify p fun q => { q with attached := manager } }
    | none => pure ()
  attach none
  let store ← onSession store i (fun _ w => w) do
    Workplace.install c
    return (← get).store
  attach (some here)
  modify fun w =>
    { w with
      managers := (w.managers.push
        ⟨.new c.share c.timeout process.isSome, store, c, i, process, .empty⟩).2 }
  return here

end World

end BearerSession.Simulation
