import BearerSession.Command.Run

/-!
# The places a command line looks at

Before a command line runs it is known where its configuration file is, and with the configuration
also where its durable data are. Nothing else on the disk matters to it.
-/

namespace BearerSession.Command

/-- The overrides of a command line; none where no session is chosen. -/
def overridesOf? (args : List String) : Option Overrides :=
  match Invocation.ofArguments args with
  | .ok (.perform session _ _) => some session
  | _ => none

/-- The answer of a computation on a machine that is then forgotten. -/
def foreseen {α : Type} (f : Act Machine α) (m : Machine) : Option α :=
  match f m with
  | .ok a _ => some a
  | .error _ _ => none

/-- The configuration file of a session. -/
def configPlace? (o : Overrides) (m : Machine) : Option Path :=
  foreseen (do Config.place (← Config.overridePath o)) m

/-- The durable data of a session, once the configuration file is on the machine. -/
def dataPlace? (o : Overrides) (m : Machine) : Option (BackendKind × Path) :=
  foreseen (do
    let c ← Config.resolve o
    return (c.storage.backend, ← Config.storagePath c.storage)) m

/-- The entries that running a command line has changed or added. -/
def changedEntries (before after : Disk) : List (List String × DiskEntry) :=
  (after.entries.filter fun (place, entry) => before.entryAt? place ≠ some entry).mergeSort
    fun a b => a.1.length ≤ b.1.length

end BearerSession.Command
