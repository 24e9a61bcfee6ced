import BearerSession.Exchange
import BearerSession.Simulation.Run

/-!
# The shared manager and its requests

One manager can be shared by the whole program. It is constructed once; later requests for it get
the same one, until it is closed and forgotten. A request that is challenged waits for an
authorization like any other caller.
-/

namespace BearerSession.Simulation.World

/-- The shared manager, constructed if there is none. What is given for the construction counts only
then. -/
def createShared (c : Config) (storage : Option Nat) (process : Option Nat) : Act World Nat := do
  match (← get).shared with
  | some i => return i
  | none =>
    let i ← construct c storage process
    modify fun w => { w with shared := some i }
    return i

/-- The shared manager; there has to be one. -/
def sharedManager : Act World Nat := do
  match (← get).shared with
  | some i => return i
  | none => throw (.session .noInstance)

/-- Close the shared manager and forget it. -/
def resetShared : Act World Unit := do
  match (← get).shared with
  | some i =>
    modify fun w => { w with shared := none }
    closeManager i
  | none => pure ()

/-- The replies of a server that repeats its last one. -/
def repeating (replies : List (Except Raised Reply)) (n : Nat) : Except Raised Reply :=
  (replies[n]?.or replies.getLast?).getD (.error (.unknownName (toString n)))

/-- Send a request with the credentials of the manager at a place. -/
def exchange (i : Nat) (host : Value) (limit : Option Seconds)
    (replies : List (Except Raised Reply)) (fields : Fields) : World → Exchange × World :=
  Exchange.run (fun w => (w.snapshot i).header) (do discard (wait i host [] limit))
    (repeating replies) fields

end BearerSession.Simulation.World
