import BearerSession.Authorization.Manager
import BearerSession.Realm.Registry

/-!
# Scripted processes and listeners

The parties around a manager follow scripts: a process has a plan for each of its starts, a listener
may ask for authorization again and may raise, and a realm listener answers challenges in a fixed
way. What happens is noted as events.
-/

namespace BearerSession.Simulation

/-- How a realm listener answers a challenge. -/
inductive RealmMode where
  /-- It submits its answer. -/
  | answer
  /-- It submits a failure with its answer as the reason. -/
  | refuse
  /-- It submits a failure without a reason. -/
  | refuseBare
  /-- It raises. -/
  | raise
  /-- It does nothing. -/
  | ignore
  deriving DecidableEq, Repr

/-- A scripted realm listener. -/
structure RealmListener where
  /-- Its name. -/
  name : String
  /-- How it is shown. -/
  shown : String
  /-- How it answers. -/
  mode : RealmMode
  /-- What it answers. -/
  answer : Value
  /-- Whether challenges are noted. -/
  noted : Bool
  /-- Whether successes and failures go unnoticed. -/
  silent : Bool

/-- How a handler is shown. -/
def shownHandler (h : Handler RealmListener) : String :=
  s!"ChallengeHandler(realm={Text.literal h.realm}, listener={h.listener.shown})"

/-- What a process does in the course of an attempt. -/
inductive Action where
  /-- It completes the attempt with a grant made of a value. -/
  | success (result : Value)
  /-- It completes the attempt with a failure. -/
  | failure (reason : Failure)
  /-- It raises. -/
  | raise (e : Raised)
  /-- It passes a challenge to the handler of a realm and completes the attempt by what comes back.
  -/
  | challenge (realm challenge result : Value)

/-- A start of a process: the manager and the number of the attempt, and the host. -/
structure Start where
  /-- The manager. -/
  manager : Nat
  /-- The number of the attempt. -/
  number : Nat
  /-- The host. -/
  host : Value

/-- A scripted process. -/
structure ScriptedProcess where
  /-- Its name. -/
  name : String
  /-- The plans of the starts to come. -/
  plans : List (List Action)
  /-- The starts so far. -/
  starts : List Start
  /-- The manager whose realm handlers it uses. -/
  attached : Option Nat

/-- A scripted listener. -/
structure ScriptedListener where
  /-- Its name. -/
  name : String
  /-- Whether it raises after it was told. -/
  raises : Bool
  /-- The manager and the listener with which it asks again, once. -/
  chain : Option (String × String)
  /-- The manager that was last asked on its behalf, which it looks at when it is told. -/
  asked : Option Nat

/-- Who waits for the outcome of an attempt. -/
inductive Waiter where
  /-- A scripted listener. -/
  | listener (index : Nat)
  /-- A caller that waits for the answer. -/
  | caller (index : Nat)
  deriving DecidableEq, Repr

/-- What can be seen of a manager at one moment. -/
structure Snapshot where
  /-- Its state. -/
  state : AttemptState
  /-- How the attempt finished last ended. -/
  last : AttemptState
  /-- The cached header. -/
  header : Option String
  deriving DecidableEq, Repr

/-- Something that happened. -/
inductive Event where
  /-- A process was started for the given time, counted from zero. -/
  | started (process : String) (index : Nat) (host : Value) (params : List Value)
  /-- A listener was told an outcome. -/
  | told (listener : String) (outcome : Outcome) (seen : Snapshot)
  /-- A listener asked for authorization again and was refused. -/
  | chainRefused (listener : String) (e : Raised)
  /-- A realm listener was given a challenge. -/
  | challenged (listener : String) (challenge host : Value)
  /-- A realm listener was told whether its answer was accepted. -/
  | judged (listener : String) (accepted : Bool) (info host : Value)
  /-- An answer was submitted. -/
  | answered (answer : Value)
  /-- A failure was submitted. -/
  | refused (info : Value)

/-- The name of what an event belongs to. -/
def Event.owner : Event → String
  | .started name .. | .told name .. | .chainRefused name _ | .challenged name ..
  | .judged name .. => name
  | .answered _ | .refused _ => "context"

/-- What a realm listener submits, and the error it raises. -/
inductive Submission where
  /-- An answer. -/
  | answer (v : Value)
  /-- A failure with its reason. -/
  | failure (reason : Value)
  /-- Nothing. -/
  | nothing
  /-- An error instead. -/
  | raise (e : Raised)

/-- The error that realm listeners raise. -/
def realmListenerError : Raised := .host ⟨"RuntimeError", .runtime, some "realm listener bug"⟩

/-- What a realm listener does with a challenge. -/
def RealmListener.submit (l : RealmListener) : Submission :=
  match l.mode with
  | .answer => .answer l.answer
  | .refuse => .failure l.answer
  | .refuseBare => .failure .null
  | .raise => .raise realmListenerError
  | .ignore => .nothing

end BearerSession.Simulation
