import BearerSession.Authorization.Outcome
import BearerSession.Credential.Store

/-!
# The manager of authorization attempts

Callers ask for authorization and wait in the listener list of an attempt. One worker takes the
attempts in the order of their creation: it starts the process, waits for the first completion,
stores a success, removes the attempt from the list and then tells its listeners one by one. Each
change below is one step of this machine; what processes and listeners do in between arrives as
further steps.

The worker looks at neither the outcome nor the end of the manager between taking an attempt and
starting its process, so a manager that is closed in between still has that process started.
Closing is one step: an attempt that the worker takes while the manager is being closed was taken
before, and a call that is refused meanwhile changes nothing.
-/

namespace BearerSession

/-- The states of attempts and managers. -/
inductive AttemptState where
  /-- Nothing is going on. -/
  | idle
  /-- An attempt is outstanding. -/
  | inProgress
  /-- The attempt succeeded. -/
  | succeeded
  /-- The attempt failed. -/
  | failed
  deriving DecidableEq, Repr

/-- The name of a state. -/
def AttemptState.name : AttemptState → String
  | .idle => "IDLE"
  | .inProgress => "IN_PROGRESS"
  | .succeeded => "SUCCEEDED"
  | .failed => "FAILED"

/-- Where an outstanding attempt stands. -/
inductive Phase where
  /-- It waits for its turn. -/
  | queued
  /-- The worker has taken it; its process has not been started yet. -/
  | taken
  /-- Its process is being started. -/
  | starting
  /-- The worker waits for its completion, at most until the deadline. -/
  | waiting (deadline : Option Binary64)
  /-- The worker could not wait for it. -/
  | abandoned
  /-- The manager was closed before its turn came. -/
  | cancelled
  /-- An error of which no failure could be made took the worker away from it. -/
  | lost
  deriving DecidableEq, Repr

/-- One run of the authorization process and the listeners that wait for it. -/
structure Attempt (L : Type) where
  /-- Its place in the order of creation. -/
  number : Nat
  /-- The host that the process is started for. -/
  host : Value
  /-- What is handed on to the process. -/
  params : List Value
  /-- The waiting listeners, in the order of their arrival. -/
  listeners : List L
  /-- Where it stands. -/
  phase : Phase
  /-- The first completion. -/
  outcome : Option Outcome

/-- A finished attempt whose listeners are being told. -/
structure Telling (L : Type) where
  /-- The number of the attempt. -/
  number : Nat
  /-- What they are told. -/
  outcome : Outcome
  /-- Those who have not been told yet. -/
  rest : List L

/-- The manager of the attempts of one session. -/
structure Manager (L : Type) where
  /-- Whether callers that arrive during an attempt join it. -/
  share : Bool
  /-- How long an attempt may last, in seconds. -/
  timeout : Option Binary64
  /-- Whether there is a process to start. -/
  hasProcess : Bool
  /-- The outstanding attempts, the oldest first. -/
  attempts : List (Attempt L)
  /-- The attempt that callers join. -/
  inflight : Option Nat
  /-- How the attempt finished last ended. -/
  last : AttemptState
  /-- Whether the manager is closed. -/
  closed : Bool
  /-- How many attempts have been created. -/
  created : Nat
  /-- The finished attempts whose listeners are being told. -/
  tellings : List (Telling L)

/-- The state of an attempt that ended with an outcome. -/
def Outcome.finalState (o : Outcome) : AttemptState := if o.succeeded then .succeeded else .failed

namespace Attempt

variable {L : Type}

/-- Only the first completion counts. -/
def complete (a : Attempt L) (o : Outcome) : Attempt L :=
  { a with outcome := a.outcome.or (some o) }

/-- Whether the worker is busy with an attempt. -/
def isRunning (a : Attempt L) : Bool :=
  match a.phase with
  | .taken | .starting | .waiting _ => true
  | _ => false

/-- Whether an attempt can be finished: it has been completed while the worker was waiting for it,
or it will be waited for no longer. -/
def isReady (a : Attempt L) : Bool :=
  match a.phase with
  | .waiting _ => a.outcome.isSome
  | .abandoned | .cancelled => true
  | _ => false

/-- The outcome an attempt is finished with. -/
def result (a : Attempt L) : Outcome := a.outcome.getD (.failure .abandoned)

/-- The time at which an attempt fails if nothing else happens. -/
def deadline? (a : Attempt L) : Option Binary64 :=
  match a.phase, a.outcome with
  | .waiting deadline, none => deadline
  | _, _ => none

/-- An attempt when the manager is closed: it fails if it has not been completed, and it is never
taken if it still waits for its turn. -/
def close (a : Attempt L) : Attempt L :=
  { a.complete (.failure .closed) with phase := if a.phase = .queued then .cancelled else a.phase }

end Attempt

namespace Manager

variable {L : Type}

/-- A manager without attempts. -/
def new (share : Bool) (timeout : Option Binary64) (hasProcess : Bool) : Manager L :=
  ⟨share, timeout, hasProcess, [], none, .idle, false, 0, []⟩

/-- Change one outstanding attempt. -/
def update (m : Manager L) (number : Nat) (f : Attempt L → Attempt L) : Manager L :=
  { m with attempts := m.attempts.map fun a => if a.number = number then f a else a }

/-- The outstanding attempt of a number. -/
def attempt? (m : Manager L) (number : Nat) : Option (Attempt L) :=
  m.attempts.find? fun a => a.number = number

/-- In progress while any attempt is outstanding. -/
def state (m : Manager L) : AttemptState := if m.attempts.isEmpty then .idle else .inProgress

/-- Add a listener to an attempt. -/
def join (m : Manager L) (number : Nat) (listener : L) : Manager L :=
  m.update number fun a => { a with listeners := a.listeners ++ [listener] }

/-- Create an attempt with one listener. -/
def create (m : Manager L) (host : Value) (params : List Value) (listener : L) : Manager L :=
  { m with
    attempts := m.attempts ++ [⟨m.created, host, params, [listener], .queued, none⟩]
    inflight := some m.created
    created := m.created + 1 }

/-- Ask for authorization. The caller joins the attempt in flight if attempts are shared, and gets
one of its own otherwise. -/
def obtain (m : Manager L) (host : Value) (params : List Value) (listener : Option L) :
    Except SessionError (Manager L) :=
  match listener with
  | none => .error .nullListener
  | some l =>
    if !m.hasProcess then .error .noProcess
    else if m.closed then .error .managerClosed
    else
      match m.inflight, m.share with
      | some number, true => .ok (m.join number l)
      | _, _ => .ok (m.create host params l)

/-- A completion of an attempt. It counts if it is the first one and the attempt is still
outstanding. -/
def complete (m : Manager L) (number : Nat) (o : Outcome) : Manager L :=
  m.update number fun a => a.complete o

/-- The attempt that the worker takes next: the oldest one in the queue, when the worker has
nothing else to do. -/
def next? (m : Manager L) : Option (Attempt L) :=
  if m.tellings.isEmpty && !m.attempts.any fun a => a.isRunning || a.phase == .abandoned then
    m.attempts.find? fun a => a.phase == .queued
  else none

/-- The worker takes an attempt. -/
def take (m : Manager L) (number : Nat) : Manager L :=
  m.update number fun a => { a with phase := .taken }

/-- The worker starts the process of the attempt that it has taken. -/
def start (m : Manager L) (number : Nat) : Manager L :=
  m.update number fun a => { a with phase := .starting }

/-- Starting the process raised. An error that a failure can be made of fails the attempt. Any other
takes the worker away from it: one that ends threads is not caught, and one without a text raises
again while the failure is made. -/
def startRaised (m : Manager L) (number : Nat) (e : Raised) : Manager L :=
  if e.isReportable then m.complete number (.ofRaised e)
  else m.update number fun a => { a with phase := .lost }

/-- The phase of an attempt that the worker begins to wait for. A completed one is not waited for,
and no wait can take longer than the longest one. -/
def phaseFrom (timeout : Option Binary64) (now : Binary64) (completed : Bool) : Phase :=
  match timeout with
  | none => .waiting none
  | some t => if !completed && Seconds.longest.lt t then .abandoned else .waiting (some (now + t))

/-- The process of an attempt has been started and the worker waits for its completion. -/
def await (m : Manager L) (number : Nat) (now : Binary64) : Manager L :=
  m.update number fun a =>
    if a.phase = .starting then { a with phase := phaseFrom m.timeout now a.outcome.isSome } else a

/-- The deadline of an attempt has passed. -/
def expire (m : Manager L) (number : Nat) : Manager L :=
  match m.timeout with
  | some t => m.complete number (.failure (.timedOut t))
  | none => m

/-- The attempt that can be finished now. -/
def ready? (m : Manager L) : Option (Attempt L) := m.attempts.find? Attempt.isReady

/-- The tellings in which somebody is still to be told. -/
def untold (tellings : List (Telling L)) : List (Telling L) :=
  tellings.filter fun t => !t.rest.isEmpty

/-- Remove a finished attempt from the list. Its listeners are told from now on. -/
def remove (m : Manager L) (a : Attempt L) (o : Outcome) : Manager L :=
  { m with
    attempts := m.attempts.filter fun b => b.number ≠ a.number
    inflight := if m.inflight = some a.number then none else m.inflight
    last := o.finalState
    tellings := untold (m.tellings ++ [⟨a.number, o, a.listeners⟩]) }

section Finish

variable {σ : Type} [Durable σ]

/-- Store the outcome of an attempt. A grant that the storage refuses is a failure. -/
def storeOutcome (o : Outcome) (s : Session σ) : Outcome × Session σ :=
  match o with
  | .failure r => (.failure r, s)
  | .success g =>
    match Session.writeAuthorization g s with
    | .ok () s => (.success g, s)
    | .error e s => (.ofRaised e, s)

/-- Finish an attempt: store its outcome and remove it from the list. -/
def finish (m : Manager L) (a : Attempt L) (s : Session σ) : Manager L × Session σ :=
  let (o, s) := storeOutcome a.result s
  (m.remove a o, s)

end Finish

/-- The listener to be told next, by what number of attempt, what it is told, and the manager after
that. -/
def tell? (m : Manager L) : Option (L × Nat × Outcome × Manager L) :=
  match m.tellings with
  | ⟨number, o, l :: rest⟩ :: more =>
    some (l, number, o, { m with tellings := untold (⟨number, o, rest⟩ :: more) })
  | _ => none

/-- A listener raised while it was told. After an ordinary error the others are told all the same;
any other error keeps them from being told. -/
def listenerRaised (m : Manager L) (number : Nat) (e : Raised) : Manager L :=
  if e.isOrdinary then m else { m with tellings := m.tellings.filter fun t => t.number ≠ number }

/-- Close the manager. Outstanding attempts fail, and no more are accepted. -/
def close (m : Manager L) : Manager L :=
  if m.closed then m else { m with closed := true, attempts := m.attempts.map Attempt.close }

/-- The earliest deadline of an outstanding attempt. -/
def deadline? (m : Manager L) : Option (Binary64 × Nat) :=
  (m.attempts.filterMap fun a => a.deadline?.map fun d => (d, a.number)).head?

end Manager

end BearerSession
