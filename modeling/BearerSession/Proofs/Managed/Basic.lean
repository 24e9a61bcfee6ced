import BearerSession.Authorization.Manager

/-!
# A manager at work

A session and its manager change by moves: somebody asks for authorization, the worker goes on, a
process reports or raises, time runs out, the manager is closed, the store is changed. The moves of
the worker, of processes, of listeners and of other threads may come in any order; a move that is
not possible changes nothing. What happens is recorded, the earliest first.
-/

namespace BearerSession

/-- An accepted request for authorization, numbered in the order of acceptance. -/
structure Call (L : Type) where
  /-- Its place in the order of acceptance. -/
  number : Nat
  /-- Who is told the outcome. -/
  listener : L

namespace Managed

/-- What can happen to a session under a manager. -/
inductive Move (L : Type) where
  /-- Somebody asks for authorization, from outside or while a listener is told. -/
  | obtain (host : Value) (params : List Value) (listener : Option L)
  /-- The worker takes the attempt that is next. -/
  | take
  /-- The worker starts the process of the attempt that it has taken. -/
  | start (number : Nat)
  /-- The process of an attempt reports an outcome. -/
  | report (number : Nat) (outcome : Outcome)
  /-- Starting the process of an attempt raises. -/
  | raise (number : Nat) (e : Raised)
  /-- The process of an attempt has been started, and the worker waits for its completion. -/
  | await (number : Nat) (now : Binary64)
  /-- The worker has waited for an attempt as long as it may last. -/
  | expire (number : Nat)
  /-- An attempt is finished: its outcome is stored and its listeners are collected. -/
  | finish (number : Nat)
  /-- The next listener of a finished attempt is told, and perhaps raises. -/
  | tell (number : Nat) (raised : Option Raised)
  /-- The manager is closed. -/
  | close
  /-- The tokens and the user are forgotten. -/
  | clear
  /-- The policy is set. -/
  | setPolicy (policy : Policy)

/-- Whether nothing but ordinary errors is raised in a move. -/
def Move.isOrdinary {L : Type} : Move L → Bool
  | .raise _ e | .tell _ (some e) => e.isOrdinary
  | _ => true

/-- Whether the worker can deal with what is raised in a move: any ordinary error of a listener, and
an ordinary error of a start if it has a text as well. -/
def Move.isCaught {L : Type} : Move L → Bool
  | .raise _ e => e.isReportable
  | .tell _ (some e) => e.isOrdinary
  | _ => true

theorem Move.isOrdinary_of_isCaught {L : Type} {move : Move L} (h : move.isCaught = true) :
    move.isOrdinary = true := by
  cases move with
  | raise number e => exact (Bool.and_eq_true_iff.mp h).1
  | tell number raised => cases raised <;> exact h
  | _ => rfl

/-- What is recorded of a move. -/
inductive Event where
  /-- A call was accepted. -/
  | accepted (call : Nat)
  /-- A call was refused. -/
  | refused (e : SessionError)
  /-- The worker took an attempt. -/
  | taken (number : Nat)
  /-- The process of an attempt was started. -/
  | started (number : Nat)
  /-- The process of an attempt reported an outcome. -/
  | reported (number : Nat) (outcome : Outcome)
  /-- Starting the process of an attempt raised. -/
  | raised (number : Nat) (e : Raised)
  /-- The worker waits for an attempt. -/
  | awaited (number : Nat)
  /-- An attempt lasted as long as it may. -/
  | expired (number : Nat) (limit : Binary64)
  /-- An attempt was finished: the outcome it had, the outcome its listeners get, and their calls.
  -/
  | finished (number : Nat) (accepted outcome : Outcome) (calls : List Nat)
  /-- The listener of a call was told the outcome of an attempt. -/
  | told (number call : Nat) (outcome : Outcome)
  /-- The manager was closed, and the pending attempts were completed. -/
  | closed (pending : List Nat)
  /-- The tokens and the user were forgotten. -/
  | cleared
  /-- The policy was set. -/
  | policySet (policy : Policy)

/-- The attempts whose processes were started, in order. -/
def starts (log : List Event) : List Nat :=
  log.filterMap fun
    | .started number => some number
    | _ => none

/-- The calls whose listeners were told, in order. -/
def toldCalls (log : List Event) : List Nat :=
  log.filterMap fun
    | .told _ call _ => some call
    | _ => none

end Managed

/-- A session under its manager, and what has happened so far. -/
structure Managed (σ L : Type) where
  /-- The attempts. -/
  manager : Manager (Call L)
  /-- The credentials and their durable storage. -/
  session : Session σ
  /-- How many calls have been accepted. -/
  calls : Nat
  /-- What has happened, the earliest first. -/
  log : List Managed.Event

namespace Telling

variable {L : Type}

/-- The listener of a finished attempt who is told next, what it is told, and the tellings after
that. -/
def next? (number : Nat) : List (Telling L) → Option (L × Outcome × List (Telling L))
  | [] => none
  | t :: more =>
    if t.number = number then
      match t.rest with
      | [] => none
      | l :: rest => some (l, t.outcome, Manager.untold ({ t with rest } :: more))
    else (next? number more).map fun (l, o, left) => (l, o, t :: left)

end Telling

namespace Manager

variable {L : Type}

/-- Where the outstanding attempt of a number stands. -/
def phase? (m : Manager L) (number : Nat) : Option Phase := (m.attempt? number).map Attempt.phase

/-- The attempts that closing the manager completes. -/
def pending (m : Manager L) : List Nat := if m.closed then [] else m.attempts.map Attempt.number

end Manager

namespace Managed

variable {σ L : Type}

/-- A session whose manager has no attempts yet. -/
def new (share : Bool) (timeout : Option Binary64) (hasProcess : Bool) (session : Session σ) :
    Managed σ L :=
  ⟨.new share timeout hasProcess, session, 0, []⟩

/-- Note what happened. -/
def record (s : Managed σ L) (e : Event) : Managed σ L := { s with log := s.log ++ [e] }

/-- The manager after a listener was told, who may have raised. -/
def afterTelling (m : Manager (Call L)) (number : Nat) : Option Raised → Manager (Call L)
  | none => m
  | some e => m.listenerRaised number e

variable [Durable σ]

/-- A move, when it is possible: what is recorded of it, and what it leads to. -/
def step? (s : Managed σ L) : Move L → Option (Event × Managed σ L)
  | .obtain host params listener =>
    match s.manager.obtain host params (listener.map fun l => ⟨s.calls, l⟩) with
    | .ok m => some (.accepted s.calls, { s with manager := m, calls := s.calls + 1 })
    | .error e => some (.refused e, s)
  | .take =>
    s.manager.next?.map fun a => (.taken a.number, { s with manager := s.manager.take a.number })
  | .start number =>
    if s.manager.phase? number = some .taken then
      some (.started number, { s with manager := s.manager.start number })
    else none
  | .report number o =>
    -- only a process that was started has a callback to report with
    if number ∈ starts s.log then
      some (.reported number o, { s with manager := s.manager.complete number o })
    else none
  | .raise number e =>
    if s.manager.phase? number = some .starting then
      some (.raised number e, { s with manager := s.manager.startRaised number e })
    else none
  | .await number now =>
    if s.manager.phase? number = some .starting then
      some (.awaited number, { s with manager := s.manager.await number now })
    else none
  | .expire number =>
    match s.manager.phase? number, s.manager.timeout with
    | some (.waiting (some _)), some limit =>
      some (.expired number limit, { s with manager := s.manager.expire number })
    | _, _ => none
  | .finish number =>
    match s.manager.attempt? number with
    | some a =>
      if a.isReady then
        let (m, t) := s.manager.finish a s.session
        some (.finished number a.result (Manager.storeOutcome a.result s.session).1
          (a.listeners.map Call.number), { s with manager := m, session := t })
      else none
    | none => none
  | .tell number raised =>
    (Telling.next? number s.manager.tellings).map fun (c, o, left) =>
      (.told number c.number o,
        { s with manager := afterTelling { s.manager with tellings := left } number raised })
  | .close => some (.closed s.manager.pending, { s with manager := s.manager.close })
  | .clear => some (.cleared, { s with session := Act.after Session.clearAuthorization s.session })
  | .setPolicy p =>
    some (.policySet p, { s with session := Act.after (Session.setPolicy p) s.session })

/-- Make a move and record it; a move that is not possible changes nothing. -/
def step (s : Managed σ L) (move : Move L) : Managed σ L :=
  match s.step? move with
  | some (e, t) => t.record e
  | none => s

/-- Make several moves in order. -/
def run (s : Managed σ L) (moves : List (Move L)) : Managed σ L := moves.foldl step s

end Managed

end BearerSession
