import BearerSession.Simulation.World

/-!
# Running the simulated world

Workers go on as far as they can: they tell listeners, finish what is complete, and start what is
next. Then time passes: the earliest deadline fires, and the workers go on again.
-/

namespace BearerSession.Simulation.World

/-- Note what a realm listener submits. -/
def noteSubmission : Submission → Act World Unit
  | .answer v => noting (.answered v)
  | .failure reason => noting (.refused reason)
  | .nothing | .raise _ => pure ()

/-- Pass a challenge to a handler, with the submission coming back. -/
def dispatch (h : Handler RealmListener) (challenge host : Value) : Act World Submission := do
  if h.listener.noted then noting (.challenged h.listener.name challenge host)
  noteSubmission h.listener.submit
  return h.listener.submit

/-- Tell a handler whether its answer was accepted. -/
def judge (h : Handler RealmListener) (accepted : Bool) (info host : Value) : Act World Unit := do
  if !h.listener.silent then noting (.judged h.listener.name accepted info host)

/-- A completion of the attempt of a start. -/
def completeStart (s : Start) (o : Outcome) : Act World Unit :=
  modify (updateManager s.manager fun m => m.complete s.number o)

/-- Complete the attempt of a start with a grant made of a value. -/
def succeed (s : Start) (result : Value) : Act World Unit :=
  match Grant.ofValue result with
  | .ok g => completeStart s (.success g)
  | .error report => throw (.invalid report)

/-- What a process does for a start. -/
def act (p : ScriptedProcess) (s : Start) : Action → Act World Unit
  | .success result => succeed s result
  | .failure reason => completeStart s (.failure reason)
  | .raise e => throw e
  | .challenge realm challenge result => do
    let registry ← match p.attached with
      | some i => registryAt (some i)
      | none => pure .empty
    match registry.lookup realm with
    | .error e => throw e
    | .ok none => completeStart s (.failure (.reported "no handler"))
    | .ok (some h) =>
      match ← dispatch h challenge s.host with
      | .answer v =>
        judge h true v s.host
        succeed s result
      | .failure reason =>
        judge h false reason s.host
        completeStart s (.failure (.reported "refused"))
      | .nothing => pure ()
      | .raise e => throw e

/-- Run the actions of a plan until one raises. -/
def actAll (p : ScriptedProcess) (s : Start) : List Action → Act World Unit
  | [] => pure ()
  | a :: rest => do
    act p s a
    actAll p s rest

/-- Run a computation for what it does; an error goes to a handler. -/
def settled (f : Act World Unit) (onError : Raised → World → World) (w : World) : World :=
  match f w with
  | .ok () w => w
  | .error e w => onError e w

/-- Start the process of an attempt and let it run its plan, then wait for the completion. -/
def startProcess (i : Nat) (a : Attempt Waiter) (w : World) : World :=
  let found := do
    let place ← (← w.managers.get? i).process
    return (place, ← w.processes.get? place)
  match found with
  | none => w
  | some (place, p) =>
    let s : Start := ⟨i, a.number, a.host⟩
    let w := updateManager i (fun m => (m.take a.number).start a.number) w
    let w := note (.started p.name p.starts.length a.host a.params) w
    let w := { w with processes := w.processes.modify place fun q =>
      { q with starts := q.starts ++ [s], plans := q.plans.drop 1 } }
    let onError (e : Raised) := updateManager i fun m => m.startRaised a.number e
    let w := settled (actAll p s (p.plans.headD [])) onError w
    updateManager i (fun m => m.await a.number w.clock) w

/-- Finish an attempt. -/
def finishAttempt (i : Nat) (m : ManagedSession) (a : Attempt Waiter) (w : World) : World :=
  match w.storages.get? m.storage with
  | none => w
  | some b =>
    let (manager, s) := m.manager.finish a (Session.mk m.store (Workplace.mk w.machine b))
    { w with
      machine := s.durable.machine
      storages := w.storages.modify m.storage fun _ => s.durable.backend
      managers := w.managers.modify i fun m => { m with manager, store := s.store } }

/-- Ask the manager at a place for authorization. -/
def obtain (i : Nat) (host : Value) (params : List Value) (waiter : Option Waiter) :
    Act World Unit := do
  let m ← thingAt managers i
  match m.manager.obtain host params waiter with
  | .ok manager => modify (updateManager i fun _ => manager)
  | .error e => throw (.session e)

/-- Ask the manager at a place for authorization on behalf of a listener. -/
def obtainFor (i : Nat) (host : Value) (params : List Value) (listener : Nat) : Act World Unit := do
  modify fun w =>
    { w with listeners := w.listeners.modify listener fun l => { l with asked := some i } }
  obtain i host params (some (.listener listener))

/-- A listener asks again, as its script says. -/
def chainAgain (managerName listenerName : String) : Act World Unit := do
  let i ← place managers managerName
  let l ← listenerPlace listenerName
  obtainFor i (.text "chained") [] l

/-- The error that scripted listeners raise. -/
def listenerError : Raised := .host ⟨"RuntimeError", .runtime, some "listener bug"⟩

/-- Tell a listener the outcome of an attempt. -/
def tellListener (i number : Nat) (waiter : Waiter) (o : Outcome) (w : World) : World :=
  match waiter with
  | .caller c => { w with answers := (c, o) :: w.answers }
  | .listener k =>
    match w.listeners.get? k with
    | none => w
    | some l =>
      let w := note (.told l.name o (w.snapshot (l.asked.getD i))) w
      let w := match l.chain with
        | none => w
        | some (managerName, listenerName) =>
          settled (chainAgain managerName listenerName) (fun e => note (.chainRefused l.name e))
            { w with listeners := w.listeners.modify k fun l => { l with chain := none } }
      if l.raises then updateManager i (fun m => m.listenerRaised number listenerError) w else w

/-- One step of the worker of a manager; none when it has nothing to do. -/
def workerStep? (i : Nat) (w : World) : Option World := do
  let m ← w.managers.get? i
  match m.manager.tell? with
  | some (waiter, number, o, manager) =>
    some (tellListener i number waiter o (updateManager i (fun _ => manager) w))
  | none =>
    match m.manager.ready? with
    | some a => some (finishAttempt i m a w)
    | none => (m.manager.next?).map fun a => startProcess i a w

/-- A worker goes on until it has nothing more to do; then the others do. -/
def goOn : (fuel : Nat) → (current : Nat) → World → World
  | 0, _, w => w
  | fuel + 1, current, w =>
    match workerStep? current w with
    | some w => goOn fuel current w
    | none =>
      let places := List.range w.managers.items.length
      match places.findSome? fun i => (workerStep? i w).map fun w => (i, w) with
      | some (i, w) => goOn fuel i w
      | none => w

/-- How often listeners can still ask again. -/
def chains (w : World) : Nat := (w.listeners.items.filter fun l => l.chain.isSome).length

/-- The sizes of all members of a list together. -/
def total {α : Type} (size : α → Nat) (items : List α) : Nat :=
  items.foldr (fun a n => size a + n) 0

/-- How many attempts are outstanding. -/
def outstanding (w : World) : Nat := total (fun m => m.manager.attempts.length) w.managers.items

/-- How many listeners are still to be told. -/
def waiting (w : World) : Nat :=
  total (fun m => total (fun a => a.listeners.length) m.manager.attempts +
    total (fun t => t.rest.length) m.manager.tellings) w.managers.items

/-- An upper bound for the steps that workers can take without anything from outside: each attempt
is started and finished once, each listener is told once, and each chain adds one attempt with one
listener. -/
def stepsLeft (w : World) : Nat := 2 * w.outstanding + w.waiting + 3 * w.chains

/-- The workers go on until they have nothing more to do. -/
def settle (w : World) : World := goOn (w.stepsLeft + 1) 0 w

/-- The earliest deadline of an attempt, its manager and its number. Of equal ones the first
manager's comes first. -/
def deadline? (w : World) : Option (Binary64 × Nat × Nat) :=
  let all := (List.range w.managers.items.length).filterMap fun i =>
    (w.managers.get? i).bind fun m => m.manager.deadline?.map fun (d, number) => (d, i, number)
  all.foldl (fun best next =>
    match best with
    | none => some next
    | some b => if next.1.lt b.1 then some next else some b) none

/-- The deadline of an attempt fires at its time, and the workers go on. -/
def fire (d : Binary64 × Nat × Nat) (w : World) : World :=
  let clock := if w.clock.lt d.1 then d.1 else w.clock
  settle (updateManager d.2.1 (fun m => m.expire d.2.2) { w with clock })

/-- An upper bound for the deadlines that can fire. -/
def deadlinesLeft (w : World) : Nat := w.outstanding + w.chains

/-- All deadlines up to a time fire in order. -/
def fireUntil (target : Binary64) : (fuel : Nat) → World → World
  | 0, w => w
  | fuel + 1, w =>
    match w.deadline? with
    | some d => if d.1.le target then fireUntil target fuel (fire d w) else w
    | none => w

/-- Time passes. -/
def elapse (s : Seconds) (w : World) : World :=
  let target := w.clock + s.value
  let w := fireUntil target (w.deadlinesLeft + 1) w
  { w with clock := target }

/-- Do something and let the workers go on. -/
def andSettle {α : Type} (f : Act World α) : Act World α := fun w =>
  match f w with
  | .ok a w => .ok a (settle w)
  | .error e w => .error e (settle w)

/-- What a caller does when the workers can go on no further: it takes its answer, lets the earliest
deadline fire, or gives up. -/
def await (caller : Nat) (limit : Option Seconds) (latest : Option Binary64) :
    (fuel : Nat) → Act World Grant
  | 0 => throw .deadlock
  | fuel + 1 => do
    let w ← get
    match w.answers.lookup caller with
    | some (.success g) => return g
    | some (.failure r) => throw (.session (.failure r))
    | none =>
      let giveUp (s : Seconds) (time : Binary64) : Act World Grant := do
        if w.clock.lt time then set { w with clock := time }
        throw (.session (.failure (.unanswered s)))
      match w.deadline?, limit, latest with
      | some d, some s, some t =>
        if d.1.le t then
          set (fire d w)
          await caller limit latest fuel
        else giveUp s t
      | some d, _, _ =>
        set (fire d w)
        await caller limit latest fuel
      | none, some s, some t => giveUp s t
      | none, _, _ => throw .deadlock

/-- Ask for authorization and wait for the outcome. -/
def wait (i : Nat) (host : Value) (params : List Value) (limit : Option Seconds) :
    Act World Grant := do
  let caller := (← get).callers
  modify fun w => { w with callers := w.callers + 1 }
  andSettle (obtain i host params (some (.caller caller)))
  let w ← get
  if (w.answers.lookup caller).isNone then
    match limit with
    | some s =>
      if !s.value.isPositive then throw (.session (.failure (.unanswered s)))
      if Seconds.longest.lt s.value then throw .overlongWait
    | none => pure ()
  await caller limit (limit.map fun s => w.clock + s.value) (w.deadlinesLeft + 2)

/-- Close the manager at a place, and let go of its storage. -/
def closeManager (i : Nat) : Act World Unit := do
  let m ← thingAt managers i
  if !m.manager.closed then
    andSettle (modify (updateManager i Manager.close))
    onStorage m.storage (modify Workplace.close)

/-- Run one more action for a start of a process. -/
def complete (p : ScriptedProcess) (s : Start) (a : Action) : Act World Unit :=
  andSettle (act p s a)

end BearerSession.Simulation.World
