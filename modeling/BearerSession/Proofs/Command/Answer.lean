import BearerSession.Command.Run
import BearerSession.Proofs.Credential.Logging

/-!
# The answer of a task

A task first finds out its answer, on the machine and in the session that it opens there, and only
then writes it. So the end of a command line follows from the outcome of its task: the answer is
written after a detail about the storage and what has been noted in the log. An error is reported in
its place, and so is what prevents the answer from being written.
-/

namespace BearerSession

/-- A computation of which the value becomes another one, or a refusal. -/
def Act.mapExcept {σ α β : Type} (f : Act σ α) (g : α → Except Raised β) : Act σ β := fun s =>
  match f s with
  | .error e t => .error e t
  | .ok a t =>
    match g a with
    | .ok b => .ok b t
    | .error e => .error e t

/-- What follows such a value follows the one that it has become. -/
theorem Act.mapExcept_bind {σ α β γ : Type} (f : Act σ α) (g : α → Except Raised β)
    (k : β → Act σ γ) :
    (f.mapExcept g >>= k) = f >>= fun a =>
      match g a with
      | .ok b => k b
      | .error e => throw e := by
  funext s
  rw [Act.bind_apply, Act.bind_apply, mapExcept]
  cases f s with
  | error e t => rfl
  | ok a t =>
    dsimp only
    cases g a <;> rfl

namespace Logged

variable {σ α β : Type}

/-- What becomes of the answer does not log. -/
theorem Does.mapExcept {f : Act (Logged σ) α} {g : Act σ α} (h : Does f g)
    (k : α → Except Raised β) : Does (f.mapExcept k) (g.mapExcept k) := by
  intro s
  unfold Act.mapExcept
  rw [← h s]
  cases f s with
  | error e t => rfl
  | ok a t => cases hk : k a <;> simp only [forget, hk]

end Logged

namespace Command

open Logged (Does)

/-- What a task has found out. -/
inductive Answer where
  /-- Entries to be shown under a title. -/
  | entries (title : Option String) (l : List (String × Value))
  /-- One line of data. -/
  | line (text : String)
  /-- Whether authorization is required. -/
  | required (b : Bool)
  /-- That something has been done. -/
  | confirmation (text : String)
  /-- That nothing needs to be done. -/
  | remark (text : String)
  /-- That no header is cached. -/
  | noHeader

namespace Answer

/-- The exit code of an answer. -/
def code : Answer → Int
  | .noHeader => ErrorKind.authorizationFailure.exitCode
  | _ => success

/-- Write an answer. -/
def write (output : Output) : Answer → Act Streams Unit
  | .entries title l => output.mapping title l
  | .line text => output.data text
  | .required b =>
    if output.format = .json then output.mapping none [("required", .bool b)]
    else output.data (if b then "required" else "not required")
  | .confirmation text => output.success text
  | .remark text => output.info text
  | .noHeader => output.error "No cached authorization header."

end Answer

/-- What is cached, as it is found out without a log. -/
def cachedEntries : Act (Session Workplace) (List (String × Value)) := do
  let user ← Session.identity .user
  let clientId ← Session.get .clientId
  let policy ← (do return (← get).store.policy : Act (Session Workplace) Policy)
  let authorized ← (do return (← get).store.header.isSome : Act (Session Workplace) Bool)
  let device ← Session.identity .device
  return [
    ("client_id", clientId),
    ("persistence_policy", .text policy.name),
    ("authorized", .bool authorized),
    ("user", .ofText? (((user.declared .displayName).bind Text.nonempty?).or (user.declared .id))),
    ("device_id", .ofText? (device.declared .id))]

section Uses

variable {σ : Type}

/-- The answer that shows what is cached. -/
def statusAnswer (entries : List (String × Value)) : Except Raised Answer :=
  .ok (.entries (some "Authorization session") entries)

/-- The answer that shows a header, if there is one. -/
def headerAnswer (header : Option String) : Except Raised Answer :=
  .ok (header.elim .noHeader .line)

/-- The answer that shows an identity. -/
def identityAnswer (kind : IdentityKind) (i : Identity kind) : Except Raised Answer :=
  i.toMap.map (.entries (some s!"{kind.word} identity"))

/-- The answer that shows a policy. -/
def policyAnswer (policy : Policy) : Except Raised Answer := .ok (.line policy.name)

/-- The answer that says whether a policy is a new one. -/
def setPolicyAnswer (policy : Policy) (changed : Bool) : Except Raised Answer :=
  .ok (if changed then .confirmation s!"Persistence policy set to {policy.name}."
    else .remark s!"Persistence policy already {policy.name}.")

/-- The answer that says that the tokens are forgotten. -/
def clearAnswer (_ : Unit) : Except Raised Answer :=
  .ok (.confirmation "Authorization data cleared.")

end Uses

/-- What a task finds out in a session, when it needs one. -/
def Task.inSession? : Task → Option (Act (Session Workplace) Answer)
  | .status => some (cachedEntries.mapExcept statusAnswer)
  | .header => some (Act.mapExcept (do return (← get).store.header) headerAnswer)
  | .clear => some (Session.clearAuthorization.mapExcept clearAnswer)
  | .identity kind => some ((Session.identity kind).mapExcept (identityAnswer kind))
  | .showPolicy => some (Act.mapExcept (do return (← get).store.policy) policyAnswer)
  | .setPolicy policy => some ((Session.setPolicy policy).mapExcept (setPolicyAnswer policy))
  | .check .. | .showConfig | .configPath | .setConfig .. => none

/-- The same with what is noted on the way. -/
def Task.loggedInSession? : Task → Option (Act (Logged (Session Workplace)) Answer)
  | .status => some (statusEntries.mapExcept statusAnswer)
  | .header => some (Act.mapExcept (Logged.silent do return (← get).store.header) headerAnswer)
  | .clear => some (Session.loggedClearAuthorization.mapExcept clearAnswer)
  | .identity kind => some ((loggedIdentity kind).mapExcept (identityAnswer kind))
  | .showPolicy => some (Session.loggedPolicy.mapExcept policyAnswer)
  | .setPolicy policy => some ((Session.loggedSetPolicy policy).mapExcept (setPolicyAnswer policy))
  | .check .. | .showConfig | .configPath | .setConfig .. => none

/-- What a task finds out without a session; one that needs a session finds nothing there. -/
def Task.outside (o : Overrides) : Task → Act Machine Answer
  | .check code raws =>
    match checkResponse code raws with
    | .ok required => return .required required
    | .error e => throw e
  | .showConfig => do
    return .entries (some "Configuration") (configEntries (← Config.resolve o))
  | .configPath => do return .line (← Machine.configPath).text
  | .setConfig key value => do
    let path ← Config.overridePath o
    return .confirmation s!"Set {key} = {← Config.set path key value}"
  | _ => return .remark ""

/-- Open the session of a configuration over a backend, use it, and close it whatever happens. -/
def onBackend {α : Type} (c : Config) (use : Act (Session Workplace) α) (backend : Backend) :
    Act Machine α := fun m =>
  match Workplace.openSession c ⟨m, backend⟩ with
  | .error e w => .error e w.machine
  | .ok store w =>
    match use ⟨store, w⟩ with
    | .ok a s => .ok a s.durable.close.machine
    | .error e s => .error e s.durable.close.machine

/-- Use the session of a configuration over the backend that it names. -/
def onSession {α : Type} (c : Config) (use : Act (Session Workplace) α) : Act Machine α := do
  onBackend c use (← c.openBackend)

/-- Find out what a task asks for. -/
def Task.answer (o : Overrides) (task : Task) : Act Machine Answer :=
  match task.inSession? with
  | some use => do onSession (← Config.resolve o) use
  | none => task.outside o

/-- What has been noted by a computation on a machine. -/
def noted {α : Type} (f : Act (Logged Machine) α) (m : Machine) : List LogRecord :=
  (f.after ⟨m, []⟩).log

/-- What has been written before a task has its answer: the name of the storage, as soon as the
configuration of its session is known, and what has been noted in the session. -/
def Task.said (o : Overrides) (output : Output) (task : Task) (m : Machine) : Streams :=
  match task.loggedInSession?, Config.resolve o m with
  | some use, .ok c m =>
    output.records (noted (loggedOnSession c use) m)
      ((output.debug s!"Using {c.storage.backend.name} storage").after .empty)
  | _, _ => .empty

/-- How the outcome of a task ends a command. -/
def concluded (output : Output) (said : Streams) :
    EStateM.Result Raised Machine Answer → Ending × Machine
  | .error e m => (reported output e said, m)
  | .ok a m =>
    match a.write output said with
    | .ok () s => (.finished a.code s, m)
    | .error e s => (reported output e s, m)

section Forgetting

variable {α : Type}

/-- The identities of an installation are made, and what is noted of it is noted beside. -/
theorem does_loggedInstall (c : Config) :
    Does (Workplace.loggedInstall c) (Workplace.install c) :=
  (Does.silent _).bind fun _ => (Session.does_loggedSetIfAbsent _ _ _).bind fun _ =>
    Session.does_loggedSetIfAbsent _ _ _

/-- A session is opened by opening its cells and then making the identities of the installation. -/
theorem openSession_apply (c : Config) (w : Workplace) :
    Workplace.openSession c w =
      match (CellName.all.forM (fun n => Session.change n Cell.restore) >>= fun _ =>
        Workplace.install c : Act (Session Workplace) Unit) ⟨.blank c.policy, w⟩ with
      | .ok () s => .ok s.store s.durable
      | .error e s => .error e s.durable := by
  rw [Workplace.openSession, Session.openStore, Act.bind_apply]
  cases (CellName.all.forM (fun n => Session.change n Cell.restore) : Act (Session Workplace) Unit)
    ⟨.blank c.policy, w⟩ <;> rfl

/-- A session is used over a backend as it is without a log. -/
theorem does_loggedOnBackend (c : Config) {use : Act (Logged (Session Workplace)) α}
    {use' : Act (Session Workplace) α} (h : Does use use') (b : Backend) :
    Does (loggedOnBackend c use b) (onBackend c use' b) := by
  rintro ⟨m, log⟩
  have hopen := (Session.does_loggedRestoreAll.bind fun _ => does_loggedInstall c)
    ⟨⟨.blank c.policy, ⟨m, b⟩⟩, log⟩
  simp only [onBackend, loggedOnBackend, openSession_apply]
  rw [← hopen]
  cases (do Session.loggedRestoreAll; Workplace.loggedInstall c :
    Act (Logged (Session Workplace)) Unit) ⟨⟨.blank c.policy, ⟨m, b⟩⟩, log⟩ with
  | error e s => rfl
  | ok _ s =>
    simp only [Logged.forget]
    rw [← h s]
    cases use s <;> rfl

theorem does_loggedOnSession (c : Config) {use : Act (Logged (Session Workplace)) α}
    {use' : Act (Session Workplace) α} (h : Does use use') :
    Does (loggedOnSession c use) (onSession c use') :=
  (Does.silent _).bind fun b => does_loggedOnBackend c h b

theorem does_loggedIdentity (kind : IdentityKind) :
    Does (loggedIdentity kind) (Session.identity kind) := (Does.silent _).noteThen _

theorem does_statusEntries : Does statusEntries cachedEntries :=
  (does_loggedIdentity .user).bind fun _ => (Session.does_loggedGet _).bind fun _ =>
    Session.does_loggedPolicy.bind fun _ => (Does.silent _).bind fun _ =>
      (does_loggedIdentity .device).bind fun _ => .pure _

/-- A task needs a session with the log exactly when it needs one without, and finds out the same
there. -/
theorem does_loggedInSession? (task : Task) :
    Option.Rel Does task.loggedInSession? task.inSession? := by
  cases task with
  | status => exact .some (does_statusEntries.mapExcept _)
  | header => exact .some ((Does.silent _).mapExcept _)
  | clear => exact .some (Session.does_loggedClearAuthorization.mapExcept _)
  | identity kind => exact .some ((does_loggedIdentity kind).mapExcept _)
  | showPolicy => exact .some (Session.does_loggedPolicy.mapExcept _)
  | setPolicy policy => exact .some ((Session.does_loggedSetPolicy policy).mapExcept _)
  | _ => exact .none

end Forgetting

variable {o : Overrides} {output : Output} {m : Machine}

/-- A computation on the machine leaves the streams alone. -/
theorem onMachine_apply {α : Type} (f : Act Machine α) (d : Desk) :
    Desk.onMachine f d = match f d.machine with
      | .ok a m => .ok a ⟨m, d.streams⟩
      | .error e m => .error e ⟨m, d.streams⟩ := rfl

theorem onMachine_pure {α : Type} (a : α) :
    Desk.onMachine (pure a : Act Machine α) = pure a := rfl

/-- It does its steps one after the other. -/
theorem onMachine_bind {α β : Type} (f : Act Machine α) (g : α → Act Machine β) :
    Desk.onMachine (f >>= g) = Desk.onMachine f >>= fun a => Desk.onMachine (g a) := by
  funext d
  rw [Act.bind_apply, onMachine_apply, onMachine_apply, Act.bind_apply]
  cases f d.machine <;> rfl

/-- Writing leaves the machine alone. -/
theorem write_apply (f : Act Streams Unit) (d : Desk) :
    Desk.write f d = match f d.streams with
      | .ok () s => .ok () ⟨d.machine, s⟩
      | .error e s => .error e ⟨d.machine, s⟩ := rfl

/-- The name of a storage can always be told. -/
theorem debug_storage (output : Output) (kind : BackendKind) (s : Streams) :
    output.debug s!"Using {kind.name} storage" s =
      .ok () ((output.debug s!"Using {kind.name} storage").after s) := by
  have hshown : ∃ shown, output.display.line output.colourless .detail
      s!"Using {kind.name} storage" = .ok shown := by
    refine output.display.line_eq_ok _ _ ?_
    cases kind <;> decide
  obtain ⟨shown, hshown⟩ := hshown
  unfold Act.after Output.debug
  split
  · simp only [Output.say, hshown]
  · rfl

/-- A session is used between the configuration, which is announced, and its end. -/
theorem withSession_apply {α : Type} (use : Act (Logged (Session Workplace)) α) (s : Streams) :
    withSession o output use ⟨m, s⟩ = match Config.resolve o m with
      | .error e m => .error e ⟨m, s⟩
      | .ok c m =>
        Desk.onLogged output (loggedOnSession c use)
          ⟨m, (output.debug s!"Using {c.storage.backend.name} storage").after s⟩ := by
  rw [withSession, Act.bind_apply, onMachine_apply]
  cases Config.resolve o m with
  | error e m => rfl
  | ok c m =>
    dsimp only
    rw [Act.bind_apply, write_apply, debug_storage]

/-- What becomes of the value of a session may be decided inside as well as after it. -/
theorem loggedOnBackend_mapExcept {α β : Type} (c : Config)
    (use : Act (Logged (Session Workplace)) α) (g : α → Except Raised β) (b : Backend) :
    loggedOnBackend c (use.mapExcept g) b = (loggedOnBackend c use b).mapExcept g := by
  funext m
  unfold loggedOnBackend Act.mapExcept
  dsimp only
  cases (do Session.loggedRestoreAll; Workplace.loggedInstall c :
    Act (Logged (Session Workplace)) Unit) ⟨⟨.blank c.policy, ⟨m.state, b⟩⟩, m.log⟩ with
  | error e s => rfl
  | ok _ s =>
    dsimp only
    cases use s with
    | error e s => rfl
    | ok a s => cases hg : g a <;> simp only [hg]

theorem withSession_mapExcept {α β : Type} (use : Act (Logged (Session Workplace)) α)
    (g : α → Except Raised β) :
    withSession o output (use.mapExcept g) = (withSession o output use).mapExcept g := by
  have hsession (c : Config) :
      loggedOnSession c (use.mapExcept g) = (loggedOnSession c use).mapExcept g := by
    funext m
    unfold loggedOnSession
    simp only [loggedOnBackend_mapExcept, Act.mapExcept, Act.bind_apply]
    cases Logged.silent c.openBackend m <;> rfl
  funext ⟨m, s⟩
  rw [Act.mapExcept, withSession_apply, withSession_apply]
  cases Config.resolve o m with
  | error e m => rfl
  | ok c m =>
    simp only [hsession, Desk.onLogged, Act.mapExcept]
    cases loggedOnSession c use ⟨m, []⟩ with
    | error e m => rfl
    | ok a m => cases hg : g a <;> simp only [hg]

/-- Write an answer and end with its exit code. -/
def Answer.tell (output : Output) (a : Answer) : Act Desk Int := do
  Desk.write (a.write output)
  return a.code

/-- A task in a session tells the answer that it finds there. -/
theorem perform_of_inSession {task : Task} {use : Act (Logged (Session Workplace)) Answer}
    (h : task.loggedInSession? = some use) :
    perform o output task = withSession o output use >>= Answer.tell output := by
  cases task with
  | status =>
    obtain rfl := Option.some.inj h
    rw [withSession_mapExcept, Act.mapExcept_bind]
    rfl
  | header =>
    obtain rfl := Option.some.inj h
    rw [withSession_mapExcept, Act.mapExcept_bind]
    refine bind_congr fun header => ?_
    cases header <;> rfl
  | clear =>
    obtain rfl := Option.some.inj h
    rw [withSession_mapExcept, Act.mapExcept_bind]
    rfl
  | identity kind =>
    obtain rfl := Option.some.inj h
    rw [withSession_mapExcept, Act.mapExcept_bind]
    refine bind_congr fun identity => ?_
    unfold identityAnswer
    cases identity.toMap <;> rfl
  | showPolicy =>
    obtain rfl := Option.some.inj h
    rw [withSession_mapExcept, Act.mapExcept_bind]
    rfl
  | setPolicy policy =>
    obtain rfl := Option.some.inj h
    rw [withSession_mapExcept, Act.mapExcept_bind]
    refine bind_congr fun changed => ?_
    cases changed <;> rfl
  | _ => contradiction

/-- Any other task tells the answer that it finds on the machine. -/
theorem perform_of_outside {task : Task} (h : task.inSession? = none) :
    perform o output task = Desk.onMachine (task.outside o) >>= Answer.tell output := by
  cases task with
  | check code raws =>
    simp only [perform, Task.outside]
    cases checkResponse code raws with
    | error e => rfl
    | ok required =>
      simp only [orRaise, onMachine_pure, pure_bind, Answer.tell, Answer.write]
      split <;> rfl
  | showConfig =>
    simp only [perform, Task.outside, onMachine_bind, onMachine_pure, bind_assoc, pure_bind]
    rfl
  | configPath =>
    simp only [perform, Task.outside, onMachine_bind, onMachine_pure, bind_assoc, pure_bind]
    rfl
  | setConfig key value =>
    simp only [perform, Task.outside, onMachine_bind, onMachine_pure, bind_assoc, pure_bind]
    rfl
  | _ => contradiction

/-- An answer is told after what has been said, or an error is reported. -/
theorem finish_tell (f : Act Desk Answer) :
    finish output (f >>= Answer.tell output) m =
      match f ⟨m, .empty⟩ with
      | .error e d => concluded output d.streams (.error e d.machine)
      | .ok a d => concluded output d.streams (.ok a d.machine) := by
  unfold finish concluded
  rw [Act.bind_apply]
  cases f ⟨m, .empty⟩ with
  | error e d => rfl
  | ok a d =>
    dsimp only
    rw [Answer.tell, Act.bind_apply, write_apply]
    cases a.write output d.streams <;> rfl

/-- The end of a command follows from the outcome of its task. -/
theorem finish_perform (task : Task) :
    finish output (perform o output task) m =
      concluded output (task.said o output m) (task.answer o m) := by
  have hdoes := does_loggedInSession? task
  unfold Task.answer Task.said
  cases huse : task.inSession? with
  | none =>
    rw [huse] at hdoes
    generalize hlogged : task.loggedInSession? = logged at hdoes
    cases hdoes
    rw [perform_of_outside huse, finish_tell, onMachine_apply]
    dsimp only
    cases task.outside o m <;> rfl
  | some use =>
    rw [huse] at hdoes
    generalize hlogged : task.loggedInSession? = logged at hdoes
    cases hdoes with
    | @some logged _ hdoes =>
      rw [perform_of_inSession hlogged, finish_tell, withSession_apply]
      simp only [Act.bind_apply]
      cases Config.resolve o m with
      | error e m => rfl
      | ok c m =>
        have hsession := does_loggedOnSession c hdoes ⟨m, []⟩
        dsimp only at hsession ⊢
        rw [← hsession]
        unfold Desk.onLogged noted Act.after
        cases loggedOnSession c logged ⟨m, []⟩ <;> rfl

/-- Writing leaves the machine that the task does. -/
theorem machine_concluded (output : Output) (said : Streams)
    (r : EStateM.Result Raised Machine Answer) :
    (concluded output said r).2 = match r with
      | .ok _ m => m
      | .error _ m => m := by
  unfold concluded
  cases r with
  | error e m => rfl
  | ok a m =>
    dsimp only
    cases a.write output said <;> rfl

/-- So does the run of a command line that asks for a task. -/
theorem run_of_perform {args : List String} {wish : OutputWish} {task : Task}
    (h : Invocation.ofArguments args = .ok (.perform o wish task)) (display : Display)
    (m : Machine) :
    run args display m =
      concluded (.ofWish wish display m) (task.said o (.ofWish wish display m) m)
        (task.answer o m) := by
  simp only [run, h, finish_perform]

section Reported

/-- The exit code at the end of a command line. -/
def Ending.exitCode : Ending → Int
  | .finished code _ => code
  | .misused _ => usageExitCode
  | .brokenDown .. => brokenDownExitCode

/-- What has been written by then. A command line that is misused says so in a frame. -/
def Ending.streams : Ending → Streams
  | .finished _ s => s
  | .misused e => ⟨"", framed e.text⟩
  | .brokenDown _ s => s

/-- The exit code with which an error is reported: its own one, if its message can be shown. -/
def reportCode (output : Output) : Raised → Int
  | .session own =>
    match output.display.line output.colourless .error own.message with
    | .ok _ => exitCodeOf (.session own)
    | .error _ => ErrorKind.session.exitCode
  | e => exitCodeOf e

/-- Of an unexpected error its text is said, if there is one and if it can be shown. -/
theorem unexpected_cases (output : Output) (e : Raised) (s : Streams) :
    (∃ message shown, output.display.line output.colourless .error message = .ok shown ∧
      unexpected output e s = .ok ErrorKind.session.exitCode { s with err := s.err ++ shown }) ∨
      ∃ e', unexpected output e s = .error e' s := by
  unfold unexpected
  cases e.text? with
  | none => exact .inr ⟨_, rfl⟩
  | some text =>
    simp only [Act.bind_apply, Output.error, Output.say]
    cases hline : output.display.line output.colourless .error ("Unexpected error: " ++ text) with
    | ok shown => exact .inl ⟨_, shown, hline, rfl⟩
    | error fault => exact .inr ⟨_, rfl⟩

/-- A report says an error in a line, or nothing can be said. -/
theorem report_cases (output : Output) (e : Raised) (s : Streams) :
    (∃ message shown, output.display.line output.colourless .error message = .ok shown ∧
      report output e s = .ok (reportCode output e) { s with err := s.err ++ shown }) ∨
      reportCode output e = brokenDownExitCode ∧ ∃ e', report output e s = .error e' s := by
  by_cases hown : ∃ own, e = .session own
  · obtain ⟨own, rfl⟩ := hown
    simp only [report, tryCatch, tryCatchThe, MonadExceptOf.tryCatch, reportCode]
    delta EStateM.tryCatch
    simp only [Act.bind_apply, Output.error, Output.say, pure, EStateM.pure]
    cases hline : output.display.line output.colourless .error own.message with
    | ok shown => exact .inl ⟨_, shown, hline, rfl⟩
    | error fault => exact (unexpected_cases output (.unshown fault) s).imp_right fun h => ⟨rfl, h⟩
  · obtain ⟨hreport, hcode⟩ : report output e s = unexpected output e s ∧
        reportCode output e = ErrorKind.session.exitCode := by
      cases e with
      | session own => exact absurd ⟨own, rfl⟩ hown
      | _ => exact ⟨rfl, rfl⟩
    rw [hreport, hcode]
    exact (unexpected_cases output e s).imp_right fun h => ⟨rfl, h⟩

/-- A program that has run into an error ends with the exit code of its report. -/
theorem exitCode_reported (output : Output) (e : Raised) (s : Streams) :
    (reported output e s).exitCode = reportCode output e := by
  unfold reported
  obtain ⟨message, shown, -, hreport⟩ | ⟨hcode, e', hreport⟩ := report_cases output e s
  · rw [hreport]
    rfl
  · rw [hreport, hcode]
    rfl

end Reported

end Command

end BearerSession
