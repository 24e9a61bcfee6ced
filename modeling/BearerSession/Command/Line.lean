import BearerSession.Command.Option
import BearerSession.Config.Resolve
import BearerSession.Identity
import BearerSession.Number.Word
import BearerSession.Output

/-!
# The command line

A command line names what is to be done and how the session and the output are chosen. The options
of the program come before the command, those of a command among its arguments.
-/

namespace BearerSession.Command

/-- What a command line asks to be done. -/
inductive Task where
  /-- Show what is cached, without the tokens. -/
  | status
  /-- Print the cached header. -/
  | header
  /-- Forget the tokens and the user. -/
  | clear
  /-- Show an identity. -/
  | identity (kind : IdentityKind)
  /-- Decide whether a response demands authorization. -/
  | check (status : Int) (headers : List String)
  /-- Print the policy. -/
  | showPolicy
  /-- Change the policy. -/
  | setPolicy (policy : Policy)
  /-- Show the effective configuration. -/
  | showConfig
  /-- Print where the configuration file is. -/
  | configPath
  /-- Change a setting in the configuration file. -/
  | setConfig (key value : String)
  deriving DecidableEq, Repr

/-- What a command line asks for. -/
inductive Invocation where
  /-- The version of the program. -/
  | version
  /-- Help. -/
  | help
  /-- A task over a session, with a wish for the output. -/
  | perform (session : Overrides) (output : OutputWish) (task : Task)
  deriving DecidableEq, Repr

/-- The options of the program. -/
inductive GlobalOption where
  /-- Print the version. -/
  | version
  /-- Print help. -/
  | help
  /-- The configuration file. -/
  | config (path : String)
  /-- The backend of durable storage. -/
  | backend (name : String)
  /-- The place of durable data. -/
  | path (path : String)
  /-- Data as JSON. -/
  | json
  /-- Data as plain lines. -/
  | plain
  /-- No colour. -/
  | colourless
  /-- Without what only confirms. -/
  | quiet
  /-- With details. -/
  | verbose
  deriving DecidableEq, Repr

/-- The options of commands. -/
inductive LocalOption where
  /-- Print help. -/
  | help
  /-- A header of the response. -/
  | header (raw : String)
  deriving DecidableEq, Repr

/-- How the options of the program are written. -/
def globalOptions : List (OptionSpec GlobalOption) := [
  ⟨["--version"], .flag .version⟩,
  ⟨["--help"], .flag .help⟩,
  ⟨["--config", "-c"], .value .config⟩,
  ⟨["--storage-backend"], .value .backend⟩,
  ⟨["--storage-path"], .value .path⟩,
  ⟨["--json"], .flag .json⟩,
  ⟨["--plain"], .flag .plain⟩,
  ⟨["--no-color"], .flag .colourless⟩,
  ⟨["--quiet", "-q"], .flag .quiet⟩,
  ⟨["--verbose", "-v"], .flag .verbose⟩
]

/-- The option for help, which all commands have. -/
def helpOption : OptionSpec LocalOption := ⟨["--help"], .flag .help⟩

/-- The option for a header. -/
def headerOption : OptionSpec LocalOption := ⟨["--header", "-H"], .value .header⟩

/-- The last of the values that options give. -/
def lastValue? {α : Type} (options : List α) (value? : α → Option String) : Option String :=
  (options.filterMap value?).getLast?

/-- The session that options choose. -/
def overridesOf (options : List GlobalOption) : Overrides where
  config := lastValue? options fun | .config s => some s | _ => none
  policy := none
  backend := lastValue? options fun | .backend s => some s | _ => none
  path := lastValue? options fun | .path s => some s | _ => none

/-- The output that options wish for. JSON comes before plain lines. -/
def wishOf (options : List GlobalOption) : OutputWish where
  format :=
    if options.contains .json then some .json
    else if options.contains .plain then some .plain
    else none
  colourless := options.contains .colourless
  quiet := options.contains .quiet
  verbose := options.contains .verbose

/-- A text among the named values of an argument. -/
def choose {α : Type} (argument : String) (choices : List (String × α)) (s : String) :
    Except UsageError α :=
  match choices.lookup s with
  | some a => .ok a
  | none => .error (.badArgument argument s)

/-- The kinds of identities by their words. -/
def identityChoices : List (String × IdentityKind) :=
  [.app, .device, .user].map fun kind => (kind.word, kind)

/-- The policies by their words. -/
def policyChoices : List (String × Policy) := [("always", .always), ("never", .never)]

/-- A status among arguments. -/
def readStatus (s : String) : Except UsageError Int :=
  match Number.whole? s with
  | some n => .ok n
  | none => .error (.badArgument "STATUS_CODE" s)

/-- A command without arguments. -/
def noArguments {α : Type} (result : α) : List String → Except UsageError α
  | [] => .ok result
  | extra :: _ => .error (.extraArgument extra)

/-- A command with one argument. -/
def oneArgument {α : Type} (name : String) (result : String → Except UsageError α) :
    List String → Except UsageError α
  | [] => .error (.missingArgument name)
  | a :: rest => do
    let r ← result a
    noArguments r rest

/-- A command with two arguments. -/
def twoArguments {α : Type} (first second : String) (result : String → String → α) :
    List String → Except UsageError α
  | [] => .error (.missingArgument first)
  | a :: rest => oneArgument second (fun b => .ok (result a b)) rest

/-- The headers among the options of a command. -/
def headersOf (options : List LocalOption) : List String :=
  options.filterMap fun | .header raw => some raw | .help => none

/-- A command: its options beside help, and the task that options and arguments make. -/
structure CommandSpec where
  /-- The options beside help. -/
  options : List (OptionSpec LocalOption)
  /-- The task. -/
  task : List LocalOption → List String → Except UsageError Task

/-- A command without options of its own. -/
def plainCommand (task : List String → Except UsageError Task) : CommandSpec :=
  ⟨[], fun _ args => task args⟩

/-- A named command or a named group of commands. -/
inductive Entry where
  /-- A command. -/
  | command (c : CommandSpec)
  /-- A group of commands. -/
  | group (commands : List (String × CommandSpec))

/-- The commands about the policy. -/
def policyCommands : List (String × CommandSpec) := [
  ("show", plainCommand (noArguments .showPolicy)),
  ("set", plainCommand
    (oneArgument "POLICY" fun s => (choose "POLICY" policyChoices s).map .setPolicy))
]

/-- The commands about the configuration. -/
def configCommands : List (String × CommandSpec) := [
  ("show", plainCommand (noArguments .showConfig)),
  ("path", plainCommand (noArguments .configPath)),
  ("set", plainCommand (twoArguments "KEY" "VALUE" .setConfig))
]

/-- All commands. -/
def commands : List (String × Entry) := [
  ("status", .command (plainCommand (noArguments .status))),
  ("header", .command (plainCommand (noArguments .header))),
  ("clear", .command (plainCommand (noArguments .clear))),
  ("identity", .command (plainCommand
    (oneArgument "KIND" fun s => (choose "KIND" identityChoices s).map .identity))),
  ("check", .command ⟨[headerOption], fun options =>
    oneArgument "STATUS_CODE" fun s => (readStatus s).map fun n => .check n (headersOf options)⟩),
  ("policy", .group policyCommands),
  ("config", .group configCommands)
]

/-- The task of a command with its arguments; none when they ask for help. -/
def CommandSpec.read (c : CommandSpec) (args : List String) : Except UsageError (Option Task) := do
  let (options, args) ← scan (helpOption :: c.options) true args
  if options.contains .help then return none
  return some (← c.task options args)

/-- The answer to words of which the first names no command. They may be options that came too late,
and one of these may be answered at once. -/
def lateAnswer {α β : Type} (specs : List (OptionSpec α)) (answer? : α → Option β) (name : String)
    (args : List String) : Except UsageError β := do
  let (options, _) ← scan specs false (name :: args)
  match options.findSome? answer? with
  | some answer => return answer
  | none => throw (.unknownCommand name)

/-- Whether an option of a command asks for help, which is no task. -/
def helpAnswer? : LocalOption → Option (Option Task)
  | .help => some none
  | .header _ => none

/-- The task of a command of a group. -/
def readGroup (commands : List (String × CommandSpec)) (args : List String) :
    Except UsageError (Option Task) := do
  let (options, args) ← scan [helpOption] false args
  if options.contains .help then return none
  match args with
  | [] => throw .missingCommand
  | name :: args =>
    match commands.lookup name with
    | some c => c.read args
    | none => lateAnswer [helpOption] helpAnswer? name args

/-- Whether an option asks for something that is answered at once. -/
def immediate? : GlobalOption → Option Invocation
  | .version => some .version
  | .help => some .help
  | _ => none

/-- What the words that follow the options of the program ask for, where `perform` does a task. -/
def readTask (perform : Task → Invocation) : List String → Except UsageError Invocation
  | [] => .error .missingCommand
  | name :: args =>
    match commands.lookup name with
    | some (.command c) => (c.read args).map fun task => task.elim .help perform
    | some (.group commands) =>
      (readGroup commands args).map fun task => task.elim .help perform
    | none => lateAnswer globalOptions immediate? name args

/-- What a command line asks for. The version and help are answered before the command is looked at.
-/
def Invocation.ofArguments (args : List String) : Except UsageError Invocation := do
  let (options, args) ← scan globalOptions false args
  match options.findSome? immediate? with
  | some answer => return answer
  | none => readTask (.perform (overridesOf options) (wishOf options)) args

end BearerSession.Command
