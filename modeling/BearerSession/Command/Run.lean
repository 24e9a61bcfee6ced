import BearerSession.Command.Line
import BearerSession.Command.Session
import BearerSession.Config.Update
import BearerSession.Header.Challenge

/-!
# Running a command line

A task works on a machine and writes to the two streams. It ends with an exit code; an error ends it
with a line that says what happened and the exit code of its kind. An error whose line cannot be
shown is unexpected, and where not even this can be said, the program breaks down.
-/

namespace BearerSession.Command

/-- A machine with the streams of a running command. -/
structure Desk where
  /-- The machine. -/
  machine : Machine
  /-- What has been written. -/
  streams : Streams

/-- How a command line ends. -/
inductive Ending where
  /-- The command ran. -/
  | finished (exitCode : Int) (streams : Streams)
  /-- The command line is not understood. -/
  | misused (e : UsageError)
  /-- The program broke down. -/
  | brokenDown (e : Raised) (streams : Streams)

namespace Desk

/-- Work on the machine. -/
def onMachine {α : Type} (f : Act Machine α) : Act Desk α := fun d =>
  match f d.machine with
  | .ok a m => .ok a { d with machine := m }
  | .error e m => .error e { d with machine := m }

/-- Work on the machine and show what is noted. -/
def onLogged {α : Type} (output : Output) (f : Act (Logged Machine) α) : Act Desk α := fun d =>
  match f ⟨d.machine, []⟩ with
  | .ok a m => .ok a ⟨m.state, output.records m.log d.streams⟩
  | .error e m => .error e ⟨m.state, output.records m.log d.streams⟩

/-- Write to the streams. -/
def write (f : Act Streams Unit) : Act Desk Unit := fun d =>
  match f d.streams with
  | .ok () s => .ok () { d with streams := s }
  | .error e s => .error e { d with streams := s }

end Desk

open Desk

/-- Open the session that overrides choose and use it. -/
def withSession {α : Type} (o : Overrides) (output : Output)
    (use : Act (Logged (Session Workplace)) α) : Act Desk α := do
  let c ← onMachine (Config.resolve o)
  write (output.debug s!"Using {c.storage.backend.name} storage")
  onLogged output (loggedOnSession c use)

/-- The effective configuration, with the settings of the storage at the end. -/
def configEntries (c : Config) : List (String × Value) :=
  Value.eraseEntry "storage" c.entries ++ c.storage.entries.map fun (k, v) => ("storage." ++ k, v)

/-- The name and value of a header, which a colon separates. -/
def readHeader (raw : String) : Except SessionError (String × String) :=
  let name := Text.trim (String.ofList (raw.toList.takeWhile (· ≠ ':')))
  match raw.toList.dropWhile (· ≠ ':') with
  | [] => .error (.invalidHeader raw)
  | _ :: value =>
    if name.isEmpty then .error (.invalidHeader raw)
    else .ok (name, Text.trim (String.ofList value))

/-- Add a value to a header. -/
def addHeader (headers : List (String × List Value)) (header : String × String) :
    List (String × List Value) :=
  Value.insertEntry header.1 ((Value.find? headers header.1).getD [] ++ [.text header.2]) headers

/-- The headers of a response as they are given on the command line; equal names share a list. -/
def readHeaders (raws : List String) : Except SessionError Headers := do
  let headers := (← raws.mapM readHeader).foldl addHeader []
  return .map (headers.map fun (name, values) => (.text name, .list values))

/-- Whether a response with a status and headers demands authorization. -/
def checkResponse (status : Int) (raws : List String) : Except Raised Bool :=
  match readHeaders raws with
  | .error e => .error (.session e)
  | .ok headers => Challenge.isRequired (.int status) headers

/-- A refusal inside a computation. -/
def orRaise {α : Type} : Except Raised α → Act Desk α
  | .ok a => pure a
  | .error e => throw e

/-- The exit code of a command that worked. -/
def success : Int := 0

/-- Do what a task asks for, and answer the exit code. -/
def perform (o : Overrides) (output : Output) : Task → Act Desk Int
  | .status => do
    let entries ← withSession o output statusEntries
    write (output.mapping (some "Authorization session") entries)
    return success
  | .header => do
    match ← withSession o output (Logged.silent do return (← get).store.header) with
    | some header =>
      write (output.data header)
      return success
    | none =>
      write (output.error "No cached authorization header.")
      return ErrorKind.authorizationFailure.exitCode
  | .clear => do
    withSession o output Session.loggedClearAuthorization
    write (output.success "Authorization data cleared.")
    return success
  | .identity kind => do
    let identity ← withSession o output (loggedIdentity kind)
    write (output.mapping (some s!"{kind.word} identity") (← orRaise identity.toMap))
    return success
  | .check status raws => do
    let required ← orRaise (checkResponse status raws)
    if output.format = .json then write (output.mapping none [("required", .bool required)])
    else write (output.data (if required then "required" else "not required"))
    return success
  | .showPolicy => do
    let policy ← withSession o output Session.loggedPolicy
    write (output.data policy.name)
    return success
  | .setPolicy policy => do
    if ← withSession o output (Session.loggedSetPolicy policy) then
      write (output.success s!"Persistence policy set to {policy.name}.")
    else write (output.info s!"Persistence policy already {policy.name}.")
    return success
  | .showConfig => do
    let c ← onMachine (Config.resolve o)
    write (output.mapping (some "Configuration") (configEntries c))
    return success
  | .configPath => do
    let p ← onMachine Machine.configPath
    write (output.data p.text)
    return success
  | .setConfig key value => do
    let path ← onMachine (Config.overridePath o)
    let shown ← onMachine (Config.set path key value)
    write (output.success s!"Set {key} = {shown}")
    return success

/-- The exit code of an error. -/
def exitCodeOf : Raised → Int
  | .session e => e.exitCode
  | _ => ErrorKind.session.exitCode

/-- Say that an error is unexpected, and answer the exit code. Of an error without a text nothing
can be said. -/
def unexpected (output : Output) (e : Raised) : Act Streams Int :=
  match e.text? with
  | some text => do
    output.error ("Unexpected error: " ++ text)
    return ErrorKind.session.exitCode
  | none => throw (.misuse .mute)

/-- Say what an error is, and answer the exit code. Those that are not the session's own are
unexpected, and so is what prevents an error from being said. -/
def report (output : Output) (e : Raised) : Act Streams Int :=
  match e with
  | .session own =>
    tryCatch (do output.error own.message; pure own.exitCode) (unexpected output)
  | e => unexpected output e

/-- The end of a program that has run into an error. -/
def reported (output : Output) (e : Raised) (s : Streams) : Ending :=
  match report output e s with
  | .ok code s => .finished code s
  | .error e s => .brokenDown e { s with err := s.err ++ output.display.traceback e }

/-- Run a task to its end. -/
def finish (output : Output) (f : Act Desk Int) (m : Machine) : Ending × Machine :=
  match f ⟨m, .empty⟩ with
  | .ok code d => (.finished code d.streams, d.machine)
  | .error e d => (reported output e d.streams, d.machine)

/-- The version of the program. -/
def version : String := "0.1.0"

/-- The help of the program. -/
def helpText : String :=
  s!"Usage: {Machine.programName} [OPTIONS] COMMAND [ARGS]...\n\nCommands: " ++
    String.intercalate ", " (commands.map Prod.fst)

/-- The exit code of a command line that is not understood. -/
def usageExitCode : Int := 2

/-- The exit code of a program that broke down. -/
def brokenDownExitCode : Int := 1

/-- How many characters a message in a frame has at most. -/
def frameWidth : Nat := 76

/-- A message in a frame. -/
def framed (text : String) : String :=
  let line (n : Nat) := String.ofList (List.replicate n '─')
  let blanks := String.ofList (List.replicate (frameWidth - text.length) ' ')
  "╭─ Error " ++ line (frameWidth - 6) ++ "╮\n" ++
    "│ " ++ text ++ blanks ++ " │\n" ++
    "╰" ++ line (frameWidth + 2) ++ "╯\n"

/-- How a command line ends that is not understood. Where an option and its value do not fit, there
is only a message. -/
def misuse (e : UsageError) : Ending :=
  match e with
  | .missingValue _ | .unexpectedValue _ => .finished usageExitCode ⟨"", framed e.text⟩
  | e => .misused e

/-- Run a command line on a machine, with what it writes on a display. -/
def run (args : List String) (display : Display) (m : Machine) : Ending × Machine :=
  match Invocation.ofArguments args with
  | .error e => (misuse e, m)
  | .ok .version => (.finished success ⟨s!"{Machine.programName} {version}\n", ""⟩, m)
  | .ok .help => (.finished success ⟨helpText ++ "\n", ""⟩, m)
  | .ok (.perform session wish task) =>
    let output := Output.ofWish wish display m
    finish output (perform session output task) m

end BearerSession.Command
