/-!
# Options among arguments

Arguments are options, each with its value where it takes one, and positional arguments. Two dashes
end the options. A single dash may be followed by several one-letter options, of which the last may
have its value attached.

The arguments are taken apart by a package and not by the program itself. It is assumed that names
are taken only in full and not by their first letters, that a value follows its option as the next
argument, whatever that looks like, or after an equals sign, and that the first argument that cannot
be understood decides the error.
-/

namespace BearerSession.Command

/-- Why arguments are not understood. -/
inductive UsageError where
  /-- An option stands last without its value. -/
  | missingValue (option : String)
  /-- A value is attached to an option that takes none. -/
  | unexpectedValue (option : String)
  /-- There is no such option. -/
  | unknownOption (option : String)
  /-- No command is named. -/
  | missingCommand
  /-- There is no such command. -/
  | unknownCommand (name : String)
  /-- An argument is missing. -/
  | missingArgument (name : String)
  /-- There are more arguments than the command takes. -/
  | extraArgument (value : String)
  /-- An argument has a value that it does not take. -/
  | badArgument (name value : String)
  deriving DecidableEq, Repr

/-- The wording of a usage error. -/
def UsageError.text : UsageError → String
  | .missingValue option => s!"Option '{option}' requires an argument."
  | .unexpectedValue option => s!"Option '{option}' does not take a value."
  | .unknownOption option => s!"No such option: {option}"
  | .missingCommand => "Missing command."
  | .unknownCommand name => s!"No such command '{name}'."
  | .missingArgument name => s!"Missing argument '{name}'."
  | .extraArgument value => s!"Got unexpected extra argument ({value})"
  | .badArgument name value => s!"Invalid value for '{name}': '{value}'"

/-- What an option means. -/
inductive OptionRule (α : Type) where
  /-- It stands for itself. -/
  | flag (meaning : α)
  /-- It takes a value. -/
  | value (meaning : String → α)

/-- An option: its names with their dashes, and what it means. -/
structure OptionSpec (α : Type) where
  /-- The names. -/
  names : List String
  /-- The meaning. -/
  rule : OptionRule α

/-- What one argument says. -/
inductive Taken (α : Type) where
  /-- It says all that it means. -/
  | done (found : List α)
  /-- Its last option takes the next argument. -/
  | awaits (found : List α) (option : String) (meaning : String → α)

/-- Put one more option before the others. -/
def Taken.after {α : Type} (a : α) : Taken α → Taken α
  | .done found => .done (a :: found)
  | .awaits found option meaning => .awaits (a :: found) option meaning

section Scan

variable {α : Type} (specs : List (OptionSpec α))

/-- The meaning of an option's name. -/
def ruleOf? (name : String) : Option (OptionRule α) :=
  (specs.find? fun s => s.names.contains name).map OptionSpec.rule

/-- An argument that is the full name of an option, perhaps with a value after an equals sign. -/
def takeNamed (rule : OptionRule α) (name : String) (attached : Option String) :
    Except UsageError (Taken α) :=
  match rule, attached with
  | .flag a, none => .ok (.done [a])
  | .flag _, some _ => .error (.unexpectedValue name)
  | .value f, some v => .ok (.done [f v])
  | .value f, none => .ok (.awaits [] name f)

/-- The one-letter options after a single dash. -/
def takeLetters : List Char → Except UsageError (Taken α)
  | [] => .ok (.done [])
  | c :: rest =>
    let name := String.ofList ['-', c]
    match ruleOf? specs name with
    | none => .error (.unknownOption name)
    | some (.flag a) => (takeLetters rest).map (Taken.after a)
    | some (.value f) =>
      .ok (if rest.isEmpty then .awaits [] name f else .done [f (String.ofList rest)])

/-- Whether an argument begins with two dashes. -/
def isLong (arg : List Char) : Bool := ['-', '-'].isPrefixOf arg

/-- Whether an argument names options: it begins with a dash and is not only that. -/
def isOption (arg : List Char) : Bool := ['-'].isPrefixOf arg && 2 ≤ arg.length

/-- What an argument that names options says. -/
def take (arg : List Char) : Except UsageError (Taken α) :=
  let name := String.ofList (arg.takeWhile (· ≠ '='))
  let attached := match arg.dropWhile (· ≠ '=') with
    | [] => none
    | _ :: value => some (String.ofList value)
  match (if isLong arg then ruleOf? specs name else none) with
  | some rule => takeNamed rule name attached
  | none => if isLong arg then .error (.unknownOption name) else takeLetters specs (arg.drop 1)

/-- The options and the positional arguments. Where options may not stand among positional
arguments, the first positional one ends the options. -/
def scan (among : Bool) : List String → Except UsageError (List α × List String)
  | [] => .ok ([], [])
  | arg :: rest =>
    if arg = "--" then .ok ([], rest)
    else if isOption arg.toList then
      match take specs arg.toList with
      | .error e => .error e
      | .ok (.done found) => (scan among rest).map fun (more, args) => (found ++ more, args)
      | .ok (.awaits found option meaning) =>
        match rest with
        | [] => .error (.missingValue option)
        | v :: rest => (scan among rest).map fun (more, args) => (found ++ meaning v :: more, args)
    else if among then (scan among rest).map fun (more, args) => (more, arg :: args)
    else .ok ([], arg :: rest)

end Scan

end BearerSession.Command
