import BearerSession.Json.Writer
import BearerSession.Machine
import BearerSession.Output.Display
import BearerSession.Value.Display

/-!
# Output

Data go to standard output, in one of three formats; what is said to people goes to standard error.
Quiet output drops what only confirms, and verbose output adds details. Whatever cannot be shown is
an error at the point where it should have been written: what has been written before stays.
-/

namespace BearerSession

/-- The formats of data. -/
inductive Format where
  /-- A JSON object. -/
  | json
  /-- Lines of a key and a value with a tabulator between them. -/
  | plain
  /-- A table for people. -/
  | rich
  deriving DecidableEq, Repr

/-- The name of a format. -/
def Format.name : Format → String
  | .json => "json"
  | .plain => "plain"
  | .rich => "rich"

/-- What has been written. -/
structure Streams where
  /-- Standard output. -/
  out : String
  /-- Standard error. -/
  err : String
  deriving DecidableEq, Repr

/-- Nothing has been written. -/
def Streams.empty : Streams := ⟨"", ""⟩

/-- How output is wished for. -/
structure OutputWish where
  /-- The format; none leaves the choice to the circumstances. -/
  format : Option Format
  /-- Never with colour. -/
  colourless : Bool
  /-- Without what only confirms. -/
  quiet : Bool
  /-- With details. -/
  verbose : Bool
  deriving DecidableEq, Repr

/-- Nothing in particular is wished for. -/
def OutputWish.none : OutputWish := ⟨.none, false, false, false⟩

/-- How output is written. -/
structure Output where
  /-- The format of data. -/
  format : Format
  /-- Without colour. -/
  colourless : Bool
  /-- Without what only confirms. -/
  quiet : Bool
  /-- With details. -/
  verbose : Bool
  /-- What shows it. -/
  display : Display

namespace Output

/-- The environment variable that forbids colour, whatever its value. -/
def noColourVariable : String := "NO_COLOR"

/-- Whether the environment forbids colour. -/
def forbidsColour (m : Machine) : Bool :=
  (m.valueOf? noColourVariable).isSome || m.valueOf? "TERM" == some "dumb"

/-- The output for a wish. Where the format is free, a terminal with colour gets tables, and all
else plain lines. -/
def ofWish (w : OutputWish) (display : Display) (m : Machine) : Output :=
  let colourless := w.colourless || forbidsColour m
  let free := if display.terminal && !colourless then Format.rich else .plain
  ⟨w.format.getD free, colourless, w.quiet, w.verbose, display⟩

/-- Write a line of data. -/
def data (o : Output) (text : String) : Act Streams Unit := fun s =>
  match o.display.refusal? text with
  | none => .ok () { s with out := s.out ++ text ++ "\n" }
  | some report => .error (.unshown (.unprintable report)) s

/-- A value in a row of data. No value is an empty one. -/
def cell (v : Value) : String := if v.isNull then "" else v.display

/-- The line of one entry. -/
def row (entry : String × Value) : String := entry.1 ++ "\t" ++ cell entry.2

/-- Write a map: an object at once, plain rows one after the other, or a table at once. -/
def mapping (o : Output) (title : Option String) (entries : List (String × Value)) :
    Act Streams Unit :=
  match o.format with
  | .json => o.data (String.ofList (Json.write .screen 0 (.map entries) []))
  | .plain => entries.forM fun entry => o.data (row entry)
  | .rich => fun s =>
    match o.display.table title (entries.map fun (key, v) => (key, cell v)) with
    | .ok table => .ok () { s with out := s.out ++ table }
    | .error fault => .error (.unshown fault) s

/-- Write a line for people. -/
def say (o : Output) (tone : Tone) (text : String) : Act Streams Unit := fun s =>
  match o.display.line o.colourless tone text with
  | .ok shown => .ok () { s with err := s.err ++ shown }
  | .error fault => .error (.unshown fault) s

/-- What only informs. -/
def info (o : Output) (text : String) : Act Streams Unit :=
  if o.quiet then pure () else o.say .note text

/-- What confirms that something was done. -/
def success (o : Output) (text : String) : Act Streams Unit :=
  if o.quiet then pure () else o.say .confirmation text

/-- A warning, which is always shown. -/
def warning (o : Output) (text : String) : Act Streams Unit := o.say .warning text

/-- An error, which is always shown. -/
def error (o : Output) (text : String) : Act Streams Unit := o.say .error text

/-- A detail. -/
def debug (o : Output) (text : String) : Act Streams Unit :=
  if o.verbose then o.say .detail text else pure ()

/-- Whether a record of the log is shown. -/
def shows (o : Output) (r : LogRecord) : Bool := o.verbose || r.level == .warning

/-- Show the records of a log. -/
def records (o : Output) (log : List LogRecord) (s : Streams) : Streams :=
  { s with err := s.err ++ String.join ((log.filter o.shows).map o.display.record) }

end Output

end BearerSession
