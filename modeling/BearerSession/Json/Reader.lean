import BearerSession.Number.Digits
import BearerSession.Value.Basic

/-!
# Reading JSON

The reader follows the grammar strictly, with three allowances: the names of the numbers that are
not finite, repeated keys, of which the last value counts, and unpaired surrogate escapes, which
read as the replacement character. Lists and maps may stand inside one another up to a limit. Each
function returns the rest of the input, and a fault is located by how much input was left.
-/

namespace BearerSession.Json

open Number (digitsValue splitDigits)

/-- What the reader missed or met. -/
inductive Complaint where
  /-- No value begins here. -/
  | value
  /-- No quoted key begins here. -/
  | key
  /-- No colon after a key. -/
  | colon
  /-- Neither a comma nor a closing bracket. -/
  | comma
  /-- A control character inside a text. -/
  | control
  /-- A text without its closing quote. -/
  | unterminated
  /-- A backslash before a character that needs none. -/
  | escape
  /-- A Unicode escape without four hexadecimal digits. -/
  | unicodeEscape
  /-- Something after the value. -/
  | extra
  /-- A byte order mark. -/
  | byteOrderMark
  deriving DecidableEq, Repr

/-- The wording of a complaint. -/
def Complaint.text : Complaint → String
  | .value => "Expecting value"
  | .key => "Expecting property name enclosed in double quotes"
  | .colon => "Expecting ':' delimiter"
  | .comma => "Expecting ',' delimiter"
  | .control => "Invalid control character at"
  | .unterminated => "Unterminated string starting at"
  | .escape => "Invalid \\escape"
  | .unicodeEscape => "Invalid \\uXXXX escape"
  | .extra => "Extra data"
  | .byteOrderMark => "Unexpected UTF-8 BOM (decode using utf-8-sig)"

/-- The values that hold other values. -/
inductive Nest where
  /-- A list. -/
  | list
  /-- A map. -/
  | map
  deriving DecidableEq, Repr

/-- The word for a nest in messages. -/
def Nest.word : Nest → String
  | .list => "array"
  | .map => "object"

/-- Why a text is refused. -/
inductive ReadError where
  /-- A break of the grammar, with the line and column counted from one and the position from zero.
  -/
  | malformed (complaint : Complaint) (line column position : Nat)
  /-- A whole number with more digits than are read. -/
  | tooManyDigits (count : Nat)
  /-- A list or map inside more others than are read. -/
  | tooDeep (nest : Nest)
  deriving DecidableEq, Repr

/-- The greatest number of digits of a whole number that is read. -/
def digitLimit : Nat := 4300

/-- How many lists and maps may stand inside one another. -/
def depthLimit : Nat := 985

/-- Whether a text is refused for its grammar, and not for its size. -/
def ReadError.isMalformed : ReadError → Bool
  | .malformed .. => true
  | _ => false

/-- The message about a refused text. -/
def ReadError.text : ReadError → String
  | .malformed complaint line column position =>
    s!"{complaint.text}: line {line} column {column} (char {position})"
  | .tooManyDigits count =>
    s!"Exceeds the limit ({digitLimit} digits) for integer string conversion: value has {count} " ++
      "digits; use sys.set_int_max_str_digits() to increase the limit"
  | .tooDeep nest =>
    s!"maximum recursion depth exceeded while decoding a JSON {nest.word} from a unicode string"

/-- A refusal inside the reader: the complaint and how many characters were left. -/
inductive Fault where
  /-- A break of the grammar. -/
  | at (complaint : Complaint) (left : Nat)
  /-- A whole number with too many digits. -/
  | digits (count : Nat)
  /-- A list or map inside too many others. -/
  | depth (nest : Nest)
  deriving DecidableEq, Repr

/-- What a reading function answers: what it read and the rest of the input. -/
abbrev Reading (α : Type) := Except Fault (α × List Char)

/-- The blanks between the parts of a JSON text. -/
def isBlank (c : Char) : Bool := c == ' ' || c == '\t' || c == '\n' || c == '\r'

/-- Drop the blanks at the start. -/
def skipBlanks (s : List Char) : List Char := s.dropWhile isBlank

/-- The value of a hexadecimal digit. -/
def hexDigit? (c : Char) : Option Nat :=
  let n := c.toNat
  if 0x30 ≤ n ∧ n ≤ 0x39 then some (n - 0x30)
  else if 0x61 ≤ n ∧ n ≤ 0x66 then some (n - 0x57)
  else if 0x41 ≤ n ∧ n ≤ 0x46 then some (n - 0x37)
  else none

/-- The value of four hexadecimal digits. -/
def hexUnit? (a b c d : Char) : Option Nat := do
  some ((((← hexDigit? a) * 16 + (← hexDigit? b)) * 16 + (← hexDigit? c)) * 16 + (← hexDigit? d))

/-- The character of an escape of one letter. -/
def escaped? : Char → Option Char
  | '"' => some '"'
  | '\\' => some '\\'
  | '/' => some '/'
  | 'b' => some '\x08'
  | 'f' => some '\x0C'
  | 'n' => some '\n'
  | 'r' => some '\r'
  | 't' => some '\t'
  | _ => none

/-- Whether a unit is the first or the second half of a pair. -/
def isHigh (n : Nat) : Bool := 0xD800 ≤ n && n < 0xDC00

/-- Whether a unit is the second half of a pair. -/
def isLow (n : Nat) : Bool := 0xDC00 ≤ n && n < 0xE000

/-- The character of a unit; halves of a pair have none of their own. A half that stands alone can
be kept by a program whose texts are made of units, but hardly any output takes it; texts here are
made of characters, so it is read as the replacement character. -/
def unitChar (n : Nat) : Char := if isHigh n || isLow n then '\uFFFD' else Char.ofNat n

/-- The character of a pair of units. -/
def pairChar (high low : Nat) : Char :=
  Char.ofNat (0x10000 + (high - 0xD800) * 0x400 + (low - 0xDC00))

/-- Put a character before a text being read. -/
def consChar (c : Char) (r : Reading (List Char)) : Reading (List Char) :=
  r.map fun (s, rest) => (c :: s, rest)

/-- What follows the first half of a pair: the second half as an escape, which joins with it, or
nothing that does. Such an escape without its digits is refused, and so is one that ends the input.
-/
def lowerHalf? (unit : Nat) (after : List Char) : Except Fault (Option Nat) :=
  match after with
  | '\\' :: 'u' :: p :: q :: r :: s :: last =>
    if isHigh unit && !last.isEmpty then
      match hexUnit? p q r s with
      | none => .error (.at .unicodeEscape (last.length + 5))
      | some second => .ok (if isLow second then some second else none)
    else .ok none
  | _ => .ok none

/-- The rest of a text after its opening quote, which stood where `opening` characters were left. -/
def readText (opening : Nat) : List Char → Reading (List Char)
  | [] => .error (.at .unterminated opening)
  | c :: rest =>
    if c = '"' then .ok ([], rest)
    else if c ≠ '\\' then
      if c.toNat < 0x20 then .error (.at .control (rest.length + 1))
      else consChar c (readText opening rest)
    else
      match rest with
      | [] => .error (.at .unterminated opening)
      | e :: more =>
        if e ≠ 'u' then
          match escaped? e with
          | some d => consChar d (readText opening more)
          | none => .error (.at .escape (more.length + 2))
        else
          match more with
          | p :: q :: r :: s :: after =>
            match hexUnit? p q r s with
            | none => .error (.at .unicodeEscape (more.length + 1))
            | some unit =>
              if after.isEmpty then .error (.at .unicodeEscape (more.length + 1))
              else
                match lowerHalf? unit after with
                | .error fault => .error fault
                | .ok none => consChar (unitChar unit) (readText opening after)
                | .ok (some second) =>
                  match after with
                  | _ :: _ :: _ :: _ :: _ :: _ :: last =>
                    consChar (pairChar unit second) (readText opening last)
                  | _ => .error (.at .unicodeEscape (more.length + 1))
          | _ => .error (.at .unicodeEscape (more.length + 1))

/-- The digits after a point, when there is at least one. -/
def readFraction (s : List Char) : List Char × List Char :=
  match s with
  | '.' :: rest => if (splitDigits rest).1.isEmpty then ([], s) else splitDigits rest
  | _ => ([], s)

/-- The power of ten after an `e`, when there is at least one digit. -/
def readExponent? (s : List Char) : Option (Int × List Char) :=
  match s with
  | e :: rest =>
    if e == 'e' || e == 'E' then
      let (negative, rest) := match rest with
        | '-' :: rest => (true, rest)
        | '+' :: rest => (false, rest)
        | rest => (false, rest)
      let (digits, rest) := splitDigits rest
      if digits.isEmpty then none
      else some (if negative then -(digitsValue digits : Int) else digitsValue digits, rest)
    else none
  | [] => none

/-- A number after its sign, whose digits before any point are `whole`. -/
def readNumberTail (negative : Bool) (whole rest : List Char) : Reading Value :=
  let (fraction, rest) := readFraction rest
  match fraction.isEmpty, readExponent? rest with
  | true, none =>
    if digitLimit < whole.length then .error (.digits whole.length)
    else
      let n : Int := digitsValue whole
      .ok (.int (if negative then -n else n), rest)
  | _, exponent =>
    let (power, rest) := exponent.getD (0, rest)
    let digits := digitsValue (whole ++ fraction)
    .ok (.real (.ofDecimal negative digits (power - fraction.length)), rest)

/-- A number. Before a point stand a single zero or digits that do not begin with one. -/
def readNumber (s : List Char) : Reading Value :=
  let (negative, unsigned) := match s with
    | '-' :: rest => (true, rest)
    | _ => (false, s)
  match unsigned with
  | '0' :: rest => readNumberTail negative ['0'] rest
  | c :: _ =>
    if c.isDigit then readNumberTail negative (splitDigits unsigned).1 (splitDigits unsigned).2
    else .error (.at .value s.length)
  | [] => .error (.at .value s.length)

mutual

/-- A value, where `depth` more lists and maps may stand inside one another. The fuel bounds the
number of nested calls, of which there are at most two for each character. -/
def readValue : (fuel depth : Nat) → List Char → Reading Value
  | 0, _, s => .error (.at .value s.length)
  | fuel + 1, depth, s =>
    match s with
    | '"' :: rest => (readText s.length rest).map fun (t, rest) => (.text (String.ofList t), rest)
    | '\x7b' :: rest =>
      if depth = 0 then .error (.depth .map)
      else
        match skipBlanks rest with
        | '\x7d' :: rest => .ok (.map [], rest)
        | rest =>
          (readEntries fuel (depth - 1) rest).map fun (pairs, rest) =>
            (.map (Value.entriesOf pairs), rest)
    | '[' :: rest =>
      if depth = 0 then .error (.depth .list)
      else
        match skipBlanks rest with
        | ']' :: rest => .ok (.list [], rest)
        | rest => (readItems fuel (depth - 1) rest).map fun (items, rest) => (.list items, rest)
    | 'n' :: 'u' :: 'l' :: 'l' :: rest => .ok (.null, rest)
    | 't' :: 'r' :: 'u' :: 'e' :: rest => .ok (.bool true, rest)
    | 'f' :: 'a' :: 'l' :: 's' :: 'e' :: rest => .ok (.bool false, rest)
    | 'N' :: 'a' :: 'N' :: rest => .ok (.real .nan, rest)
    | 'I' :: 'n' :: 'f' :: 'i' :: 'n' :: 'i' :: 't' :: 'y' :: rest =>
      .ok (.real (.infinite false), rest)
    | '-' :: 'I' :: 'n' :: 'f' :: 'i' :: 'n' :: 'i' :: 't' :: 'y' :: rest =>
      .ok (.real (.infinite true), rest)
    | s => readNumber s

/-- The entries of a map up to its closing bracket; at least one. -/
def readEntries : (fuel depth : Nat) → List Char →
    Except Fault (List (String × Value) × List Char)
  | 0, _, s => .error (.at .value s.length)
  | fuel + 1, depth, s =>
    match s with
    | '"' :: rest => do
      let (key, rest) ← readText s.length rest
      match skipBlanks rest with
      | ':' :: rest =>
        let (value, rest) ← readValue fuel depth (skipBlanks rest)
        match skipBlanks rest with
        | '\x7d' :: rest => .ok ([(String.ofList key, value)], rest)
        | ',' :: rest =>
          (readEntries fuel depth (skipBlanks rest)).map fun (more, rest) =>
            ((String.ofList key, value) :: more, rest)
        | rest => .error (.at .comma rest.length)
      | rest => .error (.at .colon rest.length)
    | s => .error (.at .key s.length)

/-- The values of a list up to its closing bracket; at least one. -/
def readItems : (fuel depth : Nat) → List Char → Except Fault (List Value × List Char)
  | 0, _, s => .error (.at .value s.length)
  | fuel + 1, depth, s => do
    let (value, rest) ← readValue fuel depth s
    match skipBlanks rest with
    | ']' :: rest => .ok ([value], rest)
    | ',' :: rest =>
      (readItems fuel depth (skipBlanks rest)).map fun (more, rest) => (value :: more, rest)
    | rest => .error (.at .comma rest.length)

end

/-- A whole text as one value with blanks around it. -/
def readWhole (s : List Char) : Except Fault Value :=
  match s with
  | '\uFEFF' :: _ => .error (.at .byteOrderMark s.length)
  | _ => do
    let (value, rest) ← readValue (2 * s.length + 1) depthLimit (skipBlanks s)
    match skipBlanks rest with
    | [] => .ok value
    | rest => .error (.at .extra rest.length)

/-- Turn the place of a fault into line, column and position. -/
def locate (s : List Char) : Fault → ReadError
  | .digits count => .tooManyDigits count
  | .depth nest => .tooDeep nest
  | .at complaint left =>
    let before := s.take (s.length - left)
    .malformed complaint (before.count '\n' + 1) ((before.reverse.takeWhile (· ≠ '\n')).length + 1)
      before.length

/-- The value that a text writes. -/
def read (s : String) : Except ReadError Value :=
  (readWhole s.toList).mapError (locate s.toList)

end BearerSession.Json
