import BearerSession.Value.Basic
import BearerSession.Number.Decimal
import BearerSession.Text.Literal

/-!
# Writing JSON

A layout says which characters are escaped and whether the parts of a value go on lines of their
own. Values without a JSON form are written as nothing; `encode` refuses them beforehand.
-/

namespace BearerSession.Json

/-- How JSON text is laid out. -/
structure Layout where
  /-- Whether all characters outside ASCII are escaped. -/
  asciiOnly : Bool
  /-- How many spaces each level is indented; none keeps the whole value on one line. -/
  indent : Option Nat
  deriving DecidableEq, Repr

/-- One line, ASCII only. -/
def Layout.line : Layout := ⟨true, none⟩

/-- Two spaces for each level, ASCII only. -/
def Layout.file : Layout := ⟨true, some 2⟩

/-- Two spaces for each level, all characters as they are. -/
def Layout.screen : Layout := ⟨false, some 2⟩

/-- The escape of one unit of sixteen bits. -/
def unicodeEscape (n : Nat) : List Char := '\\' :: 'u' :: Text.hex 4 n

/-- The written form of one character inside a text. -/
def writeChar (asciiOnly : Bool) (c : Char) : List Char :=
  let n := c.toNat
  if c = '"' ∨ c = '\\' then ['\\', c]
  else if c = '\n' then ['\\', 'n']
  else if c = '\r' then ['\\', 'r']
  else if c = '\t' then ['\\', 't']
  else if n = 8 then ['\\', 'b']
  else if n = 12 then ['\\', 'f']
  else if n < 0x20 then unicodeEscape n
  else if n < 0x7F ∨ asciiOnly = false then [c]
  else if n < 0x10000 then unicodeEscape n
  else
    unicodeEscape (0xD800 + (n - 0x10000) / 0x400) ++
      unicodeEscape (0xDC00 + (n - 0x10000) % 0x400)

/-- A text between quotes. -/
def writeText (asciiOnly : Bool) (s : String) : List Char :=
  '"' :: s.toList.flatMap (writeChar asciiOnly) ++ ['"']

/-- A double; the ones that are no finite numbers have names. -/
def writeReal : Binary64 → List Char
  | .nan => "NaN".toList
  | .infinite negative => (if negative then "-Infinity" else "Infinity").toList
  | x => x.text.toList

/-- What stands before each part of a list or map at a depth, and before its closing bracket. -/
def Layout.break (layout : Layout) (depth : Nat) : List Char :=
  match layout.indent with
  | none => []
  | some width => '\n' :: List.replicate (width * depth) ' '

/-- What stands between two parts of a list or map. -/
def Layout.comma (layout : Layout) (depth : Nat) : List Char :=
  match layout.indent with
  | none => [',', ' ']
  | some _ => ',' :: layout.break depth

mutual

/-- The JSON text of a value at a depth, before what follows it. -/
def write (layout : Layout) (depth : Nat) (v : Value) (rest : List Char) : List Char :=
  match v with
  | .null => "null".toList ++ rest
  | .bool b => (if b then "true" else "false").toList ++ rest
  | .int n => (toString n).toList ++ rest
  | .real x => writeReal x ++ rest
  | .text s | .member _ s => writeText layout.asciiOnly s ++ rest
  | .list [] => '[' :: ']' :: rest
  | .list items =>
    '[' :: writeItems layout (depth + 1) (layout.break (depth + 1)) items
      (layout.break depth ++ ']' :: rest)
  | .map [] => '\x7b' :: '\x7d' :: rest
  | .map entries =>
    '\x7b' :: writeEntries layout (depth + 1) (layout.break (depth + 1)) entries
      (layout.break depth ++ '\x7d' :: rest)
  | .bytes _ | .record .. => rest

/-- The JSON texts of the values of a list, each after what separates it from what stands before
it. -/
def writeItems (layout : Layout) (depth : Nat) (separator : List Char) (items : List Value)
    (rest : List Char) : List Char :=
  match items with
  | [] => rest
  | v :: items =>
    separator ++ write layout depth v (writeItems layout depth (layout.comma depth) items rest)

/-- The JSON texts of the entries of a map, each after what separates it from what stands before
it. -/
def writeEntries (layout : Layout) (depth : Nat) (separator : List Char)
    (entries : List (String × Value)) (rest : List Char) : List Char :=
  match entries with
  | [] => rest
  | (k, v) :: entries =>
    separator ++ writeText layout.asciiOnly k ++ ':' :: ' ' ::
      write layout depth v (writeEntries layout depth (layout.comma depth) entries rest)

end

mutual

/-- What follows a value does not change how it is written. -/
theorem write_append (layout : Layout) (depth : Nat) (v : Value) (rest : List Char) :
    write layout depth v rest = write layout depth v [] ++ rest := by
  match v with
  | .null | .bool _ | .int _ | .real _ | .text _ | .member _ _ | .bytes _ | .record .. =>
    simp [write]
  | .list [] | .map [] => simp [write]
  | .list (v :: items) =>
    simp only [write]
    rw [writeItems_append, writeItems_append layout _ _ (v :: items) (_ ++ [']'])]
    simp
  | .map (e :: entries) =>
    simp only [write]
    rw [writeEntries_append, writeEntries_append layout _ _ (e :: entries) (_ ++ ['\x7d'])]
    simp

/-- What follows the values of a list does not change how they are written. -/
theorem writeItems_append (layout : Layout) (depth : Nat) (separator : List Char)
    (items : List Value) (rest : List Char) :
    writeItems layout depth separator items rest =
      writeItems layout depth separator items [] ++ rest := by
  match items with
  | [] => simp [writeItems]
  | v :: items =>
    simp only [writeItems]
    rw [write_append, writeItems_append, write_append layout depth v (writeItems ..)]
    simp

/-- What follows the entries of a map does not change how they are written. -/
theorem writeEntries_append (layout : Layout) (depth : Nat) (separator : List Char)
    (entries : List (String × Value)) (rest : List Char) :
    writeEntries layout depth separator entries rest =
      writeEntries layout depth separator entries [] ++ rest := by
  match entries with
  | [] => simp [writeEntries]
  | (k, v) :: entries =>
    simp only [writeEntries]
    rw [write_append, writeEntries_append, write_append layout depth v (writeEntries ..)]
    simp

end

/-- The JSON text of a value, or the type of a part of it that has no JSON form. -/
def encode (layout : Layout) (v : Value) : Except String String :=
  match v.unstorable? with
  | some typeName => .error typeName
  | none => .ok (String.ofList (write layout 0 v []))

end BearerSession.Json
