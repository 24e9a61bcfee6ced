import BearerSession.Error

/-!
# Stored forms

What is kept of a record is JSON data: fields go under their keys, bytes become the text that they
are in UTF-8, members of enumerations become their names, and doubles that are no finite numbers
become null. Declared fields have been checked when the record was made and keep any double. What
else a record says may be nested, but not without bound.
-/

namespace BearerSession.Value

/-- How many values may stand inside one another in what a record says besides its fields. -/
def nestingLimit : Nat := 255

/-- How records are laid out in their stored form. -/
structure StoredLayout where
  /-- The key of a field by its name. -/
  key : String → String
  /-- Whether a null is kept where a field has no value. -/
  nulls : Bool

/-- Whether an entry of a record is left out. -/
def StoredLayout.omits (layout : StoredLayout) (v : Value) : Bool := !layout.nulls && v.isNull

/-- The text that bytes are. -/
def storedBytes (b : List UInt8) : Except Raised Value :=
  match Text.Utf8.decode b with
  | .ok s => .ok (.text (String.ofList s))
  | .error fault => .error (.undecodable fault)

/-- A double that is a finite number, or null. -/
def storedReal (x : Binary64) : Value :=
  match x with
  | .finite .. => .real x
  | _ => .null

mutual

/-- The stored form of a value that no rule has checked, where `levels` more values may stand inside
one another. -/
def storedValue (layout : StoredLayout) (levels : Nat) (v : Value) : Except Raised Value :=
  if levels = 0 then .error .overnested
  else
    match v with
    | .real x => .ok (storedReal x)
    | .bytes b => storedBytes b
    | .list items => (storedItems layout (levels - 1) items).map .list
    | .map entries => (storedEntries layout (levels - 1) entries).map .map
    | .member _ name => .ok (.text name)
    | .record _ fields extras =>
      match storedFields layout (levels - 1) fields, storedExtras layout (levels - 1) extras with
      | .ok declared, .ok more => .ok (.map (declared ++ more))
      | .error e, _ | _, .error e => .error e
    | v => .ok v

/-- The stored forms of the values of a list. -/
def storedItems (layout : StoredLayout) (levels : Nat) : List Value → Except Raised (List Value)
  | [] => .ok []
  | v :: rest =>
    match storedValue layout levels v with
    | .ok w => (storedItems layout levels rest).map (w :: ·)
    | .error e => .error e

/-- The stored forms of the entries of a map. -/
def storedEntries (layout : StoredLayout) (levels : Nat) :
    List (String × Value) → Except Raised (List (String × Value))
  | [] => .ok []
  | (k, v) :: rest =>
    match storedValue layout levels v with
    | .ok w => (storedEntries layout levels rest).map ((k, w) :: ·)
    | .error e => .error e

/-- The stored forms of what a record says besides its fields. -/
def storedExtras (layout : StoredLayout) (levels : Nat) :
    List (String × Value) → Except Raised (List (String × Value))
  | [] => .ok []
  | (k, v) :: rest =>
    if layout.omits v then storedExtras layout levels rest
    else
      match storedValue layout levels v with
      | .ok w => (storedExtras layout levels rest).map ((k, w) :: ·)
      | .error e => .error e

/-- The stored form of the value of a declared field. -/
def storedField (layout : StoredLayout) (levels : Nat) (v : Value) : Except Raised Value :=
  match v with
  | .member _ name => .ok (.text name)
  | .record _ fields extras =>
    match storedFields layout levels fields, storedExtras layout levels extras with
    | .ok declared, .ok more => .ok (.map (declared ++ more))
    | .error e, _ | _, .error e => .error e
  | v => .ok v

/-- The stored forms of declared fields under their keys. -/
def storedFields (layout : StoredLayout) (levels : Nat) :
    List (String × Value) → Except Raised (List (String × Value))
  | [] => .ok []
  | (k, v) :: rest =>
    if layout.omits v then storedFields layout levels rest
    else
      match storedField layout levels v with
      | .ok w => (storedFields layout levels rest).map ((layout.key k, w) :: ·)
      | .error e => .error e

end

/-- The map that a record is stored as. -/
def storedRecord (layout : StoredLayout) (fields extras : List (String × Value)) :
    Except Raised (List (String × Value)) := do
  return (← storedFields layout nestingLimit fields) ++ (← storedExtras layout nestingLimit extras)

end BearerSession.Value
