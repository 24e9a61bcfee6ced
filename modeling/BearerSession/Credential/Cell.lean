import BearerSession.Durable.Basic
import BearerSession.Identity
import BearerSession.Json.Writer
import BearerSession.Policy

/-!
# Cells

A cell is a named slot for one value. It keeps the value in memory and, where the cell or the policy
asks for it, a durable copy under its name. The durable copy changes first, so a refusal leaves the
cell as it was.
-/

namespace BearerSession

/-- Where the value of a cell lives. -/
inductive CellState where
  /-- In memory only; also the state of an empty cell. -/
  | transient
  /-- In memory and in durable storage. -/
  | durable
  deriving DecidableEq, Repr

/-- The name of a state. -/
def CellState.name : CellState → String
  | .transient => "TRANSIENT"
  | .durable => "DURABLE"

/-- How values are encoded in a cell. -/
inductive CellKind where
  /-- Any value, kept as its text. -/
  | plain
  /-- A map, kept as JSON. -/
  | identity
  deriving DecidableEq, Repr

/-- A cell. -/
structure Cell where
  /-- Its name, which is also its key in durable storage. -/
  name : String
  /-- How its values are encoded. -/
  kind : CellKind
  /-- Whether the policy decides on its durability; otherwise it is always durable. -/
  governed : Bool
  /-- The encoded value. -/
  raw : Option String
  /-- Where the value lives. -/
  state : CellState
  deriving DecidableEq, Repr

namespace Cell

/-- Whether a cell keeps a durable copy under a policy. -/
def persists (c : Cell) (p : Policy) : Bool := !c.governed || p == .always

/-- The entries of a value that an identity cell of a name takes: those of a map, or what an
identity is stored as. -/
def entriesOf (name : String) : Value → Except Raised (List (String × Value))
  | .map entries => .ok entries
  | .record title fields extras =>
    match IdentityKind.all.find? fun kind => kind.title = title with
    | some kind => (Identity.ofFields fields extras : Identity kind).toMap
    | none => .error (.misuse (.identity name))
  | _ => .error (.misuse (.identity name))

/-- Encode a value for a cell. -/
def encode (c : Cell) (v : Value) : Except Raised String :=
  match c.kind with
  | .plain => .ok v.display
  | .identity =>
    match entriesOf c.name v with
    | .error e => .error e
    | .ok entries =>
      match Json.encode .line (Value.map entries).sorted with
      | .ok s => .ok s
      | .error typeName => .error (.misuse (.unstorable typeName))

/-- Decode the text of an identity: a JSON object, or nothing. -/
def decodeIdentity (raw : String) : Except Raised (Option (List (String × Value))) :=
  match Json.read raw with
  | .ok (.map entries) => .ok (some entries)
  | .ok _ | .error (.malformed ..) => .ok none
  | .error e => .error (.notJson e)

/-- The identity in a cell; none when the cell is empty or its text is no JSON object. -/
def identity? (c : Cell) : Except Raised (Option (List (String × Value))) :=
  match c.raw with
  | none => .ok none
  | some raw => decodeIdentity raw

/-- The value of a cell. -/
def get (c : Cell) : Except Raised Value :=
  match c.kind with
  | .plain => .ok (.ofText? c.raw)
  | .identity => c.identity?.map fun entries => entries.elim .null .map

/-- The entries of the identity in a cell, none of them when there is no identity. -/
def getAsMap (c : Cell) : Except Raised (List (String × Value)) :=
  c.identity?.map fun entries => entries.getD []

section Changes

variable {σ : Type} [Durable σ]

/-- An empty cell. -/
def blank (name : String) (kind : CellKind) (governed : Bool) : Cell :=
  ⟨name, kind, governed, none, .transient⟩

/-- Open a cell: take over the durable copy, or remove one that the policy does not allow. -/
def restore (c : Cell) (p : Policy) : Act σ Cell := do
  if c.persists p then
    match ← Durable.read c.name with
    | some raw => return { c with raw := some raw, state := .durable }
    | none => return c
  else
    Durable.remove c.name
    return c

/-- Empty a cell. -/
def clear (c : Cell) : Act σ Cell := do
  Durable.remove c.name
  return { c with raw := none, state := .transient }

/-- Give a cell an encoded value. -/
def write (c : Cell) (p : Policy) (raw : String) : Act σ Cell := do
  if c.persists p then
    Durable.set c.name raw
    return { c with raw := some raw, state := .durable }
  else
    return { c with raw := some raw, state := .transient }

/-- Give a cell a value. No value empties it. -/
def set (c : Cell) (p : Policy) (v : Value) : Act σ Cell :=
  match v with
  | .null => c.clear
  | v =>
    match c.encode v with
    | .ok raw => c.write p raw
    | .error e => throw e

/-- Move the value of a cell to where the policy wants it, and say whether it moved. -/
def migrate (c : Cell) (p : Policy) : Act σ (Cell × Bool) := do
  match c.raw with
  | none => return (c, false)
  | some raw =>
    if c.persists p then
      if c.state = .durable then return (c, false)
      Durable.set c.name raw
      return ({ c with state := .durable }, true)
    else
      if c.state = .transient then return (c, false)
      Durable.remove c.name
      return ({ c with state := .transient }, true)

end Changes

end Cell

end BearerSession
