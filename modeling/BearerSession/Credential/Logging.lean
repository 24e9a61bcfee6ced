import BearerSession.Credential.Store
import BearerSession.Log

/-!
# What a session notes

The operations of a session with what they note in the log: that a session file has been passed over
whenever the storage is used, that the policy in its cell is not known whenever it is asked for, and
what has been done to the cells.
-/

namespace BearerSession

namespace Store

/-- What asking for the policy in force notes: that the one in its cell is not known. -/
def policyNotes (s : Store) : List LogRecord :=
  match (s.cell .policy).raw with
  | some raw =>
    if (Policy.ofName? raw).isNone then
      [⟨.warning, s!"Unknown stored persistence policy {Text.literal raw}, using default"⟩]
    else []
  | none => []

/-- What asking whether a cell keeps a durable copy notes. The policy is asked for only where it
decides. -/
def persistsNotes (s : Store) (n : CellName) : List LogRecord :=
  if (s.cell n).governed then s.policyNotes else []

/-- What reading a cell notes: that its text is no JSON, where it should be an identity. -/
def readingNotes (s : Store) (n : CellName) : List LogRecord :=
  match (s.cell n).kind, (s.cell n).raw with
  | .identity, some raw =>
    match Json.read raw with
    | .error e =>
      if e.isMalformed then
        [⟨.warning, s!"Discarding unreadable identity in cell '{(s.cell n).name}'"⟩]
      else []
    | .ok _ => []
  | _, _ => []

end Store

namespace Session

open Logged (silent note)

variable {σ : Type} [Durable σ] [Noting σ]

/-- What opening a cell notes. The storage is used for it whatever the policy. -/
def restoreNotes (n : CellName) (s : Session σ) : List LogRecord :=
  s.store.persistsNotes n ++ Noting.notes s.durable

/-- What giving a cell a value notes. A value that cannot be encoded gets no further. -/
def setNotes (n : CellName) (v : Value) (s : Session σ) : List LogRecord :=
  match v, (s.store.cell n).encode v with
  | .null, _ => Noting.notes s.durable
  | _, .error _ => []
  | _, .ok _ =>
    s.store.persistsNotes n ++
      if (s.store.cell n).persists s.store.policy then Noting.notes s.durable else []

/-- What moving the value of a cell notes before it has moved. -/
def migrateNotes (n : CellName) (s : Session σ) : List LogRecord :=
  match (s.store.cell n).raw with
  | none => []
  | some _ =>
    let wanted : CellState :=
      if (s.store.cell n).persists s.store.policy then .durable else .transient
    s.store.persistsNotes n ++
      if (s.store.cell n).state = wanted then [] else Noting.notes s.durable

/-- Open a cell. -/
def loggedRestore (n : CellName) : Act (Logged (Session σ)) Unit := do
  note (restoreNotes n)
  silent (change n Cell.restore)

/-- Give a cell a value. -/
def loggedSet (n : CellName) (v : Value) : Act (Logged (Session σ)) Unit := do
  note (setNotes n v)
  silent (set n v)

/-- Empty a cell. -/
def loggedClear (n : CellName) : Act (Logged (Session σ)) Unit := do
  note fun s => Noting.notes s.durable
  silent (clear n)

/-- Read a cell. -/
def loggedGet (n : CellName) : Act (Logged (Session σ)) Value := do
  note fun s => s.store.readingNotes n
  silent (get n)

/-- Ask for the policy in force. -/
def loggedPolicy : Act (Logged (Session σ)) Policy := do
  note fun s => s.store.policyNotes
  silent do return (← MonadState.get).store.policy

/-- Move the value of a cell to where the policy wants it. -/
def loggedMigrate (n : CellName) : Act (Logged (Session σ)) Bool := do
  note (migrateNotes n)
  let moved ← silent (migrate n)
  if moved then
    note fun s =>
      let c := s.store.cell n
      [⟨.debug, s!"Cell '{c.name}' migrated to {c.state.name}"⟩]
  return moved

/-- Open all cells. -/
def loggedRestoreAll : Act (Logged (Session σ)) Unit := CellName.all.forM loggedRestore

/-- Give a cell a value unless it has one, and note that it has been given one. -/
def loggedSetIfAbsent (n : CellName) (v : Value) (done : List LogRecord) :
    Act (Logged (Session σ)) Unit := do
  if (← loggedGet n).isNull then
    loggedSet n v
    note fun _ => done

/-- Forget the tokens and the user. -/
def loggedClearAuthorization : Act (Logged (Session σ)) Unit := do
  loggedClear .accessToken
  loggedClear .idToken
  loggedClear .user
  note fun _ => [⟨.info, "Cleared authorization data"⟩]

/-- The names of cells in a record; a word where there is none. -/
def namesText (names : List CellName) : String :=
  if names.isEmpty then "none" else String.intercalate ", " (names.map CellName.key)

/-- Move the values of cells, and answer which ones have moved. -/
def loggedMigrateAll : List CellName → Act (Logged (Session σ)) (List CellName)
  | [] => return []
  | n :: rest => do
    let moved ← loggedMigrate n
    let others ← loggedMigrateAll rest
    return if moved then n :: others else others

/-- Set the policy and move the tokens to where it wants them; say whether it is a new one. -/
def loggedSetPolicy (p : Policy) : Act (Logged (Session σ)) Bool := do
  if (← loggedPolicy) = p then return false
  loggedSet .policy (.text p.name)
  let moved ← loggedMigrateAll CellName.tokens
  note fun _ => [⟨.info, s!"Persistence policy set to {p.name} (migrated: {namesText moved})"⟩]
  return true

end Session

end BearerSession
