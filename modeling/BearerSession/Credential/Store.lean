import BearerSession.Credential.Cell
import BearerSession.Grant
import BearerSession.Header.Authorization

/-!
# The credential store

A store groups the cells of one session. Its operations work on the store together with its durable
storage; a write of several cells that fails half way is taken back.
-/

namespace BearerSession

/-- The cells of a store. -/
inductive CellName where
  /-- The policy, once it has been set. -/
  | policy
  /-- The client id. -/
  | clientId
  /-- The identity of the device. -/
  | device
  /-- The identity of the application. -/
  | app
  /-- The identity of the user. -/
  | user
  /-- The access token. -/
  | accessToken
  /-- The identity token. -/
  | idToken
  deriving DecidableEq, Repr

namespace CellName

/-- The key of a cell in durable storage. -/
def key : CellName → String
  | .policy => "persistence_policy"
  | .clientId => "client_id"
  | .device => "device_identity"
  | .app => "app_identity"
  | .user => "user_identity"
  | .accessToken => "access_token"
  | .idToken => "id_token"

/-- How the values of a cell are encoded. -/
def kind : CellName → CellKind
  | .device | .app | .user => .identity
  | _ => .plain

/-- Whether the policy decides on the durability of a cell. -/
def governed : CellName → Bool
  | .accessToken | .idToken => true
  | _ => false

/-- All cells, in the order in which they are opened. -/
def all : List CellName := [.policy, .clientId, .device, .app, .user, .accessToken, .idToken]

/-- The cells whose durability follows the policy. -/
def tokens : List CellName := [.accessToken, .idToken]

/-- No two cells share a key. -/
theorem key_injective {a b : CellName} (h : a.key = b.key) : a = b := by
  cases a <;> cases b <;> first | rfl | exact absurd h (by decide)

/-- The cell of a key. -/
def ofKey? (key : String) : Option CellName := all.find? fun n => n.key = key

end CellName

/-- The cells of one session. -/
structure Store where
  /-- The policy until one has been set. -/
  defaultPolicy : Policy
  /-- The cells. -/
  cell : CellName → Cell

namespace Store

/-- A store with empty cells. -/
def blank (defaultPolicy : Policy) : Store where
  defaultPolicy
  cell n := .blank n.key n.kind n.governed

/-- Replace a cell. -/
def put (s : Store) (n : CellName) (c : Cell) : Store :=
  { s with cell := fun m => if m = n then c else s.cell m }

@[simp] theorem cell_put_self (s : Store) (n : CellName) (c : Cell) : (s.put n c).cell n = c := by
  simp [put]

@[simp] theorem cell_put_of_ne (s : Store) {n m : CellName} (c : Cell) (h : m ≠ n) :
    (s.put n c).cell m = s.cell m := by
  simp [put, h]

@[simp] theorem defaultPolicy_put (s : Store) (n : CellName) (c : Cell) :
    (s.put n c).defaultPolicy = s.defaultPolicy := rfl

/-- The policy in force: the one in its cell, or the default when there is none or none that is
known. -/
def policy (s : Store) : Policy := ((s.cell .policy).raw.bind Policy.ofName?).getD s.defaultPolicy

/-- The cached authorization header. -/
def header (s : Store) : Option String :=
  Header.authorization (s.cell .accessToken).raw (s.cell .idToken).raw

end Store

/-- A store together with its durable storage. -/
structure Session (σ : Type) where
  /-- The cells. -/
  store : Store
  /-- The durable storage. -/
  durable : σ

namespace Session

variable {σ : Type} [Durable σ]

/-- Work on one cell under the policy in force. -/
def onCell {α : Type} (n : CellName) (f : Cell → Policy → Act σ (Cell × α)) : Act (Session σ) α :=
  fun s =>
    match f (s.store.cell n) s.store.policy s.durable with
    | .ok (c, a) d => .ok a ⟨s.store.put n c, d⟩
    | .error e d => .error e { s with durable := d }

/-- Change one cell. -/
def change (n : CellName) (f : Cell → Policy → Act σ Cell) : Act (Session σ) Unit :=
  onCell n fun c p => do return (← f c p, ())

/-- Give a cell a value. -/
def set (n : CellName) (v : Value) : Act (Session σ) Unit := change n fun c p => c.set p v

/-- Empty a cell. -/
def clear (n : CellName) : Act (Session σ) Unit := change n fun c _ => c.clear

/-- Move the value of a cell to where the policy wants it. -/
def migrate (n : CellName) : Act (Session σ) Bool := onCell n Cell.migrate

/-- Read a cell. -/
def get (n : CellName) : Act (Session σ) Value := fun s =>
  match (s.store.cell n).get with
  | .ok v => .ok v s
  | .error e => .error e s

/-- Open the store that a durable storage holds. -/
def openStore (defaultPolicy : Policy) : Act σ Store := fun d =>
  let opened := CellName.all.forM (m := Act (Session σ)) fun n => change n Cell.restore
  match opened ⟨.blank defaultPolicy, d⟩ with
  | .ok () s => .ok s.store s.durable
  | .error e s => .error e s.durable

/-- Give back to cells the values they had. What cannot be given back is left. -/
def putBack : List (CellName × Value) → Act (Session σ) Unit
  | [] => pure ()
  | (n, v) :: rest => do
    try set n v catch _ => pure ()
    putBack rest

/-- The cells that a grant writes and their values, in order. -/
def grantValues (g : Grant) : List (CellName × Value) :=
  [(.accessToken, .text g.accessToken), (.idToken, .text g.idToken), (.user, g.user.toValue)] ++
    match g.clientId.bind Text.nonempty? with
    | some id => [(.clientId, .text id)]
    | none => []

/-- The present values of cells. -/
def valuesOf : List CellName → Act (Session σ) (List (CellName × Value))
  | [] => pure []
  | n :: rest => do
    let v ← get n
    return (n, v) :: (← valuesOf rest)

/-- Give values to several cells. -/
def setAll : List (CellName × Value) → Act (Session σ) Unit
  | [] => pure ()
  | (n, v) :: rest => do
    set n v
    setAll rest

/-- Write what a grant brings. If a write fails, the cells are given back what they had. -/
def writeAuthorization (g : Grant) : Act (Session σ) Unit := do
  let values := grantValues g
  let previous ← valuesOf (values.map Prod.fst)
  try setAll values
  catch e => do
    putBack previous
    throw e

/-- Forget the tokens and the user. -/
def clearAuthorization : Act (Session σ) Unit := do
  clear .accessToken
  clear .idToken
  clear .user

/-- Set the policy and move the tokens to where it wants them; say whether it is a new one. -/
def setPolicy (p : Policy) : Act (Session σ) Bool := do
  if (← MonadState.get).store.policy = p then return false
  set .policy (.text p.name)
  CellName.tokens.forM fun n => do discard (migrate n)
  return true

end Session

end BearerSession
