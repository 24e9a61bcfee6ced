import BearerSession.Error

/-!
# Realm handlers

A realm names an authentication strategy, and its listener answers the challenges of that realm. A
registry binds each realm to the handler registered for it last.
-/

namespace BearerSession

/-- A realm bound to its listener. -/
structure Handler (L : Type) where
  /-- The name of the realm. -/
  realm : String
  /-- Who answers its challenges. -/
  listener : L
  /-- A realm has a name. -/
  realm_ne : realm ≠ ""

/-- The handlers by realm. -/
structure Registry (L : Type) where
  /-- The bindings, each realm at most once. -/
  handlers : List (String × Handler L)

/-- An entry point under the name of a realm, and the listener it yields unless it fails. -/
structure EntryPoint (L : Type) where
  /-- The name, which is the realm. -/
  name : String
  /-- The listener; none when loading or making it fails or yields something else. -/
  listener? : Option L

namespace Registry

variable {L : Type}

/-- A registry without handlers. -/
def empty : Registry L := ⟨[]⟩

/-- The name of a realm, when a value is one: a text that is not empty. -/
def realmName? : Value → Option { s : String // s ≠ "" }
  | .text s => if h : s = "" then none else some ⟨s, h⟩
  | _ => none

/-- Bind a realm to a handler; a former binding is replaced. -/
def bind (r : Registry L) (h : Handler L) : Registry L := ⟨Value.insertEntry h.realm h r.handlers⟩

/-- The handler of a realm. -/
def handler? (r : Registry L) (realm : String) : Option (Handler L) := Value.find? r.handlers realm

/-- Register a listener for a realm. -/
def register (r : Registry L) (realm : Value) (listener : Option L) :
    Except SessionError (Handler L × Registry L) :=
  match realmName? realm, listener with
  | none, _ => .error .emptyRealm
  | some _, none => .error .nullRealmListener
  | some ⟨name, h⟩, some l => .ok (⟨name, l, h⟩, r.bind ⟨name, l, h⟩)

/-- Remove the handler of a realm. Values that name no realm are ignored, but lists and maps cannot
be looked up where there is anything to look them up in. -/
def unregister (r : Registry L) (realm : Value) : Except Raised (Registry L) :=
  if !realm.isGiven || r.handlers.isEmpty then .ok r
  else if !realm.isKey then .error (.misuse (.key realm.typeName))
  else
    match realm with
    | .text name => .ok ⟨Value.eraseEntry name r.handlers⟩
    | _ => .ok r

/-- Look up the handler of a realm. -/
def lookup (r : Registry L) (realm : Value) : Except Raised (Option (Handler L)) :=
  if !realm.isGiven then .ok none
  else if !realm.isKey then .error (.misuse (.key realm.typeName))
  else
    match realm with
    | .text name => .ok (r.handler? name)
    | _ => .ok none

/-- Whether a realm has a handler. -/
def contains (r : Registry L) (realm : Value) : Except Raised Bool :=
  if !realm.isKey then .error (.misuse (.key realm.typeName))
  else
    match realm with
    | .text name => .ok (r.handler? name).isSome
    | _ => .ok false

/-- The realms with a handler, in code point order. -/
def realms (r : Registry L) : List String := (r.handlers.map Prod.fst).mergeSort fun a b => a ≤ b

/-- How many realms have a handler. -/
def size (r : Registry L) : Nat := r.handlers.length

/-- Whether a realm is to be loaded: it is not disabled, and it is enabled if any realm is. -/
def isWanted (enabled disabled : List String) (name : String) : Bool :=
  (enabled.isEmpty || enabled.contains name) && !disabled.contains name

/-- Load one entry point: bind its realm and note its name, unless it is not wanted or yields no
handler. -/
def load (enabled disabled : List String) (state : List String × Registry L) (e : EntryPoint L) :
    List String × Registry L :=
  if isWanted enabled disabled e.name then
    match state.2.register (.text e.name) e.listener? with
    | .ok (_, r) => (state.1 ++ [e.name], r)
    | .error _ => state
  else state

/-- Load listeners from entry points; answer the names of those that were registered. -/
def discover (r : Registry L) (entryPoints : List (EntryPoint L)) (enabled disabled : List String) :
    List String × Registry L :=
  entryPoints.foldl (load enabled disabled) ([], r)

@[simp] theorem handler?_bind (r : Registry L) (h : Handler L) (realm : String) :
    (r.bind h).handler? realm = if h.realm = realm then some h else r.handler? realm := by
  simp [handler?, bind]

end Registry

end BearerSession
