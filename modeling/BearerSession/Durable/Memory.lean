import BearerSession.Durable.Basic

/-!
# The memory backend

Values live as long as the backend. Planned refusals make writes and removals fail before they
change anything.
-/

namespace BearerSession

/-- The operations that a planned refusal concerns. -/
inductive WriteKind where
  /-- Writing a value. -/
  | set
  /-- Removing a key. -/
  | remove
  deriving DecidableEq, Repr

/-- The word for an operation. -/
def WriteKind.word : WriteKind → String
  | .set => "set"
  | .remove => "remove"

/-- A planned refusal. -/
structure PlannedRefusal where
  /-- The operation. -/
  kind : WriteKind
  /-- The key. -/
  key : String
  /-- How often it is still refused; a negative number for ever. -/
  times : Int
  deriving DecidableEq, Repr

/-- The memory backend. -/
structure Memory where
  /-- The values by key, in the order of their first writing. -/
  values : List (String × String)
  /-- The planned refusals. -/
  refusals : List PlannedRefusal
  deriving DecidableEq, Repr

namespace Memory

/-- Use up the first planned refusal that concerns an operation; none when nothing does. -/
def refuse? (kind : WriteKind) (key : String) : List PlannedRefusal → Option (List PlannedRefusal)
  | [] => none
  | r :: rest =>
    if r.kind = kind ∧ r.key = key ∧ r.times ≠ 0 then some ({ r with times := r.times - 1 } :: rest)
    else (refuse? kind key rest).map (r :: ·)

/-- Do what an operation does to the values, unless it is refused. -/
def attempt (kind : WriteKind) (key : String)
    (change : List (String × String) → List (String × String)) : Act Memory Unit := fun m =>
  match refuse? kind key m.refusals with
  | some refusals => .error (.session (.refusedWrite kind.word key)) { m with refusals }
  | none => .ok () { m with values := change m.values }

instance : Durable Memory where
  get key m := .ok (Value.find? m.values key)
  set key value := attempt .set key (Value.insertEntry key value)
  remove key := attempt .remove key (Value.eraseEntry key)

instance : LawfulDurable Memory where
  value? m key := Value.find? m.values key
  get_eq _ _ := rfl
  set_ok s t key value h other := by
    simp only [Durable.set, attempt] at h
    split at h <;> cases h
    simp
  set_error s t key value e h other := by
    simp only [Durable.set, attempt] at h
    split at h <;> cases h
    rfl
  remove_ok s t key h other := by
    simp only [Durable.remove, attempt] at h
    split at h <;> cases h
    simp
  remove_error s t key e h other := by
    simp only [Durable.remove, attempt] at h
    split at h <;> cases h
    rfl

/-- The keys with a value, in code point order. -/
def keys (m : Memory) : List String := (m.values.map Prod.fst).mergeSort fun a b => a ≤ b

end Memory

end BearerSession
