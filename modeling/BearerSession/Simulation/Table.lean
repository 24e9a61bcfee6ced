/-!
# Tables of named things

Things are kept by the order in which they were made, and names lead to them. A name can be given
anew; the thing it led to before stays.
-/

namespace BearerSession.Simulation

/-- A table of named things. -/
structure Table (α : Type) where
  /-- The things, in the order of their making. -/
  items : List α
  /-- The names and what they lead to, the latest first. -/
  names : List (String × Nat)

namespace Table

variable {α : Type}

/-- A table without things. -/
def empty : Table α := ⟨[], []⟩

/-- Make a thing without a name; answer where it is. -/
def push (t : Table α) (a : α) : Nat × Table α :=
  (t.items.length, { t with items := t.items ++ [a] })

/-- Give a name to a thing. -/
def name (t : Table α) (n : String) (i : Nat) : Table α :=
  { t with names := (n, i) :: t.names.filter fun e => e.1 ≠ n }

/-- Make a thing with a name. -/
def add (t : Table α) (n : String) (a : α) : Table α :=
  let (i, t) := t.push a
  t.name n i

/-- Where a name leads. -/
def find? (t : Table α) (n : String) : Option Nat := t.names.lookup n

/-- The thing at a place. -/
def get? (t : Table α) (i : Nat) : Option α := t.items[i]?

/-- Change the thing at a place. -/
def modify (t : Table α) (i : Nat) (f : α → α) : Table α := { t with items := t.items.modify i f }

/-- The names of a thing, in code point order. -/
def namesOf (t : Table α) (i : Nat) : List String :=
  ((t.names.filter fun e => e.2 = i).map Prod.fst).mergeSort fun a b => a ≤ b

end Table

end BearerSession.Simulation
