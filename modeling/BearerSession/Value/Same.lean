import BearerSession.Value.Basic

/-!
# Sameness of values

Numbers are the same when they denote the same number, whatever their kind; truth values count as
zero and one. Maps are the same when they have the same keys with the same values, in any order.
Records are the same when they are of one kind and agree in their fields and in what else they say.
-/

namespace BearerSession.Value

/-- The whole number that a value counts as in comparisons. -/
def asInt? : Value → Option Int
  | .bool b => some b.toNat
  | .int n => some n
  | _ => none

/-- Whether two values are the same number, where both are numbers. -/
def sameNumber? (a b : Value) : Option Bool :=
  match a, b with
  | .real x, .real y => some (x.compare? y == some .eq)
  | .real x, b => b.asInt?.map fun n => x.compareInt? n == some .eq
  | a, .real y => a.asInt?.map fun n => y.compareInt? n == some .eq
  | a, b => do some ((← a.asInt?) == (← b.asInt?))

mutual

/-- Whether two values are the same. -/
def same (a b : Value) : Bool :=
  match a, b with
  | .null, .null => true
  | .text s, .text t => s == t
  | .bytes s, .bytes t => s == t
  | .list xs, .list ys => sameItems xs ys
  | .map xs, .map ys => xs.length == ys.length && sameEntries xs ys
  | .member _ s, .member _ t => s == t
  | .record s xs us, .record t ys vs =>
    s == t && xs.length == ys.length && sameEntries xs ys &&
      us.length == vs.length && sameEntries us vs
  | a, b => (sameNumber? a b).getD false

/-- Whether two lists hold the same values. -/
def sameItems : List Value → List Value → Bool
  | [], [] => true
  | x :: xs, y :: ys => same x y && sameItems xs ys
  | _, _ => false

/-- Whether every entry is found with the same value in the other map. -/
def sameEntries : List (String × Value) → List (String × Value) → Bool
  | [], _ => true
  | (k, x) :: xs, ys =>
    (match find? ys k with
      | some y => same x y
      | none => false) && sameEntries xs ys

end

end BearerSession.Value
