import BearerSession.Number.Decimal

/-!
# Lengths of time

A length of time is given in seconds, whole or not, and is shown as it was given.
-/

namespace BearerSession

/-- A length of time in seconds. -/
inductive Seconds where
  /-- A whole number of seconds. -/
  | whole (n : Int)
  /-- Any number of seconds. -/
  | real (x : Binary64)
  deriving DecidableEq, Repr

namespace Seconds

/-- The length as a double. -/
def value : Seconds → Binary64
  | .whole n => .ofInt n
  | .real x => x

/-- The length as it was given. -/
def text : Seconds → String
  | .whole n => toString n
  | .real x => x.text

/-- The longest time, in seconds, that anything can be waited for. -/
def longest : Binary64 := .ofInt 9223372036

end Seconds

end BearerSession
