import BearerSession.Grant

/-!
# Outcomes

An attempt ends with a grant or with a failure, never with both and never with neither.
-/

namespace BearerSession

/-- How an attempt ends. -/
inductive Outcome where
  /-- It brought a grant. -/
  | success (grant : Grant)
  /-- It failed. -/
  | failure (reason : Failure)

namespace Outcome

/-- Whether an attempt succeeded. -/
def succeeded : Outcome → Bool
  | .success _ => true
  | .failure _ => false

/-- The grant of a success. -/
def grant? : Outcome → Option Grant
  | .success g => some g
  | .failure _ => none

/-- The reason of a failure. -/
def failure? : Outcome → Option Failure
  | .success _ => none
  | .failure r => some r

/-- An outcome from a grant or a failure; exactly one of them is needed. -/
def ofParts : Option Grant → Option Failure → Except Raised Outcome
  | some g, none => .ok (.success g)
  | none, some r => .ok (.failure r)
  | _, _ => .error .ambiguousOutcome

/-- The failed outcome that an error amounts to. -/
def ofRaised (e : Raised) : Outcome := .failure e.toFailure

end Outcome

end BearerSession
