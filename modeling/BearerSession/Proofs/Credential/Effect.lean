import BearerSession.Credential.Store

/-!
# Changes of a session

A session is changed by writing a grant, by forgetting what it has, and by setting its policy. A
change that raises may have changed something all the same.
-/

namespace BearerSession

/-- A change that is asked of a session. -/
inductive Effect where
  /-- A grant is written. -/
  | write (g : Grant)
  /-- The tokens and the user are forgotten. -/
  | clear
  /-- The policy is set. -/
  | setPolicy (p : Policy)

namespace Effect

/-- The grant that is written. -/
def grant? : Effect → Option Grant
  | .write g => some g
  | _ => none

/-- The session after a change, whether it succeeds or raises. -/
def apply {σ : Type} [Durable σ] (s : Session σ) : Effect → Session σ
  | .write g => Act.after (Session.writeAuthorization g) s
  | .clear => Act.after Session.clearAuthorization s
  | .setPolicy p => Act.after (Session.setPolicy p) s

end Effect

end BearerSession
