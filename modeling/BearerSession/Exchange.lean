import BearerSession.Durable.Basic
import BearerSession.Header.Challenge

/-!
# Authorized exchanges

A request goes out with the cached credentials. When its reply is a challenge, authorization is
obtained and the request is sent once more. A failed authorization leaves the challenge as the
answer; nothing is ever sent a third time.
-/

namespace BearerSession

/-- A reply of a server. -/
structure Reply where
  /-- Its status. -/
  status : Int
  /-- Its headers. -/
  headers : Headers

/-- What came of an exchange. -/
structure Exchange where
  /-- The fields of the requests that were sent, in order. -/
  sent : List Fields
  /-- The reply that answers the request, or the error that ended the exchange. -/
  answer : Except Raised Reply

namespace Reply

/-- A reply as a response to be looked at. -/
def toResponse (r : Reply) : Response := ⟨"Response", .is (.int r.status), .missing, .is r.headers⟩

/-- Whether a reply demands authorization. -/
def isChallenge (r : Reply) : Except Raised Bool := r.toResponse.isRequired

end Reply

namespace Exchange

/-- Set the header of the cached credentials on the fields of a request, where there is one. -/
def authorized (fields : Fields) (header : Option String) : Except Raised Fields :=
  match (HeaderTarget.request fields).authorize header with
  | .ok (.request fields) => .ok fields
  | .ok _ => .ok fields
  | .error e => .error e

/-- The fields of a request as it is sent, which reads them. -/
def prepared (fields : Fields) (header : Option String) : Except Raised Fields :=
  (authorized fields header).map Fields.read

/-- The fields of a request from pairs of names and values. They join fields that are ASCII, so
their names have to be ASCII in small letters. -/
def fieldsOf (pairs : List (Value × Value)) : Except Raised Fields := do
  let fields ← Fields.ofPairs pairs
  if fields.entries.all fun (name, _) => Text.isAscii (Text.lower name) then return fields
  else throw .unencodable

/-- Whether an error says that authorization failed. -/
def isFailure : Raised → Bool
  | .session e => e.kind == .authorizationFailure
  | _ => false

section Flow

variable {σ : Type} (header : σ → Option String) (obtain : Act σ Unit)
  (server : Nat → Except Raised Reply)

/-- Send a request for the second time. -/
def resend (first : Fields) (s : σ) : Exchange :=
  match prepared first (header s) with
  | .error e => ⟨[first], .error e⟩
  | .ok second => ⟨[first, second], server 1⟩

/-- Obtain authorization after a challenge, and send the request again if that succeeds. -/
def answerChallenge (first : Fields) (challenge : Reply) (s : σ) : Exchange × σ :=
  match obtain s with
  | .ok () s => (resend header server first s, s)
  | .error e s => (⟨[first], if isFailure e then .ok challenge else .error e⟩, s)

/-- Send a request with the cached credentials and answer a challenge. -/
def run (fields : Fields) (s : σ) : Exchange × σ :=
  match prepared fields (header s) with
  | .error e => (⟨[], .error e⟩, s)
  | .ok first =>
    match server 0 with
    | .error e => (⟨[first], .error e⟩, s)
    | .ok reply =>
      match reply.isChallenge with
      | .error e => (⟨[first], .error e⟩, s)
      | .ok false => (⟨[first], .ok reply⟩, s)
      | .ok true => answerChallenge header obtain server first reply s

end Flow

/-- The values of the authorization header of a request as one text; none where it has no such
header. -/
def headerOf (fields : Fields) : Option String :=
  match fields.values Header.authorizationName with
  | .error _ | .ok [] => none
  | .ok values => some (String.intercalate ", " values)

end Exchange

end BearerSession
