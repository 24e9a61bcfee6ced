import BearerSession.Header.Fields

/-!
# Responses that demand authorization

A response is a challenge when its status is 401 or 403 and its first `WWW-Authenticate` value
contains the scheme.
-/

namespace BearerSession

namespace Challenge

/-- The name of the header that names the accepted schemes. -/
def headerName : String := "WWW-Authenticate"

/-- The statuses of challenges. -/
def statuses : List Int := [401, 403]

/-- Whether a value is the status of a challenge. -/
def isStatus (status : Value) : Bool := statuses.any fun n => status.same (.int n)

/-- Whether a text holds another. -/
def contains (part : List Char) : List Char → Bool
  | [] => part.isEmpty
  | c :: rest => part.isPrefixOf (c :: rest) || contains part rest

/-- Whether the value of the header names the scheme. -/
def names (value : Value) : Except Raised Bool :=
  match value with
  | .text s => .ok (contains Header.bearer.toList s.toList)
  | .list items => .ok (items.any fun v => v.same (.text Header.bearer))
  | .map entries => .ok (entries.any fun (k, _) => k = Header.bearer)
  | .record .. => .ok false
  | .bytes _ => .error (.misuse .bytesContainer)
  | v => .error (.misuse (.container v.typeName))

/-- Whether a status and the value of the header make a challenge. The value counts only for the
statuses of challenges. -/
def isChallenge (status value : Value) : Except Raised Bool :=
  if !status.isKey then .error (.misuse (.key status.typeName))
  else if !isStatus status || value.isNull then .ok false
  else names value

/-- Whether a status and headers make a challenge. -/
def isRequired (status : Value) (headers : Headers) : Except Raised Bool := do
  isChallenge status (← headers.firstValue headerName)

end Challenge

/-- An attribute of a response. -/
inductive Attribute (α : Type) where
  /-- The response does not have it. -/
  | missing
  /-- Reading it raises. -/
  | raises (e : Raised)
  /-- It has a value. -/
  | is (a : α)

/-- A response as far as it is looked at. -/
structure Response where
  /-- The name of its type. -/
  typeName : String
  /-- The status as client responses have it. -/
  statusCode : Attribute Value
  /-- The status as connection responses have it. -/
  status : Attribute Value
  /-- The headers. -/
  headers : Attribute Headers

namespace Response

/-- An attribute of a value. -/
def attributeOf {α : Type} (v : Value) (name : String) (read : Value → α) : Attribute α :=
  (v.attribute? name).elim .missing fun u => .is (read u)

/-- A value as a response: a record may have what a response has, other values have nothing of it.
-/
def ofValue (v : Value) : Response where
  typeName := v.typeName
  statusCode := attributeOf v "status_code" id
  status := attributeOf v "status" id
  headers := attributeOf v "headers" Headers.ofValue

/-- Whether an error is one of reading a response. -/
def isReadError (e : Raised) : Bool :=
  match e.family with
  | .transport | .inputOutput | .attribute => true
  | _ => false

/-- The error for one raised while a response is read. Its text is asked for, which raises in turn
where there is none. -/
def readError (e : Raised) : Raised :=
  if isReadError e then e.text?.elim (.misuse .mute) fun text => .session (.unreadableResponse text)
  else e

/-- Read an attribute that may be missing. -/
def optional : Attribute Value → Except Raised Value
  | .missing => .ok .null
  | .is v => .ok v
  | .raises e => if e.family = .attribute then .ok .null else .error (readError e)

/-- Read the status: the one of client responses, else the one of connection responses. -/
def readStatus (r : Response) : Except Raised Value := do
  match ← optional r.statusCode with
  | .null => optional r.status
  | v => .ok v

/-- Read the headers. -/
def readHeaders (r : Response) : Except Raised Headers :=
  match r.headers with
  | .is h => .ok h
  | .raises e => .error (readError e)
  | .missing =>
    .error (.session (.unreadableResponse s!"'{r.typeName}' object has no attribute 'headers'"))

/-- Read status and headers. The status has to be a whole number. -/
def metadata (r : Response) : Except Raised (Value × Headers) := do
  let status ← r.readStatus
  let headers ← r.readHeaders
  match status with
  | .int _ | .bool _ => .ok (status, headers)
  | _ => .error (.session .noStatus)

/-- Whether a response demands authorization. -/
def isRequired (r : Response) : Except Raised Bool := do
  let (status, headers) ← r.metadata
  Challenge.isRequired status headers

/-- Whether a status with headers demands authorization, where the status may be a response instead.
-/
def isRequiredFor (status : Value) (headers : Headers) : Except Raised Bool :=
  match status with
  | .int _ | .bool _ => Challenge.isRequired status headers
  | v => (ofValue v).isRequired

end Response

/-- What a manager is asked about. -/
inductive Inquiry where
  /-- A status with headers. -/
  | parts (status : Value) (headers : Headers)
  /-- A response. -/
  | response (r : Response)

/-- Whether what a manager is asked about demands authorization. -/
def Inquiry.isRequired : Inquiry → Except Raised Bool
  | .parts status headers => Response.isRequiredFor status headers
  | .response r => r.isRequired

end BearerSession
