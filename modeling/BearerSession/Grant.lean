import BearerSession.Identity

/-!
# Grants

A grant is what a successful authorization yields: two tokens, the identity of the user, and the
client id when the installation was registered on the way. A grant with an empty token does not
exist.
-/

namespace BearerSession

/-- The tokens and identity of a successful authorization. -/
structure Grant where
  /-- The access token. -/
  accessToken : String
  /-- The identity token. -/
  idToken : String
  /-- The authorized user. -/
  user : Identity .user
  /-- The client id, when one was assigned. -/
  clientId : Option String
  /-- The access token is not empty. -/
  accessToken_ne : accessToken ≠ ""
  /-- The identity token is not empty. -/
  idToken_ne : idToken ≠ ""

namespace Grant

open Validation

/-- The title of grants in reports. -/
def title : String := "AuthorizationResult"

/-- A token: a text that is not empty. -/
def tokenRule (place : List String) : Option Value → Checked { s : String // s ≠ "" }
  | none => broken place .missing
  | some v =>
    match Identity.textRule place v with
    | .error issues => .error issues
    | .ok s => if h : s = "" then broken place .textTooShort else .ok ⟨s, h⟩

/-- The user: an identity, which says nothing when it is missing. -/
def userRule : Option Value → Checked (Identity .user)
  | none => .ok .empty
  | some v => under "user_identity" (Identity.ofValue v)

/-- The client id: a text or nothing. -/
def clientRule : Option Value → Checked (Option String)
  | none => .ok none
  | some v => Identity.textRule? ["client_id"] v

/-- Read a grant from the entries of a map. -/
def ofEntries (entries : List (String × Value)) : Checked Grant :=
  let make (access id : { s : String // s ≠ "" }) (user : Identity .user)
      (client : Option String) :=
    Grant.mk access.1 id.1 user client access.2 id.2
  also (also (also ((tokenRule ["access_token"] (Value.find? entries "access_token")).map make)
    (tokenRule ["id_token"] (Value.find? entries "id_token")))
    (userRule (Value.find? entries "user_identity")))
    (clientRule (Value.find? entries "client_id"))

/-- Read a grant from a value. -/
def ofValue (v : Value) : Except Report Grant :=
  reported title <| match v with
    | .map entries => ofEntries entries
    | .record t fields _ => if t = title then ofEntries fields else broken [] .record
    | _ => broken [] .record

/-- The fields of a grant under their names. -/
def fields (g : Grant) : List (String × Value) :=
  [("access_token", .text g.accessToken), ("id_token", .text g.idToken),
    ("user_identity", g.user.toValue), ("client_id", .ofText? g.clientId)]

/-- A grant as a value. -/
def toValue (g : Grant) : Value := .record title g.fields []

end Grant

end BearerSession
