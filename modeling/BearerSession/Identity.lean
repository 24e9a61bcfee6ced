import BearerSession.Value.Stored

/-!
# Identities

An identity describes the host application, the device or the user by a few declared fields and
whatever else its source says. A field is looked up by its key and then by its name; what is not
used that way is kept.
-/

namespace BearerSession

/-- What an identity describes. -/
inductive IdentityKind where
  /-- The host application. -/
  | app
  /-- The device of the installation. -/
  | device
  /-- The authorized user. -/
  | user
  deriving DecidableEq, Repr

/-- The declared fields of identities. -/
inductive IdentityField where
  /-- The identifier. -/
  | id
  /-- The version of an application. -/
  | version
  /-- The operating system of a device. -/
  | os
  /-- The version of the operating system. -/
  | osVersion
  /-- The model of a device. -/
  | model
  /-- The name of a user for display. -/
  | displayName
  /-- The strategy by which a user was authenticated. -/
  | authBy
  deriving DecidableEq, Repr

/-- The key of a field in stored maps. -/
def IdentityField.key : IdentityField → String
  | .id => "id"
  | .version => "version"
  | .os => "os"
  | .osVersion => "osVersion"
  | .model => "model"
  | .displayName => "displayName"
  | .authBy => "authBy"

/-- The name of a field, under which it is found as well. -/
def IdentityField.name : IdentityField → String
  | .osVersion => "os_version"
  | .displayName => "display_name"
  | .authBy => "auth_by"
  | f => f.key

/-- The key of the field of a name; a name of no field is its own key. -/
def keyOfName (name : String) : String :=
  ([IdentityField.osVersion, .displayName, .authBy].find? fun f => f.name = name).elim name
    IdentityField.key

namespace IdentityKind

/-- The word for a kind. -/
def word : IdentityKind → String
  | .app => "app"
  | .device => "device"
  | .user => "user"

/-- The title of a kind in reports. -/
def title : IdentityKind → String
  | .app => "AppIdentity"
  | .device => "DeviceIdentity"
  | .user => "UserIdentity"

/-- The declared fields of a kind, in order. -/
def fields : IdentityKind → List IdentityField
  | .app => [.id, .version]
  | .device => [.id, .os, .osVersion, .model]
  | .user => [.id, .displayName, .authBy]

/-- All kinds. -/
def all : List IdentityKind := [.app, .device, .user]

end IdentityKind

/-- An identity of a kind. -/
structure Identity (kind : IdentityKind) where
  /-- The declared fields. -/
  declared : IdentityField → Option String
  /-- What else its source says. -/
  extras : List (String × Value)

namespace Identity

open Validation

variable {kind : IdentityKind}

/-- An identity that says nothing. -/
def empty : Identity kind := ⟨fun _ => none, []⟩

/-- The key under which a map holds a field: the field's key if it is there, else its name if it is
there. -/
def heldUnder? (entries : List (String × Value)) (f : IdentityField) : Option String :=
  if (Value.find? entries f.key).isSome then some f.key
  else if (Value.find? entries f.name).isSome then some f.name
  else none

/-- A text, from a text or from bytes that are UTF-8. -/
def textRule (place : List String) : Value → Checked String
  | .text s => .ok s
  | .bytes b =>
    match Text.Utf8.decode b with
    | .ok s => .ok (String.ofList s)
    | .error _ => broken place .textEncoding
  | _ => broken place .text

/-- A text or nothing. -/
def textRule? (place : List String) : Value → Checked (Option String)
  | .null => .ok none
  | v => (textRule place v).map some

/-- A declared field: a text, a number in its decimal form, or nothing. -/
def fieldRule (place : List String) : Value → Checked (Option String)
  | .int n => .ok (some (Value.int n).display)
  | .real x => .ok (some (Value.real x).display)
  | v => textRule? place v

/-- Read one field. -/
def readField (entries : List (String × Value)) (f : IdentityField) : Checked (Option String) :=
  match heldUnder? entries f with
  | none => .ok none
  | some key => fieldRule [key] ((Value.find? entries key).getD .null)

/-- Read the fields of a list. -/
def readFields (entries : List (String × Value)) :
    List IdentityField → Checked (IdentityField → Option String)
  | [] => .ok fun _ => none
  | f :: rest =>
    also ((readField entries f).map fun t others g => if g = f then t else others g)
      (readFields entries rest)

/-- The entries that no field uses. -/
def unused (kind : IdentityKind) (entries : List (String × Value)) : List (String × Value) :=
  entries.filter fun (k, _) => !(kind.fields.filterMap (heldUnder? entries)).contains k

/-- Read an identity from the entries of a map. -/
def ofEntries (entries : List (String × Value)) : Checked (Identity kind) :=
  (readFields entries kind.fields).map fun declared => ⟨declared, unused kind entries⟩

/-- The declared fields of an identity under their names. -/
def fields (i : Identity kind) : List (String × Value) :=
  kind.fields.map fun f => (f.name, .ofText? (i.declared f))

/-- The map that an identity is stored as: what it says, the declared fields under their keys. -/
def toMap (i : Identity kind) : Except Raised (List (String × Value)) :=
  Value.storedRecord ⟨keyOfName, false⟩ i.fields i.extras

/-- An identity as a value. -/
def toValue (i : Identity kind) : Value := .record kind.title i.fields i.extras

/-- Read an identity from its declared fields and what else it says. -/
def ofFields (fields extras : List (String × Value)) : Identity kind where
  declared f :=
    match Value.find? fields f.name with
    | some (.text s) => if kind.fields.contains f then some s else none
    | _ => none
  extras

/-- Read an identity from a value: a map, or an identity of the same kind. -/
def ofValue : Value → Checked (Identity kind)
  | .map entries => ofEntries entries
  | .record title fields extras =>
    if title = kind.title then .ok (ofFields fields extras) else broken [] .record
  | _ => broken [] .record

/-- Read an identity from a value that may be missing. -/
def ofGiven (v : Value) : Except Report (Identity kind) :=
  reported kind.title (ofValue (if v.isGiven then v else .map []))

/-- The name of the declared fields of an identity taken together. -/
def fieldsName : String := "__dict__"

/-- The name of the kind of an identity. -/
def kindName : String := "__class__"

/-- The one name with an underscore in front that a field could have. -/
def rootName : String := "__root__"

/-- Whether a name can be the name of a field. -/
def isFieldName (name : String) : Bool := name.toList.head? != some '_' || name = rootName

/-- The identity with other declared fields, of which none may be missing. -/
def withFields (i : Identity kind) (fields : List (String × Value)) :
    Except Raised (Identity kind) :=
  match kind.fields.find? fun f => (Value.find? fields f.name).isNone with
  | some f => .error (.noAttribute kind.title f.name)
  | none => .ok (ofFields fields i.extras)

/-- Give an attribute of an identity a value. Fields do not change once the identity is made, and
what is no field leaves it as it is; the declared fields can be replaced together. -/
def assign (i : Identity kind) (name : String) (v : Value) : Except Raised (Identity kind) :=
  if isFieldName name then .error (.invalid ⟨kind.title, [⟨[name], .frozen⟩]⟩)
  else if name = kindName then .error (.misuse (.kind v.typeName))
  else if name = fieldsName then
    match v with
    | .map fields => i.withFields fields
    | v => .error (.misuse (.fields v.typeName))
  else .ok i

/-- The identity of an application. -/
def app (id version : String) : Identity .app where
  declared
    | .id => some id
    | .version => some version
    | _ => none
  extras := []

/-- The identity of a device: a fresh identifier and what the system says of itself. -/
def device (id system release machine : String) : Identity .device where
  declared
    | .id => some id
    | .os => Text.nonempty? system
    | .osVersion => Text.nonempty? release
    | .model => Text.nonempty? machine
    | _ => none
  extras := []

end Identity

end BearerSession
