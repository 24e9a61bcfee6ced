import BearerSession.Error
import BearerSession.Header.Authorization
import BearerSession.Value.Same

/-!
# Header fields

Headers come as a map from keys to values, as the fields of a request or response, or as the fields
of a message. Names are looked up without regard to case; fields of one name stand in order, and the
first one counts.

The fields of a request or response are bytes. One encoding reads all of them: ASCII where that is
possible, else UTF-8 where that is possible, else the characters of the numbers of the bytes. The
encoding is settled when fields are first read, and what is written later has to have a form in it.

Requests, responses and messages belong to packages, of which this is assumed: the three encodings
and their order, that names differing only in case are one name, that setting a field replaces the
first one of its name where that stands and drops the others, and that a message gives its fields in
the order in which they came. Nothing else of a request or response is looked at.
-/

namespace BearerSession

/-- How the bytes of header fields are read. -/
inductive FieldEncoding where
  /-- ASCII. -/
  | ascii
  /-- UTF-8. -/
  | utf8
  /-- Each byte is the character of its number. -/
  | latin
  deriving DecidableEq, Repr

namespace FieldEncoding

/-- The characters of the numbers that bytes are. -/
def latinText (b : List UInt8) : String := String.ofList (b.map fun n => Char.ofNat n.toNat)

/-- The text of UTF-8; none where bytes are something else. -/
def utf8Text? (b : List UInt8) : Option String :=
  match Text.Utf8.decode b with
  | .ok s => some (String.ofList s)
  | .error _ => none

/-- The text that bytes are, where the encoding can read them. -/
def decode? (encoding : FieldEncoding) (b : List UInt8) : Option String :=
  match encoding with
  | .ascii => if b.all fun n => n.toNat < 128 then some (latinText b) else none
  | .utf8 => utf8Text? b
  | .latin => some (latinText b)

/-- The bytes of a text, where the encoding has them. -/
def encode? (encoding : FieldEncoding) (s : String) : Option (List UInt8) :=
  match encoding with
  | .ascii => if Text.isAscii s then some (Text.Utf8.encode s.toList) else none
  | .utf8 => some (Text.Utf8.encode s.toList)
  | .latin =>
    if s.toList.all fun c => c.toNat < 256 then some (s.toList.map fun c => UInt8.ofNat c.toNat)
    else none

/-- The bytes of a text that has to have them. -/
def encode (encoding : FieldEncoding) (s : String) : Except Raised (List UInt8) :=
  match encoding.encode? s with
  | some b => .ok b
  | none => .error .unencodable

/-- The first encoding that can read all of the bytes. -/
def ofBytes (all : List (List UInt8)) : FieldEncoding :=
  if all.all fun b => (ascii.decode? b).isSome then .ascii
  else if all.all fun b => (utf8.decode? b).isSome then .utf8
  else .latin

end FieldEncoding

/-- The fields of a request or response in order. -/
structure Fields where
  /-- The names and values. -/
  items : List (List UInt8 × List UInt8)
  /-- The encoding, once it is settled. -/
  settled : Option FieldEncoding
  deriving DecidableEq, Repr

namespace Fields

/-- The bytes of the name or value of a field; a text has to be ASCII. -/
def bytesOf (otherwise : String → Raised) : Value → Except Raised (List UInt8)
  | .text s => FieldEncoding.ascii.encode s
  | .bytes b => .ok b
  | v => .error (otherwise v.typeName)

/-- The bytes of the name and value of a field. -/
def itemOf (pair : Value × Value) : Except Raised (List UInt8 × List UInt8) := do
  let name ← bytesOf Raised.unencodableName pair.1
  let value ← bytesOf (fun typeName => .misuse (.field typeName)) pair.2
  return (name, value)

/-- Fields from pairs of names and values. -/
def ofPairs (pairs : List (Value × Value)) : Except Raised Fields := do
  return ⟨← pairs.mapM itemOf, none⟩

/-- A name in small letters, as far as these are ASCII. -/
def lowerName (name : List UInt8) : List UInt8 :=
  name.map fun n => if 0x41 ≤ n.toNat ∧ n.toNat ≤ 0x5A then n + 0x20 else n

/-- The encoding of fields: the settled one, or the one that reads all of them. -/
def encoding (f : Fields) : FieldEncoding :=
  f.settled.getD (.ofBytes (f.items.flatMap fun (k, v) => [k, v]))

/-- Fields that have been read. -/
def read (f : Fields) : Fields := { f with settled := some f.encoding }

/-- The text of the name or value of a field. -/
def text (f : Fields) (b : List UInt8) : String := (f.encoding.decode? b).getD ""

/-- The fields as texts, their names in small letters. -/
def entries (f : Fields) : List (String × String) :=
  f.items.map fun (k, v) => (f.text (lowerName k), f.text v)

/-- The values of a name in order. -/
def values (f : Fields) (name : String) : Except Raised (List String) := do
  let key ← f.encoding.encode (Text.lower name)
  return (f.items.filter fun (k, _) => lowerName k = key).map fun (_, v) => f.text v

/-- Set the first field of a name in small letters and drop the others; a new field goes last. -/
def setItem (name key value : List UInt8) :
    List (List UInt8 × List UInt8) → List (List UInt8 × List UInt8)
  | [] => [(name, value)]
  | (k, v) :: rest =>
    if lowerName k = key then (name, value) :: rest.filter fun (k, _) => lowerName k ≠ key
    else (k, v) :: setItem name key value rest

/-- Set a field. Fields that have not been read take any text. -/
def set (f : Fields) (name value : String) : Except Raised Fields := do
  let encoding := f.settled.getD .utf8
  let name ← encoding.encode name
  let value ← encoding.encode value
  return { f with items := setItem name (lowerName name) value f.items }

end Fields

/-- The headers of a response. -/
inductive Headers where
  /-- No headers at all. -/
  | none
  /-- A map; its keys and values may be anything. -/
  | map (entries : List (Value × Value))
  /-- The fields of a request or response. -/
  | fields (f : Fields)
  /-- The fields of a message. -/
  | message (items : List (Value × Value))
  /-- A value that holds no headers, and the error of looking for one. -/
  | unusable (e : Raised)

namespace Headers

/-- Write a key of a map: a new key goes last, a known one keeps its place. -/
def insertEntry (key value : Value) : List (Value × Value) → List (Value × Value)
  | [] => [(key, value)]
  | (k, v) :: rest =>
    if key.same k then (k, value) :: rest else (k, v) :: insertEntry key value rest

/-- A map of headers from pairs in the order of their writing. -/
def ofPairs (pairs : List (Value × Value)) : Except Raised Headers :=
  match pairs.find? fun (k, _) => !k.isKey with
  | some (k, _) => .error (.misuse (.key k.typeName))
  | Option.none => .ok (.map (pairs.foldl (fun entries (k, v) => insertEntry k v entries) []))

/-- The headers of a response from its fields. -/
def ofFields (pairs : List (Value × Value)) : Except Raised Headers := do
  return .fields (← Fields.ofPairs pairs)

/-- The name under which a value gives its entries. -/
def entriesName : String := "items"

/-- A value as headers: only a map holds any. -/
def ofValue : Value → Headers
  | .null => .none
  | .map entries => .map (entries.map fun (k, v) => (.text k, v))
  | v =>
    match v.attribute? entriesName with
    | some u => .unusable (.misuse (.call u.typeName))
    | Option.none => .unusable (.noAttribute v.typeName entriesName)

/-- The first part of a value of several parts: the first item of a list, the first key of a map,
the first attribute of a record with its name. -/
def firstPart : Value → Except Raised Value
  | .list items => .ok (items.headD .null)
  | .map entries => .ok (((entries.head?.map Prod.fst).map Value.text).getD .null)
  | .record _ declared extras =>
    .ok (((declared ++ extras).head?.map fun (k, v) => Value.list [.text k, v]).getD .null)
  | v => .error (.misuse (.parts v.typeName))

/-- What a value of a header says: bytes as the characters of their numbers, a text as it is, and
otherwise the first part. -/
def fieldValue : Value → Except Raised Value
  | .bytes b => .ok (.text (FieldEncoding.latinText b))
  | .text s => .ok (.text s)
  | v => firstPart v

/-- The first entry whose key is a name, without regard to case. -/
def firstField? (name : String) (entries : List (Value × Value)) : Option (Value × Value) :=
  entries.find? fun (k, _) => Text.lower k.display = Text.lower name

/-- The first value of a header, or null when it is absent. -/
def firstValue (headers : Headers) (name : String) : Except Raised Value :=
  match headers with
  | .none => .ok .null
  | .fields f => do return .ofText? (← f.values name).head?
  | .map entries | .message entries =>
    match firstField? name entries with
    | some (_, v) => fieldValue v
    | Option.none => .ok .null
  | .unusable e => .error e

end Headers

/-- What a header can be set on. -/
inductive HeaderTarget where
  /-- A map of headers, or something that has one. -/
  | map (entries : List (String × Value))
  /-- The fields of an outgoing request. -/
  | request (fields : Fields)
  /-- Something without headers that can be set, by the name of its type. -/
  | other (typeName : String)
  deriving Repr

namespace HeaderTarget

/-- Set the authorization header. No header leaves the target as it is. A map keeps keys of other
spellings. -/
def authorize (target : HeaderTarget) : Option String → Except Raised HeaderTarget
  | none => .ok target
  | some header =>
    match target with
    | .map entries => .ok (.map (Value.insertEntry Header.authorizationName (.text header) entries))
    | .request fields => (fields.set Header.authorizationName header).map .request
    | .other typeName => .error (.misuse (.headers typeName))

end HeaderTarget

end BearerSession
