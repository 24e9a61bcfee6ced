import BearerSession.Number.Binary64

/-!
# Values

Whatever a session is handed from outside or keeps in structured form: the values of JSON, bytes,
and records of the library seen as values. Maps keep the order in which their keys were first
written.
-/

namespace BearerSession

/-- A value handed to the session or kept by it. -/
inductive Value where
  /-- No value. -/
  | null
  /-- A truth value. -/
  | bool (b : Bool)
  /-- A whole number of any size. -/
  | int (n : Int)
  /-- A double-precision number. -/
  | real (x : Binary64)
  /-- A text. -/
  | text (s : String)
  /-- A sequence of bytes. -/
  | bytes (b : List UInt8)
  /-- A list of values. -/
  | list (items : List Value)
  /-- A map with text keys, each at most once. -/
  | map (entries : List (String × Value))
  /-- A member of an enumeration, by the title of the enumeration and its own name. -/
  | member (title name : String)
  /-- A record: its title, its declared fields, and what else was said when it was made. -/
  | record (title : String) (fields extras : List (String × Value))
  deriving Repr

namespace Value

instance : Inhabited Value := ⟨.null⟩

/-- Write a key of a map: a new key goes last, a known one keeps its place and takes the value. -/
def insertEntry {α : Type} (key : String) (value : α) : List (String × α) → List (String × α)
  | [] => [(key, value)]
  | (k, v) :: rest => if k = key then (k, value) :: rest else (k, v) :: insertEntry key value rest

/-- Read a key of a map. -/
def find? {α : Type} (entries : List (String × α)) (key : String) : Option α :=
  (entries.find? fun (k, _) => k = key).map Prod.snd

/-- Drop a key of a map. -/
def eraseEntry {α : Type} (key : String) (entries : List (String × α)) : List (String × α) :=
  entries.filter fun (k, _) => k ≠ key

/-- A map from pairs in the order of their writing. -/
def entriesOf {α : Type} (pairs : List (String × α)) : List (String × α) :=
  pairs.foldl (fun entries (k, v) => insertEntry k v entries) []

/-- A key just written reads back, and the other keys read as before. -/
@[simp] theorem find?_insertEntry {α : Type} (entries : List (String × α)) (key other : String)
    (value : α) :
    find? (insertEntry key value entries) other =
      if key = other then some value else find? entries other := by
  induction entries with
  | nil => by_cases h : key = other <;> simp [insertEntry, find?, h]
  | cons head rest ih =>
    obtain ⟨k, v⟩ := head
    simp only [find?] at ih ⊢
    by_cases hk : k = key
    · subst hk
      by_cases h : k = other <;> simp [insertEntry, h]
    · by_cases h : k = other
      · subst h
        simp [insertEntry, hk, Ne.symm hk]
      · simp only [insertEntry, hk, if_false, List.find?_cons, h, decide_false, ih]

/-- An erased key is absent, and the other keys read as before. -/
@[simp] theorem find?_eraseEntry {α : Type} (entries : List (String × α)) (key other : String) :
    find? (eraseEntry key entries) other = if key = other then none else find? entries other := by
  induction entries with
  | nil => simp [eraseEntry, find?]
  | cons head rest ih =>
    obtain ⟨k, v⟩ := head
    simp only [find?, eraseEntry] at ih ⊢
    by_cases hk : k = key
    · subst hk
      by_cases h : k = other
      · subst h
        simp
      · simpa [List.find?_cons, h] using ih
    · by_cases h : k = other
      · subst h
        simp [hk, Ne.symm hk]
      · simp only [List.filter_cons, ne_eq, hk, not_false_eq_true, decide_true, if_true,
          List.find?_cons, h, decide_false]
        exact ih

/-- Whether a value counts as given: neither absent, nor false, nor zero, nor empty. -/
def isGiven : Value → Bool
  | .null => false
  | .bool b => b
  | .int n => n != 0
  | .real x => x.compareInt? 0 != some .eq
  | .text s => !s.isEmpty
  | .bytes b => !b.isEmpty
  | .list items => !items.isEmpty
  | .map entries => !entries.isEmpty
  | .member .. | .record .. => true

/-- The titles of records that can change, which therefore are no keys. -/
def changeableTitles : List String := ["StorageConfig", "SessionConfig"]

/-- Whether a value can be the key of a look-up: lists, maps and changeable records cannot. -/
def isKey : Value → Bool
  | .list _ | .map _ => false
  | .record title .. => !changeableTitles.contains title
  | _ => true

/-- Whether a value is no value. -/
def isNull : Value → Bool
  | .null => true
  | _ => false

/-- A text, or no value. -/
def ofText? : Option String → Value
  | some s => .text s
  | none => .null

/-- An attribute of a record: a declared field, or else something that was said besides. -/
def attribute? (name : String) : Value → Option Value
  | .record _ fields extras => (find? fields name).or (find? extras name)
  | _ => none

/-- The name of the type of a value in messages. -/
def typeName : Value → String
  | .null => "NoneType"
  | .bool _ => "bool"
  | .int _ => "int"
  | .real _ => "float"
  | .text _ => "str"
  | .bytes _ => "bytes"
  | .list _ => "list"
  | .map _ => "dict"
  | .member title _ => title
  | .record title .. => title

mutual

/-- The type of the first part of a value that has no JSON form: bytes and records have none. -/
def unstorable? : Value → Option String
  | .bytes _ => some "bytes"
  | .record title .. => some title
  | .list items => unstorableItem? items
  | .map entries => unstorablePair? entries
  | _ => none

/-- The type of the first value of a list that has no JSON form. -/
def unstorableItem? : List Value → Option String
  | [] => none
  | v :: rest => v.unstorable?.or (unstorableItem? rest)

/-- The type of the first value of a map that has no JSON form. -/
def unstorablePair? : List (String × Value) → Option String
  | [] => none
  | (_, v) :: rest => v.unstorable?.or (unstorablePair? rest)

end

mutual

/-- The same value with the keys of every map in code point order. -/
def sorted : Value → Value
  | .list items => .list (sortedItems items)
  | .map entries => .map ((sortedEntries entries).mergeSort fun a b => a.1 ≤ b.1)
  | v => v

/-- The values of a list, each with its keys in order. -/
def sortedItems : List Value → List Value
  | [] => []
  | v :: rest => v.sorted :: sortedItems rest

/-- The entries of a map, each value with its keys in order. -/
def sortedEntries : List (String × Value) → List (String × Value)
  | [] => []
  | (k, v) :: rest => (k, v.sorted) :: sortedEntries rest

end

end Value

end BearerSession
