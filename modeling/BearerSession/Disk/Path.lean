/-!
# Paths

A path is a root and its parts, with empty parts and single dots left out. Two leading slashes are a
root of their own; their files are those of the single slash.
-/

namespace BearerSession

/-- A path on disk. -/
structure Path where
  /-- The slashes it begins with; none for a relative path. -/
  root : String
  /-- The names on the way, none of them empty or a single dot. -/
  parts : List String
  deriving DecidableEq, Repr

namespace Path

/-- Split a text at every slash. -/
def splitSlashes (s : List Char) : List (List Char) :=
  s.foldr (fun c parts =>
    if c = '/' then [] :: parts
    else match parts with
      | part :: rest => (c :: part) :: rest
      | [] => [[c]]) [[]]

/-- The root a text begins with. -/
def rootOf : List Char → String
  | ['/', '/'] => "//"
  | '/' :: '/' :: c :: _ => if c = '/' then "/" else "//"
  | '/' :: _ => "/"
  | _ => ""

/-- Read a path. -/
def ofText (s : String) : Path where
  root := rootOf s.toList
  parts := ((splitSlashes s.toList).filter fun part => part ≠ [] && part ≠ ['.']).map String.ofList

/-- The text of a path. The empty relative path is a single dot. -/
def text (p : Path) : String :=
  let body := String.intercalate "/" p.parts
  if p.root.isEmpty && p.parts.isEmpty then "." else p.root ++ body

/-- The last name of a path. -/
def name (p : Path) : String := p.parts.getLastD ""

/-- The path without its last name. -/
def parent (p : Path) : Path := { p with parts := p.parts.dropLast }

/-- Append one name. -/
def child (p : Path) (name : String) : Path := { p with parts := p.parts ++ [name] }

/-- Append a relative path; an absolute one stands alone. -/
def join (p q : Path) : Path := if q.root.isEmpty then { p with parts := p.parts ++ q.parts } else q

@[simp] theorem parent_child (p : Path) (name : String) : (p.child name).parent = p := by
  simp [parent, child]

/-- The paths on the way to a path, the outermost first and itself last. -/
def ways (p : Path) : List Path :=
  (List.range p.parts.length).map fun n => { p with parts := p.parts.take (n + 1) }

/-- Whether the last step of a path is a name, and not a dot or two. -/
def endsInName (p : Path) : Bool := !p.parts.isEmpty && p.name != ".."

/-- The names that lead to where a path starts: the working directory for a relative path. -/
def start (workingDirectory : List String) (p : Path) : List String :=
  if p.root.isEmpty then workingDirectory else []

/-- The names from the root of the disk to a path, seen from a working directory. Two dots take the
name before them away. -/
def location (workingDirectory : List String) (p : Path) : List String :=
  p.parts.foldl (fun place part => if part = ".." then place.dropLast else place ++ [part])
    (p.start workingDirectory)

/-- The path from the root of the disk that a path stands for, without dots. -/
def absolute (workingDirectory : List String) (p : Path) : Path :=
  ⟨if p.root.isEmpty then "/" else p.root, p.location workingDirectory⟩

end Path

end BearerSession
