import BearerSession.Value.Basic
import BearerSession.Number.Decimal
import BearerSession.Text.Literal

/-!
# The text of a value

A value shown on its own is plain text; inside lists, maps and records it is shown as a literal.
-/

namespace BearerSession.Value

/-- The text of a truth value. -/
def boolText (b : Bool) : String := if b then "True" else "False"

mutual

/-- The literal of a value. -/
def literal : Value → String
  | .null => "None"
  | .bool b => boolText b
  | .int n => toString n
  | .real x => x.text
  | .text s => Text.literal s
  | .bytes b => Text.literalBytes b
  | .list items => "[" ++ String.intercalate ", " (literals items) ++ "]"
  | .map entries => "\x7b" ++ String.intercalate ", " (entryLiterals entries) ++ "\x7d"
  | .member title name => "<" ++ title ++ "." ++ name ++ ": " ++ Text.literal name ++ ">"
  | .record title fields extras =>
    title ++ "(" ++
      String.intercalate ", " (attributeLiterals fields ++ attributeLiterals extras) ++ ")"

/-- The literals of the values of a list. -/
def literals : List Value → List String
  | [] => []
  | v :: rest => v.literal :: literals rest

/-- The literals of the entries of a map. -/
def entryLiterals : List (String × Value) → List String
  | [] => []
  | (k, v) :: rest => (Text.literal k ++ ": " ++ v.literal) :: entryLiterals rest

/-- The literals of the attributes of a record. -/
def attributeLiterals : List (String × Value) → List String
  | [] => []
  | (k, v) :: rest => (k ++ "=" ++ v.literal) :: attributeLiterals rest

end

/-- The text of a value shown on its own. -/
def display : Value → String
  | .text s => s
  | .member title name => title ++ "." ++ name
  | .record _ fields extras =>
    String.intercalate " " (attributeLiterals fields ++ attributeLiterals extras)
  | v => v.literal

@[simp] theorem display_text (s : String) : (Value.text s).display = s := rfl

end BearerSession.Value
