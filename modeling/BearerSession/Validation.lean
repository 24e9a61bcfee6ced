/-!
# Rules for records and reports about broken ones

A record read from outside is checked field by field; all broken rules are collected, each with the
place of the value that breaks it.

The checking is done by a package. It is assumed that fields are looked at in the order of their
declaration and each against the first rule it breaks, that a report counts every broken rule and
names its place and kind, and that a record with a broken rule is never made. A report there says
more in words, and repeats the value; here it is the record's title, the places and the rules.
-/

namespace BearerSession.Validation

/-- The rules a value can break. -/
inductive Rule where
  /-- The value is a text. -/
  | text
  /-- Bytes that stand for a text are UTF-8. -/
  | textEncoding
  /-- The text is not empty. -/
  | textTooShort
  /-- The value is there. -/
  | missing
  /-- The value is a map. -/
  | record
  /-- The text is one of the allowed ones. -/
  | choice
  /-- The value is a member of an enumeration. -/
  | member
  /-- The value is a truth value or stands for one. -/
  | bool
  /-- A word or number stands for a truth value. -/
  | boolWord
  /-- The value is a number or stands for one. -/
  | number
  /-- A text writes a number. -/
  | numberText
  /-- The number is greater than its bound. -/
  | greater
  /-- A finished record does not change. -/
  | frozen
  deriving DecidableEq, Repr

/-- The word for a rule in reports. -/
def Rule.word : Rule → String
  | .text => "string_type"
  | .textEncoding => "string_unicode"
  | .textTooShort => "string_too_short"
  | .missing => "missing"
  | .record => "model_type"
  | .choice => "literal_error"
  | .member => "enum"
  | .bool => "bool_type"
  | .boolWord => "bool_parsing"
  | .number => "float_type"
  | .numberText => "float_parsing"
  | .greater => "greater_than"
  | .frozen => "frozen_instance"

/-- A broken rule and the names that lead to the value. -/
structure Issue where
  /-- The names, the outermost first. -/
  place : List String
  /-- The rule. -/
  rule : Rule
  deriving DecidableEq, Repr

/-- The place of an issue as one word. -/
def Issue.placeText (i : Issue) : String := String.intercalate "." i.place

/-- The broken rules of one record. -/
structure Report where
  /-- The kind of record. -/
  title : String
  /-- The broken rules in the order of the fields. -/
  issues : List Issue
  deriving DecidableEq, Repr

/-- The report in words. -/
def Report.text (r : Report) : String :=
  let count := r.issues.length
  let noun := if count = 1 then "error" else "errors"
  let head := s!"{count} validation {noun} for {r.title}"
  String.intercalate " | " (head :: r.issues.map fun i => s!"{i.placeText}: {i.rule.word}")

/-- A checked value, or all rules it breaks. -/
abbrev Checked (α : Type) := Except (List Issue) α

/-- Apply a checked function to a checked value; the broken rules of both count. -/
def also {α β : Type} : Checked (α → β) → Checked α → Checked β
  | .ok f, .ok x => .ok (f x)
  | .ok _, .error issues => .error issues
  | .error issues, .ok _ => .error issues
  | .error first, .error second => .error (first ++ second)

/-- A value that breaks a rule. -/
def broken {α : Type} (place : List String) (rule : Rule) : Checked α := .error [⟨place, rule⟩]

/-- Look at a checked value from outside: its places start with a name. -/
def under {α : Type} (name : String) : Checked α → Checked α
  | .ok x => .ok x
  | .error issues => .error (issues.map fun i => { i with place := name :: i.place })

/-- Turn the broken rules of a record into a report. -/
def reported {α : Type} (title : String) : Checked α → Except Report α
  | .ok x => .ok x
  | .error issues => .error ⟨title, issues⟩

/-- A checked application succeeds exactly when both parts do. -/
theorem also_eq_ok {α β : Type} {f : Checked (α → β)} {x : Checked α} {y : β} :
    also f x = .ok y ↔ ∃ g a, f = .ok g ∧ x = .ok a ∧ g a = y := by
  cases f <;> cases x <;> simp [also]

end BearerSession.Validation
