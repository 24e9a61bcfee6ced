import BearerSession.Error

/-!
# Persistence policies

A policy says whether the tokens of a session outlive it.
-/

namespace BearerSession

/-- Whether tokens are kept in durable storage. -/
inductive Policy where
  /-- Tokens are kept in durable storage. -/
  | always
  /-- Tokens are kept in memory only. -/
  | never
  deriving DecidableEq, Repr

namespace Policy

/-- The name of a policy. -/
def name : Policy → String
  | .always => "ALWAYS"
  | .never => "NEVER"

/-- The title of policies as members of their enumeration. -/
def title : String := "PersistencePolicy"

/-- A policy as a value. -/
def toValue (p : Policy) : Value := .member title p.name

/-- The policy of a name, to the letter. -/
def ofName? (s : String) : Option Policy :=
  if s = "ALWAYS" then some .always
  else if s = "NEVER" then some .never
  else none

@[simp] theorem ofName?_name (p : Policy) : ofName? p.name = some p := by cases p <;> rfl

/-- Only the name of a policy reads as it. -/
theorem ofName?_eq_some_iff {s : String} {p : Policy} : ofName? s = some p ↔ s = p.name := by
  constructor
  · intro h
    unfold ofName? at h
    split at h
    · cases h; assumption
    · split at h
      · cases h; assumption
      · cases h
  · rintro rfl
    exact ofName?_name p

/-- The capital of a letter, as far as the names of policies need it: the long s is the only letter
outside ASCII whose capital is a letter of theirs. -/
def capital (c : Char) : Char := if c = '\u017F' then 'S' else c.toUpper

/-- The policy that a text names, in any case and with blanks around it. -/
def read? (s : String) : Option Policy :=
  ofName? (String.ofList ((Text.trimList Text.isBlank s.toList).map capital))

/-- The policy that a value names. -/
def ofValue (v : Value) : Except SessionError Policy :=
  match v with
  | .null => .error .nullPolicy
  | v =>
    match read? v.display with
    | some p => .ok p
    | none => .error (.unknownPolicy v.display)

end Policy

end BearerSession
