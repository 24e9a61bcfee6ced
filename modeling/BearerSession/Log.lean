import BearerSession.Durable.Basic

/-!
# Logging

What a session does beside its answers is noted in a log. A computation that logs works on its state
together with the log; but for the notes it does what it does without them.
-/

namespace BearerSession

/-- How much a record matters. -/
inductive LogLevel where
  /-- A step that has been taken. -/
  | debug
  /-- Something that has been done. -/
  | info
  /-- Something that has been passed over. -/
  | warning
  deriving DecidableEq, Repr

/-- A record in the log. -/
structure LogRecord where
  /-- How much it matters. -/
  level : LogLevel
  /-- What it says. -/
  text : String
  deriving DecidableEq, Repr

/-- A state together with the log, the latest record last. -/
structure Logged (σ : Type) where
  /-- The state. -/
  state : σ
  /-- The log. -/
  log : List LogRecord

namespace Logged

variable {σ α : Type}

/-- A computation that notes nothing. -/
def silent (f : Act σ α) : Act (Logged σ) α := fun s =>
  match f s.state with
  | .ok a t => .ok a { s with state := t }
  | .error e t => .error e { s with state := t }

/-- Note what the state gives reason to. -/
def note (notes : σ → List LogRecord) : Act (Logged σ) Unit :=
  modify fun s => { s with log := s.log ++ notes s.state }

end Logged

/-- A storage of which every use may be noted, whatever it is used for. -/
class Noting (σ : Type) where
  /-- What a use of the storage notes. -/
  notes : σ → List LogRecord

end BearerSession
