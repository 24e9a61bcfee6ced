import BearerSession.Error

/-!
# Durable storage

Durable storage keeps texts under keys. Reading changes nothing; writing and removing may be
refused. A backend is lawful when it has a view from keys to values on which its operations act as
on a map, and a refused operation leaves the view as it was.
-/

namespace BearerSession

/-- A computation that works on a state and may raise. What it did to the state before raising
stays. -/
abbrev Act (σ α : Type) := EStateM Raised σ α

/-- The state after a computation, whether it succeeds or raises. -/
def Act.after {σ α : Type} (f : Act σ α) (s : σ) : σ :=
  match f s with
  | .ok _ t | .error _ t => t

/-- A backend of durable storage with states `σ`. It refuses with ordinary errors that have a text,
as backends are asked to, so that a manager can make a failure of each. -/
class Durable (σ : Type) where
  /-- Read the value of a key. -/
  get : String → σ → Except Raised (Option String)
  /-- Write the value of a key. -/
  set : String → String → Act σ Unit
  /-- Remove a key; nothing happens when it is absent. -/
  remove : String → Act σ Unit

namespace Durable

variable {σ : Type} [Durable σ]

/-- Read the value of a key. -/
def read (key : String) : Act σ (Option String) := fun s =>
  match get key s with
  | .ok v => .ok v s
  | .error e => .error e s

end Durable

/-- A backend that acts as a map from keys to values, as far as it does not refuse. -/
class LawfulDurable (σ : Type) [Durable σ] where
  /-- The value that is kept under a key. -/
  value? : σ → String → Option String
  /-- Reading answers the view. -/
  get_eq : ∀ (s : σ) (key : String), Durable.get key s = .ok (value? s key)
  /-- A write that succeeds changes the view at its key and nowhere else. -/
  set_ok : ∀ (s t : σ) (key value : String), Durable.set key value s = .ok () t →
    ∀ other, value? t other = if key = other then some value else value? s other
  /-- A refused write leaves the view as it was. -/
  set_error : ∀ (s t : σ) (key value : String) (e : Raised), Durable.set key value s = .error e t →
    ∀ other, value? t other = value? s other
  /-- A removal that succeeds clears the view at its key and nowhere else. -/
  remove_ok : ∀ (s t : σ) (key : String), Durable.remove key s = .ok () t →
    ∀ other, value? t other = if key = other then none else value? s other
  /-- A refused removal leaves the view as it was. -/
  remove_error : ∀ (s t : σ) (key : String) (e : Raised), Durable.remove key s = .error e t →
    ∀ other, value? t other = value? s other

end BearerSession
