import BearerSession.Proofs.Credential.Refusal

/-!
# Storage that fails

Reading may fail as well as writing and removing. As long as a failure changes nothing that is kept,
an operation under one key leaves the entries of the other keys alone, whether it fails or not.
-/

namespace BearerSession

/-- A backend that acts as a map from keys to values, as far as it does not fail. -/
class FallibleDurable (σ : Type) [Durable σ] where
  /-- The value that is kept under a key. -/
  value? : σ → String → Option String
  /-- Reading answers the view or fails. -/
  get_ok : ∀ (s : σ) (key : String) (value : Option String), Durable.get key s = .ok value →
    value = value? s key
  /-- A write that succeeds changes the view at its key and nowhere else. -/
  set_ok : ∀ (s t : σ) (key value : String), Durable.set key value s = .ok () t →
    ∀ other, value? t other = if key = other then some value else value? s other
  /-- A write that fails leaves the view as it was. -/
  set_error : ∀ (s t : σ) (key value : String) (e : Raised), Durable.set key value s = .error e t →
    ∀ other, value? t other = value? s other
  /-- A removal that succeeds clears the view at its key and nowhere else. -/
  remove_ok : ∀ (s t : σ) (key : String), Durable.remove key s = .ok () t →
    ∀ other, value? t other = if key = other then none else value? s other
  /-- A removal that fails leaves the view as it was. -/
  remove_error : ∀ (s t : σ) (key : String) (e : Raised), Durable.remove key s = .error e t →
    ∀ other, value? t other = value? s other

/-- A lawful backend never fails to be read. -/
instance {σ : Type} [Durable σ] [LawfulDurable σ] : FallibleDurable σ where
  value? := LawfulDurable.value?
  get_ok s key value h := by
    rw [LawfulDurable.get_eq] at h
    exact (Except.ok.inj h).symm
  set_ok := LawfulDurable.set_ok
  set_error := LawfulDurable.set_error
  remove_ok := LawfulDurable.remove_ok
  remove_error := LawfulDurable.remove_error

/-- A backend of which some keys cannot be read at present. -/
structure Unreadable (σ : Type) where
  /-- The backend. -/
  backend : σ
  /-- The keys that cannot be read. -/
  keys : List String

namespace Unreadable

variable {σ : Type}

/-- Run a computation on the backend. -/
def reach (f : Act σ Unit) : Act (Unreadable σ) Unit := fun t =>
  match f t.backend with
  | .ok () b => .ok () { t with backend := b }
  | .error e b => .error e { t with backend := b }

theorem reach_ok {f : Act σ Unit} {s t : Unreadable σ} (h : reach f s = .ok () t) :
    f s.backend = .ok () t.backend := by
  unfold reach at h
  split at h
  · next hf =>
    cases h
    exact hf
  · contradiction

theorem reach_error {f : Act σ Unit} {s t : Unreadable σ} {e : Raised}
    (h : reach f s = .error e t) : f s.backend = .error e t.backend := by
  unfold reach at h
  split at h
  · contradiction
  · next hf =>
    cases h
    exact hf

variable [Durable σ]

instance : Durable (Unreadable σ) where
  get key t :=
    if key ∈ t.keys then .error (.session (.refusedWrite "get" key))
    else Durable.get key t.backend
  set key value := reach (Durable.set key value)
  remove key := reach (Durable.remove key)

instance [FallibleDurable σ] : FallibleDurable (Unreadable σ) where
  value? t key := FallibleDurable.value? t.backend key
  get_ok t key value h := by
    simp only [Durable.get] at h
    split at h
    · contradiction
    · exact FallibleDurable.get_ok _ _ _ h
  set_ok _ _ key value h := FallibleDurable.set_ok _ _ key value (reach_ok h)
  set_error _ _ key value e h := FallibleDurable.set_error _ _ key value e (reach_error h)
  remove_ok _ _ key h := FallibleDurable.remove_ok _ _ key (reach_ok h)
  remove_error _ _ key e h := FallibleDurable.remove_error _ _ key e (reach_error h)

end Unreadable

section Elsewhere

variable {σ : Type} [Durable σ] [FallibleDurable σ]

open FallibleDurable

/-- A storage that holds what a view says, except perhaps under one key. -/
def Elsewhere (key : String) (view : String → Option String) (d : σ) : Prop :=
  ∀ other, other ≠ key → value? d other = view other

theorem Elsewhere.set (key value : String) (view : String → Option String) :
    Anyhow (Elsewhere key view) (Durable.set key value : Act σ Unit)
      (fun _ => Elsewhere key view) (Elsewhere key view) := by
  refine anyhow_iff.mpr fun s hs => ?_
  cases h : Durable.set key value s with
  | ok _ t =>
    intro other hne
    rw [set_ok s t key value h, if_neg hne.symm, hs other hne]
  | error e t =>
    intro other hne
    rw [set_error s t key value e h, hs other hne]

theorem Elsewhere.remove (key : String) (view : String → Option String) :
    Anyhow (Elsewhere key view) (Durable.remove key : Act σ Unit)
      (fun _ => Elsewhere key view) (Elsewhere key view) := by
  refine anyhow_iff.mpr fun s hs => ?_
  cases h : Durable.remove key s with
  | ok _ t =>
    intro other hne
    rw [remove_ok s t key h, if_neg hne.symm, hs other hne]
  | error e t =>
    intro other hne
    rw [remove_error s t key e h, hs other hne]

omit [FallibleDurable σ] in
/-- Reading changes nothing. -/
theorem anyhow_read (key : String) (P : σ → Prop) :
    Anyhow P (Durable.read key : Act σ (Option String)) (fun _ => P) P := by
  refine anyhow_iff.mpr fun s hs => ?_
  unfold Durable.read
  cases Durable.get key s <;> exact hs

end Elsewhere

end BearerSession
