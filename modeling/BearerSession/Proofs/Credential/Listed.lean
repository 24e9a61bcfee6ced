import BearerSession.Proofs.Credential.Tokens

/-!
# Storages that list what they refuse

A storage may list the keys of the operations that it has refused. Giving a cell a value that has an
encoding touches the storage under the key of the cell only, and at most once.
-/

namespace BearerSession

/-- A lawful backend that lists the keys of the operations that it has refused. -/
class ListedDurable (σ : Type) [Durable σ] extends LawfulDurable σ where
  /-- The keys of the operations that have been refused, the earliest first. -/
  refusedKeys : σ → List String
  /-- A write that succeeds is not listed. -/
  refusedKeys_set_ok : ∀ (s t : σ) (key value : String), Durable.set key value s = .ok () t →
    refusedKeys t = refusedKeys s
  /-- A write that does not succeed is. -/
  refusedKeys_set_error : ∀ (s t : σ) (key value : String) (e : Raised),
    Durable.set key value s = .error e t → refusedKeys t = refusedKeys s ++ [key]
  /-- A removal that succeeds is not listed. -/
  refusedKeys_remove_ok : ∀ (s t : σ) (key : String), Durable.remove key s = .ok () t →
    refusedKeys t = refusedKeys s
  /-- A removal that does not succeed is. -/
  refusedKeys_remove_error : ∀ (s t : σ) (key : String) (e : Raised),
    Durable.remove key s = .error e t → refusedKeys t = refusedKeys s ++ [key]

/-- A backend with the list of its refusals beside it. -/
structure Listed (σ : Type) where
  /-- The backend. -/
  backend : σ
  /-- The keys of what it has refused. -/
  keys : List String

namespace Listed

variable {σ : Type}

/-- Run a computation on the backend that concerns a key; one that raises has been refused. -/
def note (key : String) (f : Act σ Unit) : Act (Listed σ) Unit := fun t =>
  match f t.backend with
  | .ok () b => .ok () { t with backend := b }
  | .error e b => .error e ⟨b, t.keys ++ [key]⟩

theorem note_ok {key : String} {f : Act σ Unit} {s t : Listed σ} (h : note key f s = .ok () t) :
    f s.backend = .ok () t.backend ∧ t.keys = s.keys := by
  unfold note at h
  split at h
  · next hf =>
    cases h
    exact ⟨hf, rfl⟩
  · contradiction

theorem note_error {key : String} {f : Act σ Unit} {s t : Listed σ} {e : Raised}
    (h : note key f s = .error e t) :
    f s.backend = .error e t.backend ∧ t.keys = s.keys ++ [key] := by
  unfold note at h
  split at h
  · contradiction
  · next hf =>
    cases h
    exact ⟨hf, rfl⟩

variable [Durable σ]

instance : Durable (Listed σ) where
  get key t := Durable.get key t.backend
  set key value := note key (Durable.set key value)
  remove key := note key (Durable.remove key)

/-- Any lawful backend lists its refusals that way. -/
instance [LawfulDurable σ] : ListedDurable (Listed σ) where
  value? t key := LawfulDurable.value? t.backend key
  get_eq t key := LawfulDurable.get_eq t.backend key
  set_ok _ _ key value h := LawfulDurable.set_ok _ _ key value (note_ok h).1
  set_error _ _ key value e h := LawfulDurable.set_error _ _ key value e (note_error h).1
  remove_ok _ _ key h := LawfulDurable.remove_ok _ _ key (note_ok h).1
  remove_error _ _ key e h := LawfulDurable.remove_error _ _ key e (note_error h).1
  refusedKeys := keys
  refusedKeys_set_ok _ _ _ _ h := (note_ok h).2
  refusedKeys_set_error _ _ _ _ _ h := (note_error h).2
  refusedKeys_remove_ok _ _ _ h := (note_ok h).2
  refusedKeys_remove_error _ _ _ _ h := (note_error h).2

end Listed

/-- A handler works where the error was raised. -/
theorem Act.tryCatch_apply {τ α : Type} (f : Act τ α) (g : Raised → Act τ α) (s : τ) :
    (MonadExcept.tryCatch f g : Act τ α) s = match f s with
      | .ok a t => .ok a t
      | .error e t => g e t := by
  change EStateM.tryCatch f g s = _
  delta EStateM.tryCatch
  cases f s <;> rfl

/-- Between two states of a storage nothing is refused, or only what concerns one key. -/
def RefusesOneKey {σ : Type} [Durable σ] [ListedDurable σ] (before after : σ) : Prop :=
  ∃ key more, ListedDurable.refusedKeys after = ListedDurable.refusedKeys before ++ more ∧
    ∀ k ∈ more, k = key

/-- A computation concerns a key if it adds this key to a list exactly when it raises. -/
def Concerns {τ α : Type} (keys : τ → List String) (key : String) (f : Act τ α) (s : τ) : Prop :=
  match f s with
  | .ok _ t => keys t = keys s
  | .error _ t => keys t = keys s ++ [key]

namespace Concerns

variable {τ α β : Type} {keys : τ → List String} {key : String} {f : Act τ α} {s : τ}

theorem of_ok (h : Concerns keys key f s) {a : α} {t : τ} (hf : f s = .ok a t) :
    keys t = keys s := by
  simpa only [Concerns, hf] using h

theorem of_error (h : Concerns keys key f s) {e : Raised} {t : τ} (hf : f s = .error e t) :
    keys t = keys s ++ [key] := by
  simpa only [Concerns, hf] using h

theorem pure (keys : τ → List String) (key : String) (s : τ) (a : α) :
    Concerns keys key (Pure.pure a : Act τ α) s := rfl

/-- What is made of the answer does not matter. -/
theorem map (h : Concerns keys key f s) (g : α → β) :
    Concerns keys key (f >>= fun x => Pure.pure (g x)) s := by
  cases hf : f s with
  | ok b t =>
    simp only [Concerns, Act.bind_apply, hf]
    exact h.of_ok hf
  | error e t =>
    simp only [Concerns, Act.bind_apply, hf]
    exact h.of_error hf

end Concerns

/-- A value can be put into the cell of a name: it empties the cell, or has an encoding for it. -/
def Encodable (n : CellName) (v : Value) : Prop :=
  ∀ c : Cell, c.IsAt n → v ≠ .null → ∃ raw, c.encode v = .ok raw

theorem encodable_of_plain {n : CellName} (h : n.kind = .plain) (v : Value) : Encodable n v := by
  intro c hat _
  refine ⟨v.display, ?_⟩
  rw [Cell.encode, hat.2.1, h]

/-- The user that a grant brings can be written down. -/
def Grant.Serialises (g : Grant) : Prop := Encodable .user g.user.toValue

theorem Grant.Serialises.encodable {g : Grant} (h : g.Serialises) :
    ∀ e ∈ Session.grantValues g, Encodable e.1 e.2 := by
  intro e he
  obtain rfl | rfl | rfl | ⟨id, -, rfl⟩ := Session.mem_grantValues_iff.mp he
  · exact encodable_of_plain rfl _
  · exact encodable_of_plain rfl _
  · exact h
  · exact encodable_of_plain rfl _

section Refusals

variable {σ : Type} [Durable σ] [ListedDurable σ]

open ListedDurable

namespace Cell

theorem concerns_clear (c : Cell) (d : σ) : Concerns refusedKeys c.name c.clear d := by
  refine Concerns.map (f := Durable.remove c.name) ?_ fun _ => c.emptied
  unfold Concerns
  split
  · next h => exact refusedKeys_remove_ok _ _ _ h
  · next h => exact refusedKeys_remove_error _ _ _ _ h

theorem concerns_write (c : Cell) (p : Policy) (raw : String) (d : σ) :
    Concerns refusedKeys c.name (c.write p raw) d := by
  unfold write
  cases c.persists p with
  | true =>
    refine Concerns.map (f := Durable.set c.name raw) ?_ fun _ => _
    unfold Concerns
    split
    · next h => exact refusedKeys_set_ok _ _ _ _ h
    · next h => exact refusedKeys_set_error _ _ _ _ _ h
  | false => exact .pure refusedKeys c.name d _

/-- Giving a cell a value that it can take concerns its key. -/
theorem concerns_set {n : CellName} {v : Value} (h : Encodable n v) {c : Cell} (hat : c.IsAt n)
    (p : Policy) (d : σ) : Concerns refusedKeys n.key (c.set p v) d := by
  rw [← hat.1]
  unfold set
  split
  · exact concerns_clear c d
  · next hnull =>
    obtain ⟨raw, hraw⟩ := h c hat hnull
    simp only [hraw]
    exact concerns_write c p raw d

end Cell

namespace Session

/-- The keys of what the storage of a session has refused. -/
abbrev refused (s : Session σ) : List String := refusedKeys s.durable

omit [ListedDurable σ] in
theorem set_apply (n : CellName) (v : Value) (s : Session σ) :
    set n v s = match (s.store.cell n).set s.store.policy v s.durable with
      | .ok c d => .ok () ⟨s.store.put n c, d⟩
      | .error e d => .error e { s with durable := d } := by
  simp only [set, change, onCell, Act.bind_apply]
  cases (s.store.cell n).set s.store.policy v s.durable <;> rfl

theorem concerns_set {n : CellName} {v : Value} (h : Encodable n v) {s : Session σ}
    (hat : (s.store.cell n).IsAt n) : Concerns refused n.key (set n v) s := by
  have hcell := Cell.concerns_set h hat s.store.policy s.durable
  unfold Concerns at hcell ⊢
  rw [set_apply]
  cases hset : (s.store.cell n).set s.store.policy v s.durable with
  | ok c d => simpa only [hset] using hcell
  | error e d => simpa only [hset] using hcell

end Session

end Refusals

end BearerSession
