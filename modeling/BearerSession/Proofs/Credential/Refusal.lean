import BearerSession.Proofs.Credential.Restart

/-!
# Refusals

Durable storage may refuse any write and any removal, one at a time or from some point on. A single
operation on a cell is then all or nothing: either it does what it is there for, or it raises and
leaves the storage as it was. What longer computations keep, whatever is refused, follows from that.
-/

namespace BearerSession

namespace Act

variable {τ α β : Type}

/-- What follows works where the first part ends, unless that one raises. -/
theorem bind_apply (f : Act τ α) (g : α → Act τ β) (s : τ) :
    (f >>= g) s = match f s with
      | .ok a t => g a t
      | .error e t => .error e t := by
  cases h : f s <;> simp only [Bind.bind, EStateM.bind, h]

theorem get_apply (s : τ) : (MonadState.get : Act τ τ) s = .ok s s := rfl

theorem throw_apply (e : Raised) (s : τ) : (MonadExcept.throw e : Act τ α) s = .error e s := rfl

/-- Two parts succeed together exactly when each of them does. -/
theorem bind_eq_ok {f : Act τ α} {g : α → Act τ β} {s u : τ} {b : β} :
    (f >>= g) s = .ok b u ↔ ∃ a t, f s = .ok a t ∧ g a t = .ok b u := by
  rw [bind_apply]
  cases f s with
  | ok a t =>
    constructor
    · intro h
      exact ⟨a, t, rfl, h⟩
    · rintro ⟨_, _, hf, hg⟩
      cases hf
      exact hg
  | error e t => simp

end Act

/-- A backend that refuses operations by a plan: the plan tells of each write and each removal to
come, of the next one at `0`. -/
structure Unreliable (σ : Type) where
  /-- The backend that the operations reach. -/
  backend : σ
  /-- Which of the operations to come are refused. -/
  refuses : Nat → Bool

namespace Unreliable

variable {σ : Type}

/-- Let an operation reach the backend, unless the plan refuses it. -/
def attempt (kind : WriteKind) (key : String) (f : Act σ Unit) : Act (Unreliable σ) Unit := fun t =>
  let later := fun k => t.refuses (k + 1)
  if t.refuses 0 then .error (.session (.refusedWrite kind.word key)) ⟨t.backend, later⟩
  else
    match f t.backend with
    | .ok () b => .ok () ⟨b, later⟩
    | .error e b => .error e ⟨b, later⟩

theorem attempt_ok {kind : WriteKind} {key : String} {f : Act σ Unit} {s t : Unreliable σ}
    (h : attempt kind key f s = .ok () t) : f s.backend = .ok () t.backend := by
  unfold attempt at h
  split at h
  · contradiction
  · split at h
    · next hf =>
      cases h
      exact hf
    · contradiction

/-- What raises has not reached the backend or has been refused there. -/
theorem attempt_error {kind : WriteKind} {key : String} {f : Act σ Unit} {s t : Unreliable σ}
    {e : Raised} (h : attempt kind key f s = .error e t) :
    t.backend = s.backend ∨ f s.backend = .error e t.backend := by
  unfold attempt at h
  split at h
  · cases h
    exact .inl rfl
  · split at h
    · contradiction
    · next hf =>
      cases h
      exact .inr hf

variable [Durable σ]

instance : Durable (Unreliable σ) where
  get key t := Durable.get key t.backend
  set key value := attempt .set key (Durable.set key value)
  remove key := attempt .remove key (Durable.remove key)

instance [LawfulDurable σ] : LawfulDurable (Unreliable σ) where
  value? t key := LawfulDurable.value? t.backend key
  get_eq t key := LawfulDurable.get_eq t.backend key
  set_ok _ _ key value h := LawfulDurable.set_ok _ _ key value (attempt_ok h)
  set_error _ _ key value e h other := by
    obtain hsame | herror := attempt_error h
    · rw [hsame]
    · exact LawfulDurable.set_error _ _ key value e herror other
  remove_ok _ _ key h := LawfulDurable.remove_ok _ _ key (attempt_ok h)
  remove_error _ _ key e h other := by
    obtain hsame | herror := attempt_error h
    · rw [hsame]
    · exact LawfulDurable.remove_error _ _ key e herror other

end Unreliable

/-- A computation that ends with `a` where `after` is seen, or raises where the same is seen as
before. -/
def AllOrNothing {τ ω α : Type} (seen : τ → ω) (f : Act τ α) (s : τ) (a : α) (after : ω) : Prop :=
  match f s with
  | .ok b t => b = a ∧ seen t = after
  | .error _ t => seen t = seen s

namespace AllOrNothing

variable {τ ω α β : Type} {seen : τ → ω} {f : Act τ α} {s : τ} {a : α} {after : ω}

theorem of_ok (h : AllOrNothing seen f s a after) {b : α} {t : τ} (hf : f s = .ok b t) :
    b = a ∧ seen t = after := by
  simpa only [AllOrNothing, hf] using h

theorem of_error (h : AllOrNothing seen f s a after) {e : Raised} {t : τ}
    (hf : f s = .error e t) : seen t = seen s := by
  simpa only [AllOrNothing, hf] using h

theorem pure (seen : τ → ω) (s : τ) (a : α) :
    AllOrNothing seen (Pure.pure a : Act τ α) s a (seen s) := ⟨rfl, rfl⟩

/-- What is made of the answer does not matter for the state. -/
theorem map (h : AllOrNothing seen f s a after) (g : α → β) :
    AllOrNothing seen (f >>= fun x => Pure.pure (g x)) s (g a) after := by
  cases hf : f s with
  | ok b t =>
    obtain ⟨rfl, hseen⟩ := h.of_ok hf
    simp only [AllOrNothing, Act.bind_apply, hf]
    exact ⟨rfl, hseen⟩
  | error e t =>
    simp only [AllOrNothing, Act.bind_apply, hf]
    exact h.of_error hf

section Storage

variable {σ : Type} [Durable σ] [LawfulDurable σ]

open LawfulDurable

theorem set (key value : String) (d : σ) :
    AllOrNothing value? (Durable.set key value) d ()
      (Function.update (value? d) key (some value)) := by
  cases h : Durable.set key value d with
  | ok u t =>
    simp only [AllOrNothing, h]
    refine ⟨trivial, funext fun other => ?_⟩
    rw [set_ok d t key value h other, Function.update_apply]
    simp only [eq_comm]
  | error e t =>
    simp only [AllOrNothing, h]
    exact funext (set_error d t key value e h)

theorem remove (key : String) (d : σ) :
    AllOrNothing value? (Durable.remove key) d () (Function.update (value? d) key none) := by
  cases h : Durable.remove key d with
  | ok u t =>
    simp only [AllOrNothing, h]
    refine ⟨trivial, funext fun other => ?_⟩
    rw [remove_ok d t key h other, Function.update_apply]
    simp only [eq_comm]
  | error e t =>
    simp only [AllOrNothing, h]
    exact funext (remove_error d t key e h)

/-- Reading changes nothing, and what follows works on the value that is read. -/
theorem read_bind {key : String} {d : σ} {g : Option String → Act σ α}
    {after : String → Option String} (h : AllOrNothing value? (g (value? d key)) d a after) :
    AllOrNothing value? (Durable.read key >>= g) d a after := by
  have hbind : (Durable.read key >>= g) d = g (value? d key) d := by
    simp only [Act.bind_apply, Durable.read, get_eq]
  simpa only [AllOrNothing, hbind] using h

end Storage

end AllOrNothing

/-- Whatever is refused, a computation leads from `P` to `Q`, or to `E` when it raises: no refusals
are counted, so none are ruled out. -/
abbrev Anyhow {τ α : Type} (P : τ → Prop) (f : Act τ α) (Q : α → τ → Prop) (E : τ → Prop) : Prop :=
  Undisturbed (fun _ => 0) P f Q E

theorem anyhow_iff {τ α : Type} {P : τ → Prop} {f : Act τ α} {Q : α → τ → Prop} {E : τ → Prop} :
    Anyhow P f Q E ↔ ∀ s, P s →
      match f s with
      | .ok a t => Q a t
      | .error _ t => E t :=
  ⟨fun h s => (h s).2 rfl, fun h s => ⟨Int.le_refl _, fun _ => h s⟩⟩

/-- What holds however a computation ends holds of the state that it leaves. -/
theorem Anyhow.after {τ α : Type} {P E : τ → Prop} {f : Act τ α} (h : Anyhow P f (fun _ => E) E)
    {s : τ} (hs : P s) : E (f.after s) := by
  have hend := anyhow_iff.mp h s hs
  unfold Act.after
  cases hf : f s with
  | ok a t => rwa [hf] at hend
  | error e t => rwa [hf] at hend

/-- A fact that has nothing to do with the state may be used. -/
theorem Anyhow.assuming {τ α : Type} {A : Prop} {P : τ → Prop} {f : Act τ α} {Q : α → τ → Prop}
    {E : τ → Prop} (h : A → Anyhow P f Q E) : Anyhow (fun s => A ∧ P s) f Q E :=
  anyhow_iff.mpr fun s hs => anyhow_iff.mp (h hs.1) s hs.2

namespace Cell

/-- A cell of which the value lives where a policy wants it. -/
def moved (c : Cell) (p : Policy) : Cell :=
  match c.raw with
  | none => c
  | some raw => c.filled p raw

/-- What moving leaves of the entry of a cell: that of a cell that stays as it is stays too. -/
def movedEntry (c : Cell) (p : Policy) (entry : Option String) : Option String :=
  if (c.moved p).state = c.state then entry else if c.persists p = true then c.raw else none

/-- What filling leaves of the entry of a cell: without a durable copy it stays what it is. -/
def filledEntry (c : Cell) (p : Policy) (raw : String) (entry : Option String) : Option String :=
  if c.persists p = true then some raw else entry

theorem moved_of_raw_eq_none {c : Cell} (h : c.raw = none) (p : Policy) : c.moved p = c := by
  rw [moved, h]

theorem moved_of_raw_eq_some {c : Cell} {raw : String} (h : c.raw = some raw) (p : Policy) :
    c.moved p = c.filled p raw := by
  rw [moved, h]

/-- Only the state of a cell moves. -/
theorem moved_eq (c : Cell) (p : Policy) : c.moved p = { c with state := (c.moved p).state } := by
  cases hraw : c.raw with
  | none => rw [moved_of_raw_eq_none hraw, ← hraw]
  | some raw => rw [moved_of_raw_eq_some hraw, filled]

/-- A cell that does not change its state stays as it is. -/
theorem moved_eq_self {c : Cell} {p : Policy} (h : (c.moved p).state = c.state) :
    c.moved p = c := by
  rw [moved_eq, h]

theorem IsAt.moved {c : Cell} {n : CellName} (h : c.IsAt n) (p : Policy) : (c.moved p).IsAt n := by
  rw [moved_eq]
  exact h

@[simp] theorem moved_raw (c : Cell) (p : Policy) : (c.moved p).raw = c.raw := by
  rw [moved_eq]

section Specifications

variable {σ : Type} [Durable σ] [LawfulDurable σ]

open LawfulDurable

theorem allOrNothing_clear (c : Cell) (d : σ) :
    AllOrNothing value? c.clear d c.emptied (Function.update (value? d) c.name none) :=
  (AllOrNothing.remove c.name d).map fun _ => c.emptied

theorem allOrNothing_write (c : Cell) (p : Policy) (raw : String) (d : σ) :
    AllOrNothing value? (c.write p raw) d (c.filled p raw)
      (Function.update (value? d) c.name (c.filledEntry p raw (value? d c.name))) := by
  unfold write filled filledEntry
  cases hp : c.persists p with
  | true => exact (AllOrNothing.set c.name raw d).map fun _ => _
  | false =>
    simp only [Bool.false_eq_true, if_false, Function.update_eq_self]
    exact .pure value? d _

theorem allOrNothing_migrate (c : Cell) (p : Policy) (d : σ) :
    AllOrNothing value? (c.migrate p) d (c.moved p, decide ((c.moved p).state ≠ c.state))
      (Function.update (value? d) c.name (c.movedEntry p (value? d c.name))) := by
  have hstay : c.moved p = c →
      AllOrNothing value? (pure (c, false) : Act σ (Cell × Bool)) d
        (c.moved p, decide ((c.moved p).state ≠ c.state))
        (Function.update (value? d) c.name (c.movedEntry p (value? d c.name))) := by
    intro hsame
    rw [movedEntry, hsame, if_pos rfl, Function.update_eq_self, decide_eq_false (not_not_intro rfl)]
    exact .pure value? d (c, false)
  unfold migrate
  cases hraw : c.raw with
  | none => exact hstay (moved_of_raw_eq_none hraw p)
  | some raw =>
    -- a cell that is already there is left alone, any other one moves together with its entry
    have hfilled := moved_of_raw_eq_some hraw p
    unfold filled at hfilled
    cases hp : c.persists p <;> cases hs : c.state
    · have h := hstay (by rw [hfilled, hp, if_neg Bool.false_ne_true, ← hraw, ← hs])
      rwa [hs] at h
    · simp only [movedEntry, hfilled, hp, hs]
      exact (AllOrNothing.remove c.name d).map fun _ => _
    · simp only [movedEntry, hfilled, hp, hs, hraw]
      exact (AllOrNothing.set c.name raw d).map fun _ => _
    · have h := hstay (by rw [hfilled, hp, if_pos rfl, ← hraw, ← hs])
      rwa [hs] at h

theorem allOrNothing_restore (c : Cell) (p : Policy) (d : σ) :
    AllOrNothing value? (c.restore p) d (c.opened p (value? d c.name))
      (Function.update (value? d) c.name (c.kept p (value? d c.name))) := by
  unfold restore
  cases hp : c.persists p with
  | true =>
    simp only [kept, hp, if_true, Function.update_eq_self]
    refine .read_bind ?_
    cases hentry : value? d c.name with
    | none => exact .pure value? d c
    | some raw =>
      simp only [opened, filled, hp, if_true]
      exact .pure value? d _
  | false =>
    have hopened : c.opened p (value? d c.name) = c := by
      cases value? d c.name <;> simp [opened, hp]
    simp only [hopened, kept, hp, if_false, Bool.false_eq_true]
    exact (AllOrNothing.remove c.name d).map fun _ => c

/-- Giving a cell a value empties it, fills it with the encoded value, or raises at once because the
value has no encoding. -/
theorem allOrNothing_set (c : Cell) (p : Policy) (v : Value) (d : σ) :
    AllOrNothing value? (c.set p v) d c.emptied (Function.update (value? d) c.name none) ∨
      (∃ raw, v ≠ .null ∧ c.encode v = .ok raw ∧
        AllOrNothing value? (c.set p v) d (c.filled p raw)
          (Function.update (value? d) c.name (c.filledEntry p raw (value? d c.name)))) ∨
      ∃ e, c.set p v d = .error e d := by
  unfold set
  split
  · exact .inl (allOrNothing_clear c d)
  · next hnull =>
    cases c.encode v with
    | ok raw => exact .inr (.inl ⟨raw, hnull, rfl, allOrNothing_write c p raw d⟩)
    | error e => exact .inr (.inr ⟨e, rfl⟩)

end Specifications

end Cell

end BearerSession
