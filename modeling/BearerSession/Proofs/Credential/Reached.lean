import BearerSession.Proofs.Credential.Installation

/-!
# Sessions in use

A session that has been opened is changed as a whole or used cell by cell. Giving a value to a cell
takes the cell and its entry to what is determined by them and the policy, or is refused and changes
nothing. So at all times the cells stand for what the storage holds.
-/

namespace BearerSession

namespace Cell

variable {c : Cell} {p : Policy} {v : Value} {entry : Option String}

/-- What giving a value to a cell makes of the cell and its entry. A value without an encoding is
not given. -/
def given (c : Cell) (p : Policy) (v : Value) (entry : Option String) : Cell × Option String :=
  match v with
  | .null => (c.emptied, none)
  | v =>
    match c.encode v with
    | .ok raw => (c.filled p raw, c.filledEntry p raw entry)
    | .error _ => (c, entry)

theorem given_null (c : Cell) (p : Policy) (entry : Option String) :
    c.given p .null entry = (c.emptied, none) := rfl

theorem given_of_encode {raw : String} (hv : v ≠ .null) (hraw : c.encode v = .ok raw) :
    c.given p v entry = (c.filled p raw, c.filledEntry p raw entry) := by
  cases v with
  | null => exact absurd rfl hv
  | _ => simp only [given, hraw]

theorem given_of_encode_error {e : Raised} (hv : v ≠ .null) (he : c.encode v = .error e) :
    c.given p v entry = (c, entry) := by
  cases v with
  | null => exact absurd rfl hv
  | _ => simp only [given, he]

/-- What a cell becomes, it becomes by being emptied, by being filled or not at all. -/
theorem given_cases (c : Cell) (p : Policy) (v : Value) (entry : Option String) :
    c.given p v entry = (c.emptied, none) ∨
      (∃ raw, c.given p v entry = (c.filled p raw, c.filledEntry p raw entry)) ∨
        c.given p v entry = (c, entry) := by
  by_cases hv : v = .null
  · exact .inl (hv ▸ given_null c p entry)
  · cases hraw : c.encode v with
    | ok raw => exact .inr (.inl ⟨raw, given_of_encode hv hraw⟩)
    | error e => exact .inr (.inr (given_of_encode_error hv hraw))

/-- Being given a value does not change which cell it is. -/
theorem IsAt.given {n : CellName} (h : c.IsAt n) (p : Policy) (v : Value) (entry : Option String) :
    (c.given p v entry).1.IsAt n := by
  obtain hgiven | ⟨raw, hgiven⟩ | hgiven := c.given_cases p v entry <;>
    (rw [hgiven]; exact h)

theorem Sound.given (h : c.Sound entry) (p : Policy) (v : Value) :
    (c.given p v entry).1.Sound (c.given p v entry).2 := by
  obtain hgiven | ⟨raw, hgiven⟩ | hgiven := c.given_cases p v entry <;> rw [hgiven]
  · exact sound_emptied c
  · exact c.sound_filled p raw entry
  · exact h

end Cell

namespace Snapshot

/-- A cell is given a value under the policy in force. -/
def given (s : Snapshot) (n : CellName) (v : Value) : Snapshot :=
  let c := s.store.cell n
  let given := c.given s.store.policy v (s.view c.name)
  s.put n given.1 given.2

end Snapshot

/-- A call of an operation of a session or of one of its cells. -/
inductive StoreCall where
  /-- A cell is given a value. -/
  | set (n : CellName) (v : Value)
  /-- A cell is emptied. -/
  | clear (n : CellName)
  /-- The value of a cell is moved to where the policy wants it. -/
  | migrate (n : CellName)
  /-- The session is changed as a whole. -/
  | change (e : Effect)

namespace Session

variable {σ : Type} [Durable σ]

/-- The session after a call, whether it succeeds or raises. -/
def call (s : Session σ) : StoreCall → Session σ
  | .set n v => (set n v).after s
  | .clear n => (clear n).after s
  | .migrate n => (migrate n).after s
  | .change e => e.apply s

/-- Whether a session has been opened, on whatever storage, and used since. -/
def Reached (s : Session σ) : Prop :=
  ∃ defaultPolicy d store d' calls,
    openStore defaultPolicy d = .ok store d' ∧ s = List.foldl call ⟨store, d'⟩ calls

/-- Whether a session that is opened on a storage and used ends as asked. -/
def endsAs (defaultPolicy : Policy) (d : σ) (calls : List StoreCall) (asked : Session σ → Bool) :
    Bool :=
  match openStore defaultPolicy d with
  | .ok store d' => asked (calls.foldl call ⟨store, d'⟩)
  | .error _ _ => false

theorem exists_reached_of_endsAs {defaultPolicy : Policy} {d : σ} {calls : List StoreCall}
    {asked : Session σ → Bool} (h : endsAs defaultPolicy d calls asked = true) :
    ∃ s : Session σ, s.Reached ∧ asked s = true := by
  unfold endsAs at h
  cases hopen : openStore defaultPolicy d with
  | ok store d' =>
    rw [hopen] at h
    exact ⟨_, ⟨defaultPolicy, d, store, d', calls, hopen, rfl⟩, h⟩
  | error e d' =>
    rw [hopen] at h
    contradiction

variable [LawfulDurable σ]

/-- Giving a cell a value is all or nothing. -/
theorem allOrNothing_given (n : CellName) (v : Value) (s : Session σ) :
    AllOrNothing seen (set n v) s () (s.seen.given n v) := by
  by_cases hv : v = .null
  · subst hv
    exact allOrNothing_clear n s
  · cases hraw : (s.store.cell n).encode v with
    | ok raw =>
      have hseen : s.seen.given n v = s.seen.filled n raw := by
        simp only [Snapshot.given, Snapshot.filled, seen, Cell.given_of_encode hv hraw]
      rw [hseen]
      refine allOrNothing_change (f := fun c p => c.set p v) ?_
      have hset : (s.store.cell n).set (σ := σ) s.store.policy v =
          (s.store.cell n).write s.store.policy raw := by
        cases v with
        | null => exact absurd rfl hv
        | _ => simp only [Cell.set, hraw]
      rw [hset]
      exact (s.store.cell n).allOrNothing_write s.store.policy raw s.durable
    | error e =>
      have hset : set n v s = .error e s := by
        cases v with
        | null => exact absurd rfl hv
        | _ => simp only [set, change, onCell, Cell.set, hraw, Act.bind_apply, Act.throw_apply]
      simp only [AllOrNothing, hset]

/-- Whether each cell of a session is the one of its name and stands for what the storage holds. -/
def Sound (s : Session σ) : Prop := s.seen.Each fun _ n c entry => c.IsAt n ∧ c.Sound entry

theorem Sound.isAt {s : Session σ} (h : s.Sound) (n : CellName) : (s.store.cell n).IsAt n := (h n).1

theorem keeps_sound_set (n : CellName) (v : Value) :
    Keeps (σ := σ) (Snapshot.Each fun _ n c entry => c.IsAt n ∧ c.Sound entry) (set n v) := by
  refine .of_allOrNothing fun s hs => ⟨_, _, allOrNothing_given n v s, ?_⟩
  obtain ⟨hat, hsound⟩ := hs n
  refine hs.put (fun _ => Cell.sound_steady.under) hat.1 ?_
  rw [hat.1]
  exact ⟨hat.given _ _ _, hsound.given _ _⟩

theorem keeps_sound_migrate (n : CellName) :
    Keeps (σ := σ) (Snapshot.Each fun _ n c entry => c.IsAt n ∧ c.Sound entry) (migrate n) := by
  refine .of_allOrNothing fun s hs => ⟨_, _, allOrNothing_migrate n s, ?_⟩
  obtain ⟨hat, hsound⟩ := hs n
  refine hs.put (fun _ => Cell.sound_steady.under) hat.1 ?_
  rw [hat.1]
  exact ⟨hat.moved _, hsound.moved _⟩

/-- A call keeps a session sound, also when it raises. -/
theorem Sound.call {s : Session σ} (h : s.Sound) (c : StoreCall) : (s.call c).Sound := by
  cases c with
  | set n v => exact (keeps_sound_set n v).after h
  | clear n => exact (keeps_sound_set n .null).after h
  | migrate n => exact (keeps_sound_migrate n).after h
  | change e =>
    exact Cell.sound_law.apply Cell.sound_steady (s := s) h fun _ _ _ _ _ _ _ _ _ => trivial

/-- So do any number of calls. -/
theorem Sound.calls {s : Session σ} (h : s.Sound) (calls : List StoreCall) :
    (calls.foldl Session.call s).Sound := by
  induction calls generalizing s with
  | nil => exact h
  | cons c rest ih => exact ih (h.call c)

/-- A session that has been reached is sound. -/
theorem Reached.sound {s : Session σ} (h : s.Reached) : s.Sound := by
  obtain ⟨defaultPolicy, d, store, d', calls, hopen, rfl⟩ := h
  exact Sound.calls (s := ⟨store, d'⟩) (sound_openStore hopen) calls

end Session

end BearerSession
