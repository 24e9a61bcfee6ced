import BearerSession.Proofs.Credential.Refusal

/-!
# What a cell stands for

The state of a cell says whether its value is in durable storage too. This stays true through any
calls, under a policy that may be another one at each call, on a storage that may refuse anything.

A cell changes in place, one assignment after the other, and an assignment that has been made before
a refusal is not taken back. The order of the assignments is what makes each call all or nothing.
-/

namespace BearerSession

/-- What holds of a cell and its durable entry at all times. -/
structure Cell.Sound (c : Cell) (entry : Option String) : Prop where
  /-- The entry of a durable cell is its value. -/
  durable : c.state = .durable → entry = c.raw
  /-- An empty cell has no entry. -/
  empty : c.raw = none → c.state = .transient ∧ entry = none
  /-- The policy does not decide on the value of this cell, so it is in durable storage. -/
  installation : c.governed = false → c.raw ≠ none → c.state = .durable

namespace Cell

variable {c : Cell} {p : Policy} {entry : Option String}

theorem sound_emptied (c : Cell) : c.emptied.Sound none where
  durable h := absurd h (show CellState.transient ≠ .durable by decide)
  empty _ := ⟨rfl, rfl⟩
  installation _ h := absurd rfl h

/-- Where the policy wants no durable copy, an entry of an earlier value may be left. -/
theorem sound_filled (c : Cell) (p : Policy) (raw : String) (entry : Option String) :
    (c.filled p raw).Sound (c.filledEntry p raw entry) := by
  unfold filledEntry
  constructor
  · intro hstate
    by_cases hp : c.persists p = true
    · rw [if_pos hp]
      rfl
    · simp [filled, hp] at hstate
  · exact fun h => absurd h (Option.some_ne_none raw)
  · intro hg _
    have hp : c.persists p = true := persists_eq_of_not_governed hg p
    simp [filled, hp]

theorem Sound.moved (h : c.Sound entry) (p : Policy) :
    (c.moved p).Sound (c.movedEntry p entry) := by
  unfold movedEntry
  by_cases hstate : (c.moved p).state = c.state
  · rwa [if_pos hstate, moved_eq_self hstate]
  · rw [if_neg hstate]
    cases hraw : c.raw with
    | none => exact absurd (congrArg Cell.state (moved_of_raw_eq_none hraw p)) hstate
    | some raw =>
      rw [moved_of_raw_eq_some hraw]
      exact c.sound_filled p raw none

/-- Opening an empty cell takes its entry over or removes it. -/
theorem sound_opened (hraw : c.raw = none) (hstate : c.state = .transient) (p : Policy)
    (entry : Option String) : (c.opened p entry).Sound (c.kept p entry) := by
  have hempty : c.Sound none :=
    ⟨fun _ => hraw.symm, fun _ => ⟨hstate, rfl⟩, fun _ h => absurd hraw h⟩
  by_cases hp : c.persists p = true
  · rw [kept, if_pos hp]
    cases entry with
    | none => exact hempty
    | some raw =>
      have hfilled := c.sound_filled p raw none
      rw [filledEntry, if_pos hp] at hfilled
      rwa [opened, if_pos hp]
  · have hopened : c.opened p entry = c := by
      cases entry <;> simp [opened, hp]
    rwa [kept, if_neg hp, hopened]

end Cell

/-- A cell in use, together with its durable storage. -/
structure Slot (σ : Type) where
  /-- The cell. -/
  cell : Cell
  /-- The durable storage. -/
  durable : σ

namespace Slot

section InPlace

variable {σ α : Type}

/-- Work on the durable storage. -/
def durably (f : Act σ α) : Act (Slot σ) α := fun s =>
  match f s.durable with
  | .ok a d => .ok a { s with durable := d }
  | .error e d => .error e { s with durable := d }

/-- Assign the value of the cell. -/
def setRaw (raw : Option String) : Act (Slot σ) Unit :=
  modify fun s => { s with cell := { s.cell with raw } }

/-- Assign the state of the cell. -/
def setState (state : CellState) : Act (Slot σ) Unit :=
  modify fun s => { s with cell := { s.cell with state } }

variable [Durable σ]

/-- Open the cell. -/
def restore (p : Policy) : Act (Slot σ) Unit := do
  let c := (← MonadState.get).cell
  if c.persists p then
    match ← durably (Durable.read c.name) with
    | some raw =>
      setRaw (some raw)
      setState .durable
    | none => return ()
  else
    durably (Durable.remove c.name)

/-- Empty the cell. -/
def clear : Act (Slot σ) Unit := do
  durably (Durable.remove (← MonadState.get).cell.name)
  setRaw none
  setState .transient

/-- Give the cell an encoded value. -/
def write (p : Policy) (raw : String) : Act (Slot σ) Unit := do
  let c := (← MonadState.get).cell
  if c.persists p then
    durably (Durable.set c.name raw)
    setState .durable
  else
    setState .transient
  setRaw (some raw)

/-- Give the cell a value. -/
def set (p : Policy) (v : Value) : Act (Slot σ) Unit := do
  match v with
  | .null => clear
  | v =>
    match (← MonadState.get).cell.encode v with
    | .ok raw => write p raw
    | .error e => throw e

/-- Move the value of the cell to where the policy wants it, and say whether it moved. -/
def migrate (p : Policy) : Act (Slot σ) Bool := do
  let c := (← MonadState.get).cell
  match c.raw with
  | none => return false
  | some raw =>
    if c.persists p then
      if c.state = .durable then return false
      durably (Durable.set c.name raw)
      setState .durable
    else
      if c.state = .transient then return false
      durably (Durable.remove c.name)
      setState .transient
    return true

/-- Work on a copy of the cell, and put it in place when the work is done. -/
def inPlace (f : Cell → Act σ (Cell × α)) : Act (Slot σ) α := fun s =>
  match f s.cell s.durable with
  | .ok (c, a) d => .ok a ⟨c, d⟩
  | .error e d => .error e { s with durable := d }

theorem clear_eq : (clear : Act (Slot σ) Unit) = inPlace fun c => do return (← c.clear, ()) := by
  funext s
  simp only [clear, inPlace, Cell.clear, Act.bind_apply, Act.get_apply, durably]
  cases Durable.remove s.cell.name s.durable <;> rfl

theorem restore_eq (p : Policy) :
    (restore p : Act (Slot σ) Unit) = inPlace fun c => do return (← c.restore p, ()) := by
  funext s
  simp only [restore, inPlace, Cell.restore, Act.bind_apply, Act.get_apply]
  cases s.cell.persists p with
  | true =>
    simp only [if_true, Act.bind_apply, durably]
    cases Durable.read s.cell.name s.durable with
    | ok entry d => cases entry <;> rfl
    | error e d => rfl
  | false =>
    simp only [if_false, Bool.false_eq_true, Act.bind_apply, durably]
    cases Durable.remove s.cell.name s.durable <;> rfl

theorem write_eq (p : Policy) (raw : String) :
    (write p raw : Act (Slot σ) Unit) = inPlace fun c => do return (← c.write p raw, ()) := by
  funext s
  simp only [write, inPlace, Cell.write, Act.bind_apply, Act.get_apply]
  cases s.cell.persists p with
  | true =>
    simp only [if_true, Act.bind_apply, durably]
    cases Durable.set s.cell.name raw s.durable <;> rfl
  | false => rfl

theorem migrate_eq (p : Policy) :
    (migrate p : Act (Slot σ) Bool) = inPlace fun c => c.migrate p := by
  funext ⟨⟨name, kind, governed, raw, state⟩, d⟩
  simp only [migrate, inPlace, Cell.migrate, Act.bind_apply, Act.get_apply]
  cases raw with
  | none => rfl
  | some raw =>
    cases Cell.persists _ p <;> cases state
    · rfl
    · simp only [reduceCtorEq, if_false, Bool.false_eq_true, Act.bind_apply, durably]
      cases Durable.remove name d <;> rfl
    · simp only [reduceCtorEq, if_false, if_true, Act.bind_apply, durably]
      cases Durable.set name raw d <;> rfl
    · rfl

theorem set_eq (p : Policy) (v : Value) :
    (set p v : Act (Slot σ) Unit) = inPlace fun c => do return (← c.set p v, ()) := by
  funext s
  cases v with
  | null => exact congrFun clear_eq s
  | _ =>
    simp only [set, inPlace, Cell.set, Act.bind_apply, Act.get_apply]
    cases s.cell.encode _ with
    | ok raw =>
      refine (congrFun (write_eq p raw) s).trans ?_
      simp only [inPlace, Act.bind_apply]
    | error e => rfl

end InPlace

section Calls

variable {σ α : Type} [Durable σ] [LawfulDurable σ]

open LawfulDurable

/-- What can be told of a cell in use: the cell and what its storage holds. -/
def seen (s : Slot σ) : Cell × (String → Option String) := (s.cell, value? s.durable)

theorem allOrNothing_inPlace {f : Cell → Act σ (Cell × α)} {s : Slot σ} {c : Cell} {a : α}
    {after : String → Option String}
    (h : AllOrNothing value? (f s.cell) s.durable (c, a) after) :
    AllOrNothing seen (inPlace f) s a (c, after) := by
  cases hf : f s.cell s.durable with
  | ok r d =>
    obtain ⟨rfl, rfl⟩ := h.of_ok hf
    simp only [AllOrNothing, inPlace, hf]
    exact ⟨trivial, rfl⟩
  | error e d =>
    simp only [AllOrNothing, inPlace, hf]
    exact congrArg (Prod.mk s.cell) (h.of_error hf)

theorem allOrNothing_migrate (s : Slot σ) (p : Policy) :
    AllOrNothing seen (migrate p) s (decide ((s.cell.moved p).state ≠ s.cell.state))
      (s.cell.moved p, Function.update (value? s.durable) s.cell.name
        (s.cell.movedEntry p (value? s.durable s.cell.name))) := by
  rw [migrate_eq]
  exact allOrNothing_inPlace (s.cell.allOrNothing_migrate p s.durable)

end Calls

end Slot

/-- A call of an operation of a cell. -/
inductive CellCall where
  /-- The cell is given a value. -/
  | set (v : Value)
  /-- The cell is emptied. -/
  | clear
  /-- The value is moved to where the policy wants it. -/
  | migrate

/-- Carry out a call under the policy in force. -/
def CellCall.act {σ : Type} [Durable σ] (p : Policy) : CellCall → Act (Slot σ) Unit
  | .set v => Slot.set p v
  | .clear => Slot.clear
  | .migrate => discard (Slot.migrate p)

namespace Slot

variable {σ : Type} [Durable σ]

/-- The cell after some calls, each under its own policy. What a call did before it raised stays. -/
def run (s : Slot σ) (calls : List (Policy × CellCall)) : Slot σ :=
  calls.foldl (fun s call => (call.2.act call.1).after s) s

variable [LawfulDurable σ]

open LawfulDurable

/-- A cell in use is in order when it is the one that was opened and stands for what its storage
holds, and when no call that raises changes anything. -/
structure InOrder (name : String) (kind : CellKind) (governed : Bool) (s : Slot σ) : Prop where
  /-- The cell is the one that was opened. -/
  same : s.cell.name = name ∧ s.cell.kind = kind ∧ s.cell.governed = governed
  /-- Its state tells where its value is. -/
  sound : s.cell.Sound (value? s.durable name)
  /-- A call that raises leaves the cell and the storage as they were. -/
  raised : ∀ (p : Policy) (call : CellCall) (e : Raised) (t : Slot σ), call.act p s = .error e t →
    t.cell = s.cell ∧ value? t.durable = value? s.durable
  /-- Moving changes nothing but the state, and says whether it did. -/
  migrated : ∀ (p : Policy) (moved : Bool) (t : Slot σ), migrate p s = .ok moved t →
    t.cell = { s.cell with state := t.cell.state } ∧
      (moved = true ↔ t.cell.state ≠ s.cell.state)

/-- What a call may make of a cell in use and of its entry: the cell stays the one it is, and sound
if it was. -/
structure Continues (s : Slot σ) (c : Cell) (entry : Option String) : Prop where
  /-- The cell is the same one. -/
  same : c.name = s.cell.name ∧ c.kind = s.cell.kind ∧ c.governed = s.cell.governed
  /-- Its state tells where its value is, if it did before. -/
  sound : s.cell.Sound (value? s.durable s.cell.name) → c.Sound entry

theorem continues_emptied (s : Slot σ) : s.Continues s.cell.emptied none :=
  ⟨⟨rfl, rfl, rfl⟩, fun _ => s.cell.sound_emptied⟩

theorem continues_filled (s : Slot σ) (p : Policy) (raw : String) :
    s.Continues (s.cell.filled p raw)
      (s.cell.filledEntry p raw (value? s.durable s.cell.name)) :=
  ⟨⟨rfl, rfl, rfl⟩, fun _ => s.cell.sound_filled p raw _⟩

theorem continues_moved (s : Slot σ) (p : Policy) :
    s.Continues (s.cell.moved p) (s.cell.movedEntry p (value? s.durable s.cell.name)) where
  same := by
    rw [Cell.moved_eq]
    exact ⟨rfl, rfl, rfl⟩
  sound h := h.moved p

/-- Every call is all or nothing. -/
theorem call_allOrNothing (s : Slot σ) (p : Policy) (call : CellCall) :
    ∃ c entry, AllOrNothing seen (call.act p) s ()
      (c, Function.update (value? s.durable) s.cell.name entry) ∧ s.Continues c entry := by
  cases call with
  | set v =>
    rw [CellCall.act, set_eq]
    obtain h | ⟨raw, -, -, h⟩ | ⟨e, he⟩ := s.cell.allOrNothing_set p v s.durable
    · exact ⟨_, _, allOrNothing_inPlace (h.map fun c => (c, ())), s.continues_emptied⟩
    · exact ⟨_, _, allOrNothing_inPlace (h.map fun c => (c, ())), s.continues_filled p raw⟩
    · -- without an encoding the storage is not even asked
      refine ⟨s.cell, value? s.durable s.cell.name, ?_, ⟨rfl, rfl, rfl⟩, id⟩
      simp only [AllOrNothing, inPlace, Act.bind_apply, he]
  | clear =>
    rw [CellCall.act, clear_eq]
    have h := s.cell.allOrNothing_clear s.durable
    exact ⟨_, _, allOrNothing_inPlace (h.map fun c => (c, ())), s.continues_emptied⟩
  | migrate => exact ⟨_, _, (s.allOrNothing_migrate p).map fun _ => (), s.continues_moved p⟩

variable {name : String} {kind : CellKind} {governed : Bool} {s : Slot σ}

/-- Only what a cell stands for has to be shown; how its calls behave follows from the calls. -/
theorem InOrder.of_sound
    (hsame : s.cell.name = name ∧ s.cell.kind = kind ∧ s.cell.governed = governed)
    (hsound : s.cell.Sound (value? s.durable name)) : s.InOrder name kind governed where
  same := hsame
  sound := hsound
  raised p call e t ht := by
    obtain ⟨c, entry, h, -⟩ := s.call_allOrNothing p call
    exact Prod.mk.inj (h.of_error ht)
  migrated p moved t ht := by
    obtain ⟨rfl, hseen⟩ := (s.allOrNothing_migrate p).of_ok ht
    have hcell : t.cell = s.cell.moved p := congrArg Prod.fst hseen
    rw [hcell, decide_eq_true_iff]
    exact ⟨s.cell.moved_eq p, Iff.rfl⟩

/-- A call keeps a cell in order, also when it raises. -/
theorem InOrder.call (h : s.InOrder name kind governed) (p : Policy) (call : CellCall) :
    ((call.act p).after s).InOrder name kind governed := by
  obtain ⟨c, entry, hact, hcontinues⟩ := s.call_allOrNothing p call
  obtain ⟨rfl, rfl, rfl⟩ := h.same
  unfold Act.after
  cases hs : call.act p s with
  | ok u t =>
    obtain ⟨-, hseen⟩ := hact.of_ok hs
    obtain ⟨hcell, hview⟩ := Prod.mk.inj hseen
    refine .of_sound (by rw [hcell]; exact hcontinues.same) ?_
    rw [hcell, hview, Function.update_self]
    exact hcontinues.sound h.sound
  | error e t =>
    obtain ⟨hcell, hview⟩ := h.raised p call e t hs
    refine .of_sound (by rw [hcell]; exact ⟨rfl, rfl, rfl⟩) ?_
    simp only [hcell, hview]
    exact h.sound

theorem InOrder.run (h : s.InOrder name kind governed) (calls : List (Policy × CellCall)) :
    (s.run calls).InOrder name kind governed := by
  induction calls generalizing s with
  | nil => exact h
  | cons call rest ih => exact ih (h.call call.1 call.2)

/-- Whatever is in the storage, whatever it refuses and whatever the policy is from call to call, a
cell that has been opened stays in order. -/
theorem opened_inOrder (name : String) (kind : CellKind) (governed : Bool) (p : Policy) (d : σ)
    (opened : Slot σ) (hopen : restore p ⟨.blank name kind governed, d⟩ = .ok () opened)
    (calls : List (Policy × CellCall)) : (opened.run calls).InOrder name kind governed := by
  refine InOrder.run ?_ calls
  have hrestore := Cell.allOrNothing_restore (.blank name kind governed) p d
  rw [restore_eq] at hopen
  obtain ⟨-, hseen⟩ := (allOrNothing_inPlace (s := ⟨.blank name kind governed, d⟩)
    (hrestore.map fun c => (c, ()))).of_ok hopen
  obtain ⟨hcell, hview⟩ := Prod.mk.inj hseen
  refine .of_sound ?_ ?_
  · rw [hcell]
    exact Cell.opened_same _ _ _
  · have hsound := Cell.sound_opened (c := .blank name kind governed) rfl rfl p (value? d name)
    rw [hcell, hview]
    exact (Function.update_self name _ (value? d)).symm ▸ hsound

/-- A storage with a token of an earlier session, which refuses the first and the third write or
removal from now on. -/
def reluctant : Unreliable Memory := ⟨⟨[("access_token", "old")], []⟩, fun n => n = 0 ∨ n = 2⟩

/-- The slot of a token that has been opened on it. -/
def reopenedToken : Slot (Unreliable Memory) :=
  ⟨⟨"access_token", .plain, true, some "old", .durable⟩, reluctant⟩

/-- The token is replaced while the policy wants no copy of it, moved back and forth between two
policies, and emptied at last; the first move and the first emptying are refused. -/
def toAndFro : List (Policy × CellCall) :=
  [(.never, .set (.text "new")), (.always, .migrate), (.never, .migrate), (.always, .migrate),
    (.never, .clear), (.never, .set .null)]

/-- The token is in order after all this, and gone. -/
theorem reopenedToken_inOrder :
    restore .always ⟨.blank "access_token" .plain true, reluctant⟩ = .ok () reopenedToken ∧
      (reopenedToken.run toAndFro).InOrder "access_token" .plain true ∧
        (reopenedToken.run toAndFro).cell.raw = none := by
  have hopen : restore .always ⟨.blank "access_token" .plain true, reluctant⟩ =
      .ok () reopenedToken := rfl
  exact ⟨hopen, opened_inOrder "access_token" .plain true .always reluctant reopenedToken hopen
    toAndFro, by decide +kernel⟩

end Slot

end BearerSession
