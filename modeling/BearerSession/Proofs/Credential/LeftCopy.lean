import BearerSession.Proofs.Credential.Installation

/-!
# Copies that are left behind

Moving a token trusts its state: a token in memory counts as settled where no copies are wanted. So
a copy in durable storage stays behind when its value is replaced in memory alone, until the token
is emptied or a durable copy is wanted again. There is no other way for a copy to stay behind.
-/

namespace BearerSession

namespace Slot

variable {σ : Type} [Durable σ]

/-- What is asked of each call, of the slot in which it is made. -/
def Throughout (asked : Slot σ → Policy × CellCall → Prop) :
    Slot σ → List (Policy × CellCall) → Prop
  | _, [] => True
  | s, call :: rest => asked s call ∧ Throughout asked ((call.2.act call.1).after s) rest

/-- Whether a call gives the cell a value where no copy of it is wanted. -/
def Replaces (s : Slot σ) : Policy × CellCall → Prop
  | (.never, .set v) => v ≠ .null ∧ ∃ raw, s.cell.encode v = .ok raw
  | _ => False

/-- Whether a call leaves a copy in the storage alone that the cell does not count on: it raises, or
no copy is wanted and the cell is not emptied. -/
def Passes (s : Slot σ) (call : Policy × CellCall) : Prop :=
  (call.2.act call.1).raises s = true ∨
    call.1 = .never ∧ call.2 ≠ .clear ∧ call.2 ≠ .set .null

/-- Whether calls leave a copy of an earlier value behind: the value was in durable storage when
another one replaced it in memory, and no call since has come to it. -/
def Leaves (s : Slot σ) (calls : List (Policy × CellCall)) (old : String) : Prop :=
  ∃ before call since, calls = before ++ call :: since ∧
    (s.run before).cell.state = .durable ∧ (s.run before).cell.raw = some old ∧
    (s.run before).Replaces call ∧ Throughout Passes (s.run (before ++ [call])) since

theorem run_cons (s : Slot σ) (call : Policy × CellCall) (rest : List (Policy × CellCall)) :
    s.run (call :: rest) = ((call.2.act call.1).after s).run rest := rfl

variable [LawfulDurable σ]

open LawfulDurable

/-- Whether the storage holds a copy that the cell does not count on. -/
def Stale (s : Slot σ) (old : String) : Prop :=
  s.cell.state = .transient ∧ value? s.durable s.cell.name = some old

theorem stale_congr {s t : Slot σ} (h : t.seen = s.seen) (old : String) :
    t.Stale old ↔ s.Stale old := by
  obtain ⟨hcell, hview⟩ := Prod.mk.inj h
  rw [Stale, Stale, hcell, hview]

/-- Whether a copy is stale can be told from the cell and the entry that a call makes. -/
theorem stale_of_seen {s t : Slot σ} {c : Cell} {entry : Option String}
    (hname : c.name = s.cell.name)
    (h : t.seen = (c, Function.update (value? s.durable) s.cell.name entry)) (old : String) :
    t.Stale old ↔ c.state = .transient ∧ entry = some old := by
  obtain ⟨hcell, hview⟩ := Prod.mk.inj h
  rw [Stale, hcell, hview, hname, Function.update_self]

/-- A cell that is emptied has no stale copy. -/
theorem not_stale_clear {s t : Slot σ} {u : Unit} (h : clear s = .ok u t) (old : String) :
    ¬ t.Stale old := by
  have hclear := s.cell.allOrNothing_clear s.durable
  rw [clear_eq] at h
  have hseen := ((allOrNothing_inPlace (hclear.map fun c => (c, ()))).of_ok h).2
  rw [stale_of_seen (c := s.cell.emptied) rfl hseen]
  simp

omit [LawfulDurable σ] in
/-- A value that has an encoding is written as this encoding. -/
theorem set_eq_write {s : Slot σ} {p : Policy} {v : Value} {raw : String} (hv : v ≠ .null)
    (hraw : s.cell.encode v = .ok raw) : set p v s = write p raw s := by
  cases v with
  | null => exact absurd rfl hv
  | _ => simp only [set, Act.bind_apply, Act.get_apply, hraw]

omit [LawfulDurable σ] in
/-- Where no copy is wanted, a value that replaces another one is never refused. -/
theorem Replaces.raises_eq {s : Slot σ} (hgoverned : s.cell.governed = true)
    {call : Policy × CellCall} (h : s.Replaces call) : (call.2.act call.1).raises s = false := by
  obtain ⟨p, c⟩ := call
  cases p with
  | always => exact h.elim
  | never =>
    cases c with
    | set v =>
      obtain ⟨hv, raw, hraw⟩ := h
      have hpersists : s.cell.persists .never = false := by simp [Cell.persists, hgoverned]
      have hset : set .never v s = write .never raw s := set_eq_write hv hraw
      simp only [CellCall.act, Act.raises, hset, write, Act.bind_apply, Act.get_apply, hpersists]
      rfl
    | clear => exact h.elim
    | migrate => exact h.elim

/-- A value that is given leaves a stale copy where no copy is wanted and there was one. -/
theorem stale_set_iff {s t : Slot σ} {p : Policy} {v : Value} {raw : String} {u : Unit}
    (hv : v ≠ .null) (hraw : s.cell.encode v = .ok raw) (hgoverned : s.cell.governed = true)
    (h : set p v s = .ok u t) (old : String) :
    t.Stale old ↔ p = .never ∧ value? s.durable s.cell.name = some old := by
  have hwrite := s.cell.allOrNothing_write p raw s.durable
  rw [set_eq_write hv hraw, write_eq] at h
  have hseen := ((allOrNothing_inPlace (hwrite.map fun c => (c, ()))).of_ok h).2
  rw [stale_of_seen (c := s.cell.filled p raw) rfl hseen, Cell.filledEntry]
  cases p <;> simp [Cell.filled, Cell.persists, hgoverned]

/-- Moving removes no stale copy where none is wanted, and leaves none elsewhere. -/
theorem stale_migrate_iff {s t : Slot σ} {p : Policy} {moved : Bool}
    (hsound : s.cell.Sound (value? s.durable s.cell.name)) (hgoverned : s.cell.governed = true)
    (h : migrate p s = .ok moved t) (old : String) :
    t.Stale old ↔ p = .never ∧ s.Stale old := by
  have hseen := ((s.allOrNothing_migrate p).of_ok h).2
  have hname : (s.cell.moved p).name = s.cell.name := by rw [Cell.moved_eq]
  rw [stale_of_seen hname hseen, Cell.movedEntry, Stale]
  cases hraw : s.cell.raw with
  | none =>
    have hentry := (hsound.empty hraw).2
    simp [Cell.moved_of_raw_eq_none hraw, hentry]
  | some raw =>
    rw [Cell.moved_of_raw_eq_some hraw]
    cases p <;> cases hstate : s.cell.state <;> simp [Cell.filled, Cell.persists, hgoverned]

variable {name : String} {kind : CellKind} {s : Slot σ}

/-- A call leaves a stale copy behind or passes one over, and there is no other way to have one. -/
theorem InOrder.stale_after_iff (hs : s.InOrder name kind true) (call : Policy × CellCall)
    (old : String) :
    ((call.2.act call.1).after s).Stale old ↔
      s.Stale old ∧ s.Passes call ∨
        s.cell.state = .durable ∧ s.cell.raw = some old ∧ s.Replaces call := by
  obtain ⟨p, c⟩ := call
  obtain ⟨rfl, rfl, hgoverned⟩ := hs.same
  cases hraises : (c.act p).raises s with
  | true =>
    obtain ⟨e, he⟩ := Act.exists_eq_error hraises
    have hseen : ((c.act p).after s).seen = s.seen := Prod.ext_iff.mpr (hs.raised p c e _ he)
    have hreplaces : ¬ s.Replaces (p, c) := fun h => by
      simp [h.raises_eq hgoverned] at hraises
    simp [stale_congr hseen, Passes, hraises, hreplaces]
  | false =>
    obtain ⟨u, hok⟩ := Act.exists_eq_ok hraises
    have hpasses : s.Passes (p, c) ↔ p = .never ∧ c ≠ .clear ∧ c ≠ .set .null := by
      simp [Passes, hraises]
    rw [hpasses]
    cases c with
    | clear => simp [not_stale_clear hok, Replaces]
    | migrate =>
      obtain ⟨moved, t, hmigrate, ht⟩ := Act.bind_eq_ok.mp hok
      cases ht
      rw [stale_migrate_iff hs.sound hgoverned hmigrate]
      simp [Replaces, and_comm]
    | set v =>
      by_cases hv : v = .null
      · subst hv
        cases p <;> simp [not_stale_clear hok, Replaces]
      · cases hraw : s.cell.encode v with
        | error e =>
          have hset : (CellCall.set v).act p s = .error e s := by
            cases v with
            | null => exact absurd rfl hv
            | _ => simp only [CellCall.act, set, Act.bind_apply, Act.get_apply, hraw]; rfl
          simp [hset] at hok
        | ok raw =>
          rw [stale_set_iff hv hraw hgoverned hok, Stale]
          cases p with
          | always => simp [Replaces]
          | never =>
            have hentry := hs.sound.durable
            cases hstate : s.cell.state <;> simp_all [Replaces]

/-- A run leaves a stale copy behind or passes one over. -/
theorem InOrder.stale_run_iff (hs : s.InOrder name kind true) (calls : List (Policy × CellCall))
    (old : String) :
    (s.run calls).Stale old ↔ s.Stale old ∧ Throughout Passes s calls ∨ s.Leaves calls old := by
  induction calls generalizing s with
  | nil =>
    have hleaves : ¬ s.Leaves [] old := fun ⟨before, _, _, h, _⟩ => by simp at h
    simp only [hleaves, or_false, Throughout, and_true]
    exact Iff.rfl
  | cons call rest ih =>
    rw [run_cons, ih (hs.call call.1 call.2), hs.stale_after_iff call old]
    constructor
    · rintro (⟨⟨hstale, hpasses⟩ | ⟨hstate, hraw, hreplaces⟩, hrest⟩ |
        ⟨before, last, since, rfl, hleft⟩)
      · exact .inl ⟨hstale, hpasses, hrest⟩
      · exact .inr ⟨[], call, rest, rfl, hstate, hraw, hreplaces, hrest⟩
      · exact .inr ⟨call :: before, last, since, rfl, hleft⟩
    · rintro (⟨hstale, hpasses, hrest⟩ | ⟨before, last, since, hcalls, hleft⟩)
      · exact .inl ⟨.inl ⟨hstale, hpasses⟩, hrest⟩
      · cases before with
        | nil =>
          obtain ⟨rfl, rfl⟩ := List.cons.inj hcalls
          obtain ⟨hstate, hraw, hreplaces, hsince⟩ := hleft
          exact .inl ⟨.inr ⟨hstate, hraw, hreplaces⟩, hsince⟩
        | cons first before =>
          obtain ⟨rfl, rfl⟩ := List.cons.inj hcalls
          exact .inr ⟨before, last, since, rfl, hleft⟩

/-- A slot that has been opened is in order, and no stale copy is in its storage. -/
theorem restore_ok {d : σ} {p : Policy} {opened : Slot σ}
    (hopen : restore p ⟨.blank name kind true, d⟩ = .ok () opened) :
    opened.InOrder name kind true ∧ ∀ old, ¬ opened.Stale old := by
  have hrestore := Cell.allOrNothing_restore (.blank name kind true) p d
  rw [restore_eq] at hopen
  have hseen := ((allOrNothing_inPlace (s := ⟨.blank name kind true, d⟩)
    (hrestore.map fun c => (c, ()))).of_ok hopen).2
  obtain ⟨hcell, hview⟩ := Prod.mk.inj hseen
  obtain ⟨hname, hsame⟩ := Cell.opened_same (.blank name kind true) p (value? d name)
  refine ⟨.of_sound (by rw [hcell]; exact ⟨hname, hsame⟩) ?_, fun old => ?_⟩
  · rw [hcell, hview]
    exact (Function.update_self name _ (value? d)).symm ▸
      Cell.sound_opened (c := .blank name kind true) rfl rfl p (value? d name)
  · rw [stale_of_seen (s := ⟨.blank name kind true, d⟩) hname hseen]
    cases p <;> cases hentry : value? d name <;>
      simp [hentry, Cell.opened, Cell.kept, Cell.filled, Cell.persists, Cell.blank]

/-- Moving leaves a value in durable storage exactly where a policy wants it there. -/
theorem migrate_state {t : Slot σ} {p : Policy} {moved : Bool}
    (hsound : s.cell.Sound (value? s.durable s.cell.name)) (hgoverned : s.cell.governed = true)
    (h : migrate p s = .ok moved t) :
    t.cell.state = .durable ↔ p = .always ∧ t.cell.raw ≠ none := by
  have hcell : t.cell = s.cell.moved p := congrArg Prod.fst ((s.allOrNothing_migrate p).of_ok h).2
  rw [hcell, Cell.moved_raw]
  cases hraw : s.cell.raw with
  | none => simp [Cell.moved_of_raw_eq_none hraw, (hsound.empty hraw).1]
  | some raw =>
    rw [Cell.moved_of_raw_eq_some hraw]
    cases p <;> simp [Cell.filled, Cell.persists, hgoverned]

/-- Moving settles the copy of a token, but for one that has been left behind: where a copy is
wanted, it is the value of the cell, and no other. Where none is wanted, the only one there is was
the value of the cell when another value replaced it in memory, and has been passed over since. -/
theorem migrate_settles (name : String) (kind : CellKind) (p₀ p : Policy) (d : σ)
    (opened t : Slot σ) (hopen : restore p₀ ⟨.blank name kind true, d⟩ = .ok () opened)
    (calls : List (Policy × CellCall)) (moved : Bool)
    (h : migrate p (opened.run calls) = .ok moved t) :
    t.cell.raw = (opened.run calls).cell.raw ∧
      (p = .always → value? t.durable name = t.cell.raw) ∧
        (p = .never → ∀ old, value? t.durable name = some old ↔ opened.Leaves calls old) := by
  obtain ⟨hopened, hfresh⟩ := restore_ok hopen
  have hs := hopened.run calls
  obtain ⟨rfl, -, hgoverned⟩ := hs.same
  have hseen := ((allOrNothing_migrate (opened.run calls) p).of_ok h).2
  obtain ⟨hcell, hview⟩ := Prod.mk.inj hseen
  have hname : t.cell.name = (opened.run calls).cell.name := by rw [hcell, Cell.moved_eq]
  have hsound : t.cell.Sound (value? t.durable t.cell.name) := by
    rw [hname, hcell, hview, Function.update_self]
    exact hs.sound.moved p
  have hstate := migrate_state hs.sound hgoverned h
  refine ⟨by rw [hcell, Cell.moved_raw], ?_, ?_⟩
  · rintro rfl
    rw [← hname]
    by_cases hraw : t.cell.raw = none
    · rw [hraw, (hsound.empty hraw).2]
    · exact hsound.durable (hstate.mpr ⟨rfl, hraw⟩)
  · rintro rfl old
    have htransient : t.cell.state = .transient := by
      cases hst : t.cell.state with
      | transient => rfl
      | durable => exact absurd (hstate.mp hst).1 (by decide)
    have hstale := (stale_migrate_iff hs.sound hgoverned h old).trans (and_iff_right rfl)
    rw [hopened.stale_run_iff calls old] at hstale
    simp only [hfresh old, false_and, false_or] at hstale
    rw [← hstale, Stale, hname]
    exact ⟨fun hentry => ⟨htransient, hentry⟩, And.right⟩

/-- A token that has been opened on an empty storage. -/
def freshToken : Slot Memory := ⟨.blank "access_token" .plain true, ⟨[], []⟩⟩

/-- The token gets one value where copies are wanted and another one where none are. -/
def replacedInMemory : List (Policy × CellCall) :=
  [(.always, .set (.text "a")), (.never, .set (.text "b"))]

/-- The slot of the token after that: the first value is still in the storage. -/
def replacedToken : Slot Memory :=
  ⟨⟨"access_token", .plain, true, some "b", .transient⟩, ⟨[("access_token", "a")], []⟩⟩

/-- Its copy is not settled by moving where none is wanted: it is that of the earlier value. -/
theorem migrate_settles_replacedInMemory :
    restore .always freshToken = .ok () freshToken ∧
      migrate .never (freshToken.run replacedInMemory) = .ok false replacedToken ∧
        (value? replacedToken.durable "access_token" = some "a" ↔
          freshToken.Leaves replacedInMemory "a") := by
  have hopen : restore .always freshToken = .ok () freshToken := rfl
  have hmigrate : migrate .never (freshToken.run replacedInMemory) = .ok false replacedToken := rfl
  exact ⟨hopen, hmigrate, (migrate_settles "access_token" .plain .always .never (⟨[], []⟩ : Memory)
    freshToken replacedToken hopen replacedInMemory false hmigrate).2.2 rfl "a"⟩

/-- Moving returns, no copy is wanted, and there is one. -/
theorem not_settled_replacedInMemory :
    ∃ (calls : List (Policy × CellCall)) (opened t : Slot Memory) (moved : Bool),
      restore .always ⟨.blank "access_token" .plain true, ⟨[], []⟩⟩ = .ok () opened ∧
        migrate .never (opened.run calls) = .ok moved t ∧
          ¬ value? t.durable "access_token" = none :=
  ⟨replacedInMemory, freshToken, replacedToken, false, rfl, rfl, by decide +kernel⟩

end Slot

end BearerSession
