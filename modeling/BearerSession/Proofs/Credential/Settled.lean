import BearerSession.Credential.Store
import BearerSession.Proofs.Credential.Undisturbed

/-!
# Settled stores

A store is settled when each cell agrees with the durable storage: the storage holds the value of
the cell where the policy wants a durable copy, and holds nothing under its key elsewhere. A cell
stays so when it is emptied, filled or moved together with its entry.
-/

namespace BearerSession

namespace Cell

/-- Whether a cell agrees with its durable entry under a policy. -/
def Agrees (c : Cell) (p : Policy) (entry : Option String) : Prop :=
  entry = (if c.persists p = true then c.raw else none) ∧
    c.state = if entry.isSome = true then .durable else .transient

/-- Whether a cell is the one of a name. -/
def IsAt (c : Cell) (n : CellName) : Prop :=
  c.name = n.key ∧ c.kind = n.kind ∧ c.governed = n.governed

/-- A cell without a value. -/
def emptied (c : Cell) : Cell := { c with raw := none, state := .transient }

/-- A cell with a value that lives where the policy wants it. -/
def filled (c : Cell) (p : Policy) (raw : String) : Cell :=
  { c with raw := some raw, state := if c.persists p = true then .durable else .transient }

/-- Only where the policy decides does it matter which one it is. -/
theorem persists_eq_of_not_governed {c : Cell} (h : c.governed = false) (p : Policy) :
    c.persists p = true := by
  simp [persists, h]

theorem agrees_emptied (c : Cell) (p : Policy) : c.emptied.Agrees p none :=
  ⟨(ite_self none).symm, rfl⟩

theorem agrees_filled (c : Cell) (p : Policy) (raw : String) :
    (c.filled p raw).Agrees p (if c.persists p = true then some raw else none) := by
  refine ⟨rfl, ?_⟩
  change (if c.persists p = true then CellState.durable else .transient) = _
  split <;> rfl

/-- A cell without a value agrees with its entry under every policy or none. -/
theorem Agrees.of_raw_eq_none {c : Cell} {p : Policy} {entry : Option String}
    (h : c.Agrees p entry) (hraw : c.raw = none) (q : Policy) : c.Agrees q entry := by
  obtain ⟨hentry, hstate⟩ := h
  rw [hraw, ite_self] at hentry
  exact ⟨by rw [hentry, hraw, ite_self], hstate⟩

/-- Where the policy wants no durable copy there is none. -/
theorem Agrees.entry_eq_none {c : Cell} {p : Policy} {entry : Option String}
    (h : c.Agrees p entry) (hp : c.persists p = false) : entry = none := by
  rw [h.1, hp, if_neg Bool.false_ne_true]

/-- The state of a cell tells whether its value is in durable storage. -/
theorem Agrees.entry_eq {c : Cell} {p : Policy} {entry : Option String} (h : c.Agrees p entry) :
    entry = if c.state = .durable then c.raw else none := by
  obtain ⟨hentry, hstate⟩ := h
  cases entry with
  | none => simp [hstate]
  | some raw =>
    rw [hstate, if_pos (by rfl)]
    split at hentry
    · exact hentry
    · contradiction

section Rules

variable {σ : Type} [Durable σ] [CountedDurable σ] {E : σ → Prop}
  {Q : Cell → (String → Option String) → Prop}

open CountedDurable LawfulDurable

theorem undisturbed_clear (c : Cell) :
    Undisturbed refusals
      (fun d => Q c.emptied (Function.update (value? d) c.name none))
      (c.clear : Act σ Cell) (fun c' d => Q c' (value? d)) E := by
  unfold clear
  refine .bind (.remove c.name (Q := fun view => Q c.emptied view)) fun _ => ?_
  exact .pure (Q := fun c' d => Q c' (value? d)) c.emptied

theorem undisturbed_write (c : Cell) (p : Policy) (raw : String) :
    Undisturbed refusals
      (fun d => Q (c.filled p raw)
        (if c.persists p = true then Function.update (value? d) c.name (some raw) else value? d))
      (c.write p raw : Act σ Cell) (fun c' d => Q c' (value? d)) E := by
  unfold write
  by_cases hp : c.persists p = true
  · simp only [hp, if_true]
    refine .bind (.set c.name raw (Q := fun view => Q (c.filled p raw) view)) fun _ => ?_
    have hfilled : c.filled p raw = { c with raw := some raw, state := .durable } := by
      simp [filled, hp]
    rw [hfilled]
    exact .pure (Q := fun c' d => Q c' (value? d)) _
  · have hfilled : c.filled p raw = { c with raw := some raw, state := .transient } := by
      simp [filled, hp]
    simp only [hp, if_false, hfilled, Bool.false_eq_true]
    exact .pure (Q := fun c' d => Q c' (value? d)) _

/-- The value of a cell moves to where the policy wants it, wherever it has been. -/
theorem undisturbed_migrate (c : Cell) (p q : Policy) :
    Undisturbed refusals
      (fun d => c.Agrees q (value? d c.name) ∧
        match c.raw with
        | none => Q c (value? d)
        | some raw => Q (c.filled p raw) (Function.update (value? d) c.name
            (if c.persists p = true then some raw else none)))
      (c.migrate p : Act σ (Cell × Bool)) (fun r d => Q r.1 (value? d)) E := by
  unfold migrate
  cases hraw : c.raw with
  | none =>
    exact .given (.pure (Q := fun (r : Cell × Bool) d => Q r.1 (value? d)) (c, false))
      fun d hd => hd.2
  | some raw =>
    have hfilled : c.filled p raw = { c with
        raw := some raw, state := if c.persists p = true then .durable else .transient } := rfl
    -- a cell that is where the policy wants it has its entry already
    have hstay : ∀ d : σ, (c.Agrees q (value? d c.name) ∧ Q (c.filled p raw)
        (Function.update (value? d) c.name (if c.persists p = true then some raw else none))) →
        c.state = (if c.persists p = true then .durable else .transient) → Q c (value? d) := by
      rintro d ⟨hagrees, hq⟩ hstate
      have hentry : value? d c.name = if c.persists p = true then some raw else none := by
        rw [hagrees.entry_eq, hstate, hraw]
        split <;> simp
      rwa [← hentry, Function.update_eq_self, hfilled, ← hstate, ← hraw] at hq
    by_cases hp : c.persists p = true
    · simp only [hp, if_true] at hfilled hstay ⊢
      by_cases hs : c.state = .durable
      · simp only [hs, if_true]
        exact .given (.pure (Q := fun (r : Cell × Bool) (d : σ) => Q r.1 (value? d)) (c, false))
          fun d hd => hstay d hd hs
      · simp only [hs, if_false]
        refine .bind (.given (.set c.name raw (Q := Q (c.filled p raw))) fun d hd => hd.2)
          fun _ => ?_
        rw [hfilled]
        exact .pure (Q := fun (r : Cell × Bool) (d : σ) => Q r.1 (value? d)) _
    · simp only [hp, if_false, Bool.false_eq_true] at hfilled hstay ⊢
      by_cases hs : c.state = .transient
      · simp only [hs, if_true]
        exact .given (.pure (Q := fun (r : Cell × Bool) (d : σ) => Q r.1 (value? d)) (c, false))
          fun d hd => hstay d hd hs
      · simp only [hs, if_false]
        refine .bind (.given (.remove c.name (Q := Q (c.filled p raw))) fun d hd => hd.2)
          fun _ => ?_
        rw [hfilled]
        exact .pure (Q := fun (r : Cell × Bool) (d : σ) => Q r.1 (value? d)) _

end Rules

end Cell

/-- The cells of a store agree with a view of the durable storage, each under a policy. -/
structure Settled (under : CellName → Policy) (store : Store) (view : String → Option String) :
    Prop where
  /-- Each cell is the one of its name. -/
  isAt : ∀ n, (store.cell n).IsAt n
  /-- Each cell agrees with its entry. -/
  agrees : ∀ n, (store.cell n).Agrees (under n) (view n.key)

namespace Settled

variable {under under' : CellName → Policy} {store : Store} {view : String → Option String}

/-- The policy matters only for the cells that it governs. -/
theorem retarget (h : Settled under store view)
    (hu : ∀ n, n.governed = true → under' n = under n) : Settled under' store view where
  isAt := h.isAt
  agrees := by
    intro n
    have hagrees := h.agrees n
    cases hg : n.governed with
    | true => rwa [hu n hg]
    | false =>
      have hcell : (store.cell n).governed = false := (h.isAt n).2.2.trans hg
      unfold Cell.Agrees at hagrees ⊢
      rw [Cell.persists_eq_of_not_governed hcell] at hagrees ⊢
      exact hagrees

/-- A cell may be replaced together with its entry. -/
theorem put (h : Settled under store view) {n : CellName} {c : Cell} {p : Policy}
    {entry : Option String} (hc : c.IsAt n) (ha : c.Agrees p entry) :
    Settled (Function.update under n p) (store.put n c) (Function.update view n.key entry) where
  isAt := by
    intro m
    by_cases hm : m = n
    · subst hm
      rwa [Store.cell_put_self]
    · rw [Store.cell_put_of_ne _ _ hm]
      exact h.isAt m
  agrees := by
    intro m
    by_cases hm : m = n
    · subst hm
      rw [Store.cell_put_self, Function.update_self, Function.update_self]
      exact ha
    · have hkey : m.key ≠ n.key := fun he => hm (CellName.key_injective he)
      rw [Store.cell_put_of_ne _ _ hm, Function.update_of_ne hm, Function.update_of_ne hkey]
      exact h.agrees m

theorem put_emptied (h : Settled under store view) (n : CellName) :
    Settled under (store.put n (store.cell n).emptied)
      (Function.update view (store.cell n).name none) := by
  have hat : (store.cell n).emptied.IsAt n := h.isAt n
  have hput := h.put hat ((store.cell n).agrees_emptied (under n))
  rwa [Function.update_eq_self, ← (h.isAt n).1] at hput

/-- A cell may be filled under any policy, if its entry follows. -/
theorem put_filled (h : Settled under store view) (n : CellName) (p : Policy) (raw : String) :
    Settled (Function.update under n p) (store.put n ((store.cell n).filled p raw))
      (Function.update view (store.cell n).name
        (if (store.cell n).persists p = true then some raw else none)) := by
  have hat : ((store.cell n).filled p raw).IsAt n := h.isAt n
  have hput := h.put hat ((store.cell n).agrees_filled p raw)
  rwa [← (h.isAt n).1] at hput

/-- A cell that is filled under its own policy needs an entry only where the policy wants one. -/
theorem put_written (h : Settled under store view) (n : CellName) (raw : String) :
    Settled under (store.put n ((store.cell n).filled (under n) raw))
      (if (store.cell n).persists (under n) = true then
        Function.update view (store.cell n).name (some raw) else view) := by
  have hput := h.put_filled n (under n) raw
  rw [Function.update_eq_self] at hput
  cases hp : (store.cell n).persists (under n) with
  | true =>
    rw [if_pos rfl]
    rwa [hp, if_pos rfl] at hput
  | false =>
    have hnone := (h.agrees n).entry_eq_none hp
    rw [if_neg Bool.false_ne_true]
    rwa [hp, if_neg Bool.false_ne_true, (h.isAt n).1, ← hnone, Function.update_eq_self] at hput

/-- A cell without a value follows every policy. -/
theorem put_self (h : Settled under store view) {n : CellName} (hraw : (store.cell n).raw = none)
    (p : Policy) : Settled (Function.update under n p) (store.put n (store.cell n)) view := by
  have hput := h.put (h.isAt n) ((h.agrees n).of_raw_eq_none hraw p)
  rwa [Function.update_eq_self] at hput

end Settled

end BearerSession
