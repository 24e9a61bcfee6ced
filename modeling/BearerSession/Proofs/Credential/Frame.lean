import BearerSession.Proofs.Credential.Tokens
import BearerSession.Proofs.Durable.Fallible

/-!
# What an operation leaves alone

An operation on a cell reaches that cell and its entry and nothing else, whatever fails. So the
changes of a session leave the identities of device and application alone: they write the tokens,
the user, the client and the policy only.
-/

namespace BearerSession

/-- The cells of the identities of an installation. -/
def CellName.installation : List CellName := [.device, .app]

namespace Cell

variable {σ α : Type} [Durable σ] [FallibleDurable σ] {n : CellName} {c : Cell}

/-- A computation on a cell, of which the answer tells what has become of it, leaves all entries but
that of the cell alone. -/
abbrev Local (n : CellName) (f : Act σ α) (cell : α → Cell) : Prop :=
  ∀ view, Anyhow (Elsewhere n.key view) f (fun a d => (cell a).IsAt n ∧ Elsewhere n.key view d)
    (Elsewhere n.key view)

/-- An answer that does not depend on the storage. -/
theorem local_pure {f : α → Cell} {a : α} (h : (f a).IsAt n) :
    Local n (pure a : Act σ α) f := by
  intro view
  refine anyhow_iff.mpr fun d hd => ?_
  exact ⟨h, hd⟩

theorem local_remove_pure (hc : c.IsAt n) {cell : α → Cell} {a : α} (h : (cell a).IsAt n) :
    Local n (do Durable.remove c.name; pure a : Act σ α) cell := by
  intro view
  rw [hc.1]
  exact .bind (Elsewhere.remove n.key view) fun _ => local_pure h view

theorem local_set_pure (hc : c.IsAt n) (raw : String) {cell : α → Cell} {a : α}
    (h : (cell a).IsAt n) : Local n (do Durable.set c.name raw; pure a : Act σ α) cell := by
  intro view
  rw [hc.1]
  exact .bind (Elsewhere.set n.key raw view) fun _ => local_pure h view

theorem local_clear (hc : c.IsAt n) : Local n (c.clear : Act σ Cell) id :=
  local_remove_pure hc hc

theorem local_write (hc : c.IsAt n) (p : Policy) (raw : String) :
    Local n (c.write p raw : Act σ Cell) id := by
  unfold write
  cases c.persists p with
  | true => exact local_set_pure hc raw hc
  | false => exact local_pure hc

theorem local_set (hc : c.IsAt n) (p : Policy) (v : Value) :
    Local n (c.set p v : Act σ Cell) id := by
  unfold set
  split
  · exact local_clear hc
  · cases c.encode v with
    | ok raw => exact local_write hc p raw
    | error e => exact fun view => .throw e

theorem local_migrate (hc : c.IsAt n) (p : Policy) :
    Local n (c.migrate p : Act σ (Cell × Bool)) Prod.fst := by
  unfold migrate
  cases c.raw with
  | none => exact local_pure hc
  | some raw =>
    cases c.persists p <;> cases c.state
    · exact local_pure hc
    · exact local_remove_pure hc hc
    · exact local_set_pure hc raw hc
    · exact local_pure hc

theorem local_restore (hc : c.IsAt n) (p : Policy) : Local n (c.restore p : Act σ Cell) id := by
  unfold restore
  cases c.persists p with
  | true =>
    refine fun view => .bind (anyhow_read c.name _) fun entry => ?_
    cases entry with
    | none => exact local_pure hc view
    | some raw => exact local_pure hc view
  | false => exact local_remove_pure hc hc

end Cell

namespace Session

variable {σ α : Type} [Durable σ] [FallibleDurable σ] {touched : CellName → Prop}

open FallibleDurable Cell Snapshot

/-- What can be told of a session on a storage that may fail. -/
def shown (s : Session σ) : Snapshot := ⟨s.store, value? s.durable⟩

/-- A computation leaves everything the same except for the cells that it may touch, whatever fails
and wherever it stops. -/
abbrev Spares (touched : CellName → Prop) (f : Act (Session σ) α) : Prop :=
  ∀ x : Snapshot, Anyhow (fun s => x.SameOutside touched s.shown) f
    (fun _ s => x.SameOutside touched s.shown) fun s => x.SameOutside touched s.shown

theorem Spares.pure (a : α) : Spares (σ := σ) touched (Pure.pure a) :=
  fun x => Undisturbed.pure (Q := fun _ (s : Session σ) => x.SameOutside touched s.shown) a

theorem Spares.after {f : Act (Session σ) α} (h : Spares touched f) {s : Session σ}
    (hs : ∀ n, (s.store.cell n).IsAt n) : s.shown.SameOutside touched (f.after s).shown :=
  Anyhow.after (h s.shown) (sameOutside_self hs touched)

theorem Spares.of_ok {f : Act (Session σ) α} (h : Spares touched f) {s t : Session σ} {a : α}
    (hs : ∀ n, (s.store.cell n).IsAt n) (hf : f s = .ok a t) :
    s.shown.SameOutside touched t.shown := by
  have hafter := h.after hs
  rwa [Act.after, hf] at hafter

/-- Work on a cell that may be touched. -/
theorem spares_onCell {n : CellName} (hn : touched n) {f : Cell → Policy → Act σ (Cell × α)}
    (hf : ∀ c p, c.IsAt n → Local n (f c p) Prod.fst) : Spares touched (onCell n f) := by
  refine fun x => anyhow_iff.mpr fun s hs => ?_
  have hother : ∀ m, ¬ touched m → m ≠ n := by
    rintro m hm rfl
    exact hm hn
  have hentry : ∀ {d : σ}, Elsewhere n.key (value? s.durable) d → ∀ m, ¬ touched m →
      value? d m.key = x.view m.key := fun hd m hm =>
    (hd m.key fun h => hother m hm (CellName.key_injective h)).trans (hs.same m hm).2
  have hend := anyhow_iff.mp (hf (s.store.cell n) s.store.policy (hs.isAt n) (value? s.durable))
    s.durable fun _ _ => rfl
  unfold onCell
  cases hr : f (s.store.cell n) s.store.policy s.durable with
  | ok r d =>
    rw [hr] at hend
    refine ⟨fun m => ?_, fun m hm => ⟨?_, hentry hend.2 m hm⟩⟩
    · change ((s.store.put n r.1).cell m).IsAt m
      by_cases hm : m = n
      · subst hm
        rw [Store.cell_put_self]
        exact hend.1
      · rw [Store.cell_put_of_ne _ _ hm]
        exact hs.isAt m
    · exact (Store.cell_put_of_ne _ _ (hother m hm)).trans (hs.same m hm).1
  | error e d =>
    rw [hr] at hend
    exact ⟨hs.isAt, fun m hm => ⟨(hs.same m hm).1, hentry hend m hm⟩⟩

theorem spares_change {n : CellName} (hn : touched n) {f : Cell → Policy → Act σ Cell}
    (hf : ∀ c p, c.IsAt n → Local n (f c p) id) : Spares touched (change n f) :=
  spares_onCell hn fun c p hc view => .bind (hf c p hc view) fun _ =>
    Anyhow.assuming fun hc' => local_pure (f := Prod.fst) hc' view

theorem spares_clear {n : CellName} (hn : touched n) : Spares (σ := σ) touched (clear n) :=
  spares_change hn fun _ _ hc => local_clear hc

theorem spares_set {n : CellName} (hn : touched n) (v : Value) :
    Spares (σ := σ) touched (set n v) :=
  spares_change hn fun _ p hc => local_set hc p v

theorem spares_migrate {n : CellName} (hn : touched n) : Spares (σ := σ) touched (migrate n) :=
  spares_onCell hn fun _ p hc => local_migrate hc p

omit [Durable σ] [FallibleDurable σ] in
/-- Looking at a cell changes nothing. -/
theorem anyhow_get (n : CellName) (P : Session σ → Prop) :
    Anyhow P (Session.get n) (fun _ => P) P := by
  refine anyhow_iff.mpr fun s hs => ?_
  unfold Session.get
  cases (s.store.cell n).get <;> exact hs

theorem spares_setAll {values : List (CellName × Value)} (h : ∀ e ∈ values, touched e.1) :
    Spares (σ := σ) touched (setAll values) := by
  induction values with
  | nil => exact Spares.pure ()
  | cons e rest ih =>
    obtain ⟨hn, hrest⟩ := List.forall_mem_cons.mp h
    exact fun x => .bind (spares_set hn e.2 x) fun _ => ih hrest x

theorem spares_putBack {values : List (CellName × Value)} (h : ∀ e ∈ values, touched e.1) :
    Spares (σ := σ) touched (putBack values) := by
  induction values with
  | nil => exact Spares.pure ()
  | cons e rest ih =>
    obtain ⟨hn, hrest⟩ := List.forall_mem_cons.mp h
    refine fun x => .bind (.tryCatch (spares_set hn e.2 x) fun _ => ?_) fun _ => ih hrest x
    exact Spares.pure () x

omit [Durable σ] [FallibleDurable σ] in
/-- The values of cells stand under their names. -/
theorem anyhow_valuesOf (names : List CellName) (P : Session σ → Prop) :
    Anyhow P (valuesOf names) (fun values s => values.map Prod.fst = names ∧ P s) P := by
  induction names with
  | nil => exact .given (.pure []) fun _ hs => ⟨rfl, hs⟩
  | cons n rest ih =>
    refine .bind (anyhow_get n P) fun v => .bind ih fun values => ?_
    exact .given (.pure ((n, v) :: values)) fun _ hs => ⟨congrArg (List.cons n) hs.1, hs.2⟩

/-- Writing a grant leaves the cells alone that a grant does not write. -/
theorem spares_writeAuthorization (g : Grant) (h : ∀ e ∈ grantValues g, touched e.1) :
    Spares (σ := σ) touched (writeAuthorization g) := by
  intro x
  refine .bind (anyhow_valuesOf _ _) fun previous => Anyhow.assuming fun hprevious => ?_
  have hback : ∀ e ∈ previous, touched e.1 := by
    intro e he
    have hname : e.1 ∈ (grantValues g).map Prod.fst := hprevious ▸ List.mem_map_of_mem he
    obtain ⟨e', he', hsame⟩ := List.mem_map.mp hname
    exact hsame ▸ h e' he'
  refine .tryCatch (spares_setAll h x) fun e => ?_
  exact .bind (spares_putBack hback x) fun _ => .throw e

/-- A grant writes no identity of the installation. -/
theorem not_mem_installation_of_mem_grantValues {g : Grant} {e : CellName × Value}
    (he : e ∈ grantValues g) : e.1 ∉ CellName.installation := by
  obtain rfl | rfl | rfl | ⟨id, -, rfl⟩ := mem_grantValues_iff.mp he <;>
    simp [CellName.installation]

theorem spares_setPolicy (p : Policy) :
    Spares (σ := σ) (· ∉ CellName.installation) (setPolicy p) := by
  intro x
  unfold setPolicy
  refine .bind (Undisturbed.get (Q := fun _ (s : Session σ) => x.SameOutside _ s.shown))
    fun s₀ => ?_
  by_cases hp : s₀.store.policy = p
  · simp only [hp, if_true]
    exact Spares.pure false x
  · simp only [hp, if_false]
    refine .bind (spares_set (by decide) (.text p.name) x) fun _ => .bind ?_ fun _ =>
      Spares.pure true x
    exact .bind (.discard (spares_migrate (by decide) x)) fun _ =>
      .bind (.discard (spares_migrate (by decide) x)) fun _ => Spares.pure () x

/-- No change that is asked of a session touches the identities of the installation. -/
theorem apply_sameOutside {s : Session σ} (hs : ∀ n, (s.store.cell n).IsAt n) (e : Effect) :
    s.shown.SameOutside (· ∉ CellName.installation) (e.apply s).shown := by
  cases e with
  | write g =>
    exact (spares_writeAuthorization g fun _ => not_mem_installation_of_mem_grantValues).after hs
  | clear =>
    have hclear : Spares (σ := σ) (· ∉ CellName.installation) clearAuthorization := fun x =>
      .bind (spares_clear (by decide) x) fun _ =>
        .bind (spares_clear (by decide) x) fun _ => spares_clear (by decide) x
    exact hclear.after hs
  | setPolicy p => exact (spares_setPolicy p).after hs

end Session

end BearerSession
