import BearerSession.Proofs.Credential.PolicyChange

/-!
# What changes make of the tokens

A grant that has been written without an error is what the cells of the tokens hold, whatever they
held before. Forgetting them empties some of the cells, wherever it stops. A change of the policy
leaves the values alone and moves only their copies.
-/

namespace BearerSession

/-- An error that has been caught may have been followed by a success. -/
theorem Act.tryCatch_eq_ok {τ α : Type} {f : Act τ α} {g : Raised → Act τ α} {s t : τ} {a : α}
    (h : (MonadExcept.tryCatch f g : Act τ α) s = .ok a t) :
    f s = .ok a t ∨ ∃ e u, f s = .error e u ∧ g e u = .ok a t := by
  change EStateM.tryCatch f g s = _ at h
  delta EStateM.tryCatch at h
  cases hf : f s with
  | ok b u =>
    simp only [hf] at h
    exact .inl h
  | error e u =>
    simp only [hf] at h
    exact .inr ⟨e, u, rfl, h⟩

/-- The token of a grant that belongs into a cell. -/
def Grant.token? (g : Grant) : CellName → Option String
  | .accessToken => some g.accessToken
  | .idToken => some g.idToken
  | _ => none

namespace Snapshot

/-- A snapshot that is the same as another one except for the cells that may be touched. -/
structure SameOutside (x : Snapshot) (touched : CellName → Prop) (y : Snapshot) : Prop where
  /-- Each cell is the one of its name. -/
  isAt : ∀ n, (y.store.cell n).IsAt n
  /-- The other cells are the same, and so are their entries. -/
  same : ∀ n, ¬ touched n → y.store.cell n = x.store.cell n ∧ y.view n.key = x.view n.key

variable {x y : Snapshot} {touched : CellName → Prop}

theorem sameOutside_self (h : ∀ n, (x.store.cell n).IsAt n) (touched : CellName → Prop) :
    x.SameOutside touched x := ⟨h, fun _ _ => ⟨rfl, rfl⟩⟩

theorem SameOutside.put (h : x.SameOutside touched y) {n : CellName} (hn : touched n) {c : Cell}
    (hc : c.IsAt n) (entry : Option String) : x.SameOutside touched (y.put n c entry) where
  isAt m := by
    by_cases hm : m = n
    · subst hm
      rwa [put_cell_self]
    · rw [put_cell_of_ne _ _ _ hm]
      exact h.isAt m
  same m hm := by
    have hne : m ≠ n := by
      rintro rfl
      exact hm hn
    rw [put_cell_of_ne _ _ _ hne, put_view_of_ne (h.isAt n).1 _ _ hne]
    exact h.same m hm

/-- It stays the same except for them in every single step on them. -/
theorem sameOutside_law (x : Snapshot) (touched : CellName → Prop) :
    StepLaw (x.SameOutside touched) touched fun _ _ => True where
  isAt h := h.isAt
  get _ _ _ _ _ _ _ := trivial
  emptied {y n} hn h := h.put hn (c := (y.store.cell n).emptied) (h.isAt n) none
  filled {y n raw} hn _ h :=
    h.put hn (c := (y.store.cell n).filled y.store.policy raw) (h.isAt n) _

/-- Each cell has the value that it has in another snapshot, or none. -/
def FewerValues (x y : Snapshot) : Prop :=
  ∀ n, (y.store.cell n).raw = (x.store.cell n).raw ∨ (y.store.cell n).raw = none

theorem FewerValues.emptied (h : x.FewerValues y) (n : CellName) : x.FewerValues (y.emptied n) := by
  intro m
  by_cases hm : m = n
  · rw [hm, Snapshot.emptied, put_cell_self]
    exact .inr rfl
  · rw [Snapshot.emptied, put_cell_of_ne _ _ _ hm]
    exact h m

/-- A change of policy that has begun leaves the values of the tokens alone. -/
theorem Begun.raw_eq {p : Policy} {done : List CellName} (h : x.Begun p done y) {n : CellName}
    (hn : n ∈ CellName.tokens) : (y.store.cell n).raw = (x.store.cell n).raw := by
  obtain ⟨hcell, -⟩ | ⟨hcell, -⟩ := h.tokens hn
  · rw [hcell]
  · rw [hcell, Cell.moved_raw]

end Snapshot

namespace Session

variable {σ : Type} [Durable σ] [LawfulDurable σ]

open LawfulDurable

/-- Forgetting empties some of the cells, wherever it stops. -/
theorem clearAuthorization_fewerValues (s : Session σ) :
    s.seen.FewerValues (clearAuthorization.after s).seen := by
  have hclear : ∀ n, Keeps (σ := σ) s.seen.FewerValues (clear n) := fun n =>
    .of_allOrNothing fun t ht => ⟨_, _, allOrNothing_clear n t, ht.emptied n⟩
  have hkeeps : Keeps (σ := σ) s.seen.FewerValues clearAuthorization :=
    .bind (hclear .accessToken) fun _ => .bind (hclear .idToken) fun _ => hclear .user
  exact hkeeps.after fun _ => .inl rfl

/-- Cells that are given values leave the other cells as they are. -/
theorem keeps_sameOutside_setAll (x : Snapshot) (values : List (CellName × Value)) :
    Keeps (σ := σ) (x.SameOutside fun n => n ∈ values.map Prod.fst) (setAll values) :=
  (x.sameOutside_law _).keeps_setAll fun _ he =>
    ⟨List.mem_map_of_mem he, fun _ _ _ _ _ => trivial⟩

/-- A text that has been given to a cell among others is what the cell holds. -/
theorem setAll_ok {s t : Session σ} (hs : ∀ n, (s.store.cell n).IsAt n)
    {values : List (CellName × Value)} (hnodup : (values.map Prod.fst).Nodup)
    (h : setAll values s = .ok () t) {n : CellName} {text : String} (hn : (n, .text text) ∈ values)
    (hkind : n.kind = .plain) : (t.store.cell n).raw = some text := by
  induction values generalizing s with
  | nil => contradiction
  | cons e rest ih =>
    obtain ⟨hfresh, hrest⟩ := List.nodup_cons.mp hnodup
    obtain ⟨_, s₁, hset, hafter⟩ := Act.bind_eq_ok.mp h
    have hat₁ : ∀ m, (s₁.store.cell m).IsAt m := by
      have hkeeps := (s.seen.sameOutside_law fun _ => True).keeps_set (σ := σ) (n := e.1)
        (v := e.2) trivial fun _ _ _ _ _ => trivial
      exact (hkeeps.of_ok (Snapshot.sameOutside_self hs _) hset).isAt
    rcases List.mem_cons.mp hn with rfl | hn
    · have hseen := ((allOrNothing_set_text ((hs n).2.1.trans hkind) text).of_ok hset).2
      have hsame := (keeps_sameOutside_setAll s₁.seen rest).of_ok
        (Snapshot.sameOutside_self hat₁ _) hafter
      have hcell : t.store.cell n = s₁.seen.store.cell n := (hsame.same n hfresh).1
      rw [hcell, hseen, Snapshot.filled, Snapshot.put_cell_self]
      rfl
    · exact ih hat₁ hrest hafter hn

omit [Durable σ] [LawfulDurable σ] in
/-- A grant writes no cell twice. -/
theorem nodup_grantValues (g : Grant) : ((grantValues g).map Prod.fst).Nodup := by
  unfold grantValues
  cases g.clientId.bind Text.nonempty? <;> simp

/-- A grant that has been written is what the cells of the tokens hold. -/
theorem writeAuthorization_ok {s t : Session σ} (hs : ∀ n, (s.store.cell n).IsAt n) {g : Grant}
    (h : writeAuthorization g s = .ok () t) :
    ∀ n ∈ CellName.tokens, (t.store.cell n).raw = g.token? n := by
  obtain ⟨previous, s₁, hread, htry⟩ := Act.bind_eq_ok.mp h
  have hat₁ : ∀ n, (s₁.store.cell n).IsAt n := by
    have hnames : ∀ n ∈ (grantValues g).map Prod.fst, True := fun _ _ => trivial
    have hkeeps := anyhow_iff.mp ((s.seen.sameOutside_law fun _ => True).anyhow_valuesOf
      (σ := σ) hnames) s (Snapshot.sameOutside_self hs _)
    rw [hread] at hkeeps
    exact hkeeps.2.isAt
  obtain hset | ⟨e, s₂, -, hback⟩ := Act.tryCatch_eq_ok htry
  · intro n hn
    have hnodup := nodup_grantValues g
    obtain rfl | rfl := CellName.eq_of_mem_tokens hn
    · exact setAll_ok hat₁ hnodup hset (by simp [grantValues]) rfl
    · exact setAll_ok hat₁ hnodup hset (by simp [grantValues]) rfl
  · obtain ⟨_, _, -, hthrow⟩ := Act.bind_eq_ok.mp hback
    rw [Act.throw_apply] at hthrow
    contradiction

end Session

end BearerSession
