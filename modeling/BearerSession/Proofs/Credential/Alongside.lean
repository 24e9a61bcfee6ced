import BearerSession.Proofs.Credential.Identities
import BearerSession.Proofs.Credential.PolicyChange

/-!
# Sessions side by side

Two computations run alongside each other when, from states that correspond, either both answer or
both raise the same error, and what they leave corresponds again. Storages that do so key by key
carry sessions that do so too, even where the texts of tokens differ: nothing that a session does
but to show its header depends on the text of a token that is not empty.
-/

namespace BearerSession

/-- Outcomes that correspond: both are answers that do, or both are the same error; and so do the
states. -/
inductive Outcomes {σ τ α β : Type} (R : σ → τ → Prop) (same : α → β → Prop) :
    EStateM.Result Raised σ α → EStateM.Result Raised τ β → Prop
  /-- Both are answers. -/
  | ok {a b s t} (h : same a b) (hs : R s t) : Outcomes R same (.ok a s) (.ok b t)
  /-- Both are an error. -/
  | error {s t} (e : Raised) (hs : R s t) : Outcomes R same (.error e s) (.error e t)

/-- Two computations keep in step when they lead from states that correspond to outcomes that do. -/
def InStep {σ τ α β : Type} (R : σ → τ → Prop) (f : Act σ α) (g : Act τ β) (same : α → β → Prop) :
    Prop :=
  ∀ s t, R s t → Outcomes R same (f s) (g t)

section Rules

variable {σ τ α β γ δ : Type} {R S : σ → τ → Prop} {same same' : α → β → Prop}
  {next : γ → δ → Prop} {f : Act σ α} {g : Act τ β}

/-- Less may be asked for of outcomes. -/
theorem Outcomes.weaken {r : EStateM.Result Raised σ α} {r' : EStateM.Result Raised τ β}
    (h : Outcomes R same r r') (hsame : ∀ a b, same a b → same' a b)
    (hstate : ∀ s t, R s t → S s t) : Outcomes S same' r r' := by
  cases h with
  | ok h hs => exact .ok (hsame _ _ h) (hstate _ _ hs)
  | error e hs => exact .error e (hstate _ _ hs)

namespace InStep

theorem pure {a : α} {b : β} (h : same a b) :
    InStep R (Pure.pure a : Act σ α) (Pure.pure b : Act τ β) same :=
  fun _ _ hs => .ok h hs

theorem throw (e : Raised) :
    InStep R (MonadExcept.throw e : Act σ α) (MonadExcept.throw e : Act τ β) same :=
  fun _ _ hs => .error e hs

theorem bind {k : α → Act σ γ} {l : β → Act τ δ} (hf : InStep R f g same)
    (hk : ∀ a b, same a b → InStep R (k a) (l b) next) : InStep R (f >>= k) (g >>= l) next := by
  intro s t hs
  rw [Act.bind_apply, Act.bind_apply]
  have h := hf s t hs
  generalize f s = r at h ⊢
  generalize g t = r' at h ⊢
  cases h with
  | ok h hs => exact hk _ _ h _ _ hs
  | error e hs => exact .error e hs

/-- What follows the same answer keeps in step as it does for each of them. -/
theorem andThen {f : Act σ α} {g : Act τ α} {k : α → Act σ γ} {l : α → Act τ δ}
    (hf : InStep R f g Eq) (hk : ∀ a, InStep R (k a) (l a) next) :
    InStep R (f >>= k) (g >>= l) next :=
  hf.bind fun a _ h => h ▸ hk a

theorem discard (hf : InStep R f g same) :
    InStep R (Functor.discard f) (Functor.discard g) Eq := by
  intro s t hs
  have h := hf s t hs
  change Outcomes R Eq (EStateM.map _ f s) (EStateM.map _ g t)
  unfold EStateM.map
  generalize f s = r at h ⊢
  generalize g t = r' at h ⊢
  cases h with
  | ok _ hs => exact .ok rfl hs
  | error e hs => exact .error e hs

/-- What is done for each of a list keeps in step when each of it does. -/
theorem forM {ι : Type} {k : ι → Act σ Unit} {l : ι → Act τ Unit} (names : List ι)
    (h : ∀ n, InStep R (k n) (l n) Eq) : InStep R (names.forM k) (names.forM l) Eq := by
  induction names with
  | nil => exact .pure rfl
  | cons n rest ih => exact (h n).bind fun _ _ _ => ih

/-- What is read off states keeps in step when it corresponds wherever the states do. -/
theorem read {k : σ → α} {l : τ → β} (h : ∀ s t, R s t → same (k s) (l t)) :
    InStep R (do return k (← get)) (do return l (← get)) same :=
  fun s t hs => .ok (h s t hs) hs

end InStep

end Rules

/-- Which texts of a cell count as alike. Only texts of tokens may, and none of them with the empty
one. -/
structure Likeness where
  /-- Whether two texts of a cell are alike. -/
  Alike : CellName → String → String → Prop
  /-- Each text is like itself. -/
  refl : ∀ n v, Alike n v v
  /-- Outside the tokens it is like no other. -/
  eq_of_not_governed : ∀ {n v w}, n.governed = false → Alike n v w → v = w
  /-- The empty text is like no other. -/
  eq_empty_iff : ∀ {n v w}, Alike n v w → (v = "" ↔ w = "")

namespace Likeness

/-- No two texts are alike. -/
def exact : Likeness where
  Alike _ v w := v = w
  refl _ _ := rfl
  eq_of_not_governed _ h := h
  eq_empty_iff h := by rw [h]

/-- All texts of a token are alike but the empty one. -/
def veiled : Likeness where
  Alike n v w := v = w ∨ n.governed = true ∧ v ≠ "" ∧ w ≠ ""
  refl _ _ := .inl rfl
  eq_of_not_governed := by
    rintro n v w hn (h | ⟨hgoverned, -⟩)
    · exact h
    · exact absurd (hn.symm.trans hgoverned) Bool.false_ne_true
  eq_empty_iff := by
    rintro n v w (rfl | ⟨-, hv, hw⟩)
    · rfl
    · exact iff_of_false hv hw

variable (l : Likeness)

/-- Two storages keep in step when their operations do so on every cell, with texts that are alike.
-/
structure Storages {σ τ : Type} [Durable σ] [Durable τ] (R : σ → τ → Prop) : Prop where
  /-- They read texts that are alike. -/
  read : ∀ n : CellName, InStep R (Durable.read n.key) (Durable.read n.key) (Option.Rel (l.Alike n))
  /-- They may be given texts that are alike. -/
  set : ∀ {n : CellName} {v w : String}, l.Alike n v w →
    InStep R (Durable.set n.key v) (Durable.set n.key w) Eq
  /-- They drop the same. -/
  remove : ∀ n : CellName, InStep R (Durable.remove n.key) (Durable.remove n.key) Eq

/-- Two cells of a name are alike when they differ at most in their texts, and these are alike. -/
structure Cells (n : CellName) (c c' : Cell) : Prop where
  /-- They are cells of that name. -/
  isAt : c.IsAt n
  /-- They differ at most in their texts. -/
  rest : c' = { c with raw := c'.raw }
  /-- Their texts are alike. -/
  raw : Option.Rel (l.Alike n) c.raw c'.raw

/-- Two stores are alike when all their cells are, and they fall back on the same policy. -/
structure Stores (s s' : Store) : Prop where
  /-- They fall back on the same policy. -/
  defaultPolicy : s.defaultPolicy = s'.defaultPolicy
  /-- Their cells are alike. -/
  cell : ∀ n, l.Cells n (s.cell n) (s'.cell n)

/-- Two sessions correspond when their stores are alike and their storages correspond. -/
def Sessions {σ τ : Type} (R : σ → τ → Prop) (s : Session σ) (s' : Session τ) : Prop :=
  l.Stores s.store s'.store ∧ R s.durable s'.durable

variable {l} {n : CellName} {c c' : Cell}

/-- Texts that are alike outside the tokens are the same. -/
theorem rel_eq_of_not_governed {v v' : Option String} (h : Option.Rel (l.Alike n) v v')
    (hn : n.governed = false) : v = v' := by
  cases h with
  | none => rfl
  | some h => rw [l.eq_of_not_governed hn h]

/-- Every text is like itself, and so is no text. -/
theorem rel_refl (n : CellName) (v : Option String) : Option.Rel (l.Alike n) v v := by
  cases v with
  | none => exact .none
  | some v => exact .some (l.refl n v)

namespace Cells

/-- They persist under the same policies. -/
theorem persists_eq (h : l.Cells n c c') (p : Policy) : c'.persists p = c.persists p := by
  rw [h.rest]
  rfl

/-- They are in the same state. -/
theorem state_eq (h : l.Cells n c c') : c'.state = c.state := by
  rw [h.rest]

/-- They encode values in the same way. -/
theorem encode_eq (h : l.Cells n c c') (v : Value) : c'.encode v = c.encode v := by
  rw [h.rest]
  rfl

/-- A blank cell is like itself. -/
theorem blank (n : CellName) :
    l.Cells n (.blank n.key n.kind n.governed) (.blank n.key n.kind n.governed) :=
  ⟨⟨rfl, rfl, rfl⟩, rfl, .none⟩

/-- Cells that are alike go on to be so when they are given texts that are alike, and one state. -/
theorem update (h : l.Cells n c c') {v v' : Option String} (hv : Option.Rel (l.Alike n) v v')
    (state : CellState) :
    l.Cells n { c with raw := v, state } { c' with raw := v', state } := by
  refine ⟨h.isAt, ?_, hv⟩
  rw [h.rest]

section Changes

variable {σ τ : Type} [Durable σ] [Durable τ] {R : σ → τ → Prop}

variable (h : l.Cells n c c') (hR : l.Storages R)

include h hR

theorem read : InStep R (Durable.read c.name) (Durable.read c'.name) (Option.Rel (l.Alike n)) := by
  rw [h.rest, show c.name = n.key from h.isAt.1]
  exact hR.read n

theorem remove : InStep R (Durable.remove c.name) (Durable.remove c'.name) Eq := by
  rw [h.rest, show c.name = n.key from h.isAt.1]
  exact hR.remove n

theorem put {v w : String} (hv : l.Alike n v w) :
    InStep R (Durable.set c.name v) (Durable.set c'.name w) Eq := by
  rw [h.rest, show c.name = n.key from h.isAt.1]
  exact hR.set hv

theorem restore (p : Policy) : InStep R (c.restore p) (c'.restore p) (l.Cells n) := by
  unfold Cell.restore
  rw [h.persists_eq]
  split
  · refine (h.read hR).bind fun v v' hv => ?_
    cases hv with
    | none => exact .pure h
    | some hv => exact .pure (h.update (.some hv) .durable)
  · exact (h.remove hR).bind fun _ _ _ => .pure h

theorem clear : InStep R c.clear c'.clear (l.Cells n) :=
  (h.remove hR).bind fun _ _ _ => .pure (h.update .none .transient)

theorem write (p : Policy) {v w : String} (hv : l.Alike n v w) :
    InStep R (c.write p v) (c'.write p w) (l.Cells n) := by
  unfold Cell.write
  rw [h.persists_eq]
  split
  · exact (h.put hR hv).bind fun _ _ _ => .pure (h.update (.some hv) .durable)
  · exact .pure (h.update (.some hv) .transient)

theorem set (p : Policy) (v : Value) : InStep R (c.set p v) (c'.set p v) (l.Cells n) := by
  unfold Cell.set
  split
  · exact h.clear hR
  · rw [h.encode_eq]
    split
    · exact h.write hR p (l.refl n _)
    · exact .throw _

/-- Whether a value moves depends on the cell alone, and not on its text. -/
theorem migrate (p : Policy) :
    InStep R (c.migrate p) (c'.migrate p) fun x y => l.Cells n x.1 y.1 ∧ x.2 = y.2 := by
  have hraw := h.raw
  unfold Cell.migrate
  rw [h.persists_eq, h.state_eq]
  generalize hv : c.raw = v at hraw ⊢
  generalize hv' : c'.raw = v' at hraw ⊢
  cases hraw with
  | none => exact .pure ⟨h, rfl⟩
  | some halike =>
    dsimp only
    by_cases hp : c.persists p = true
    · rw [if_pos hp, if_pos hp]
      by_cases hs : c.state = .durable
      · rw [if_pos hs, if_pos hs]
        exact .pure ⟨h, rfl⟩
      · rw [if_neg hs, if_neg hs]
        exact (h.put hR halike).bind fun _ _ _ => .pure ⟨h.update (.some halike) .durable, rfl⟩
    · rw [if_neg hp, if_neg hp]
      by_cases hs : c.state = .transient
      · rw [if_pos hs, if_pos hs]
        exact .pure ⟨h, rfl⟩
      · rw [if_neg hs, if_neg hs]
        exact (h.remove hR).bind fun _ _ _ => .pure ⟨h.update (.some halike) .transient, rfl⟩

end Changes

end Cells

namespace Stores

variable {s s' : Store}

/-- Stores that are alike have the same policy in force. -/
theorem policy_eq (h : l.Stores s s') : s.policy = s'.policy := by
  rw [Store.policy, Store.policy, h.defaultPolicy, rel_eq_of_not_governed (h.cell .policy).raw rfl]

/-- Either both have a header or none has. -/
theorem isSome_header (h : l.Stores s s') : s.header.isSome = s'.header.isSome := by
  have hgiven {n : CellName} {v v' : Option String} (hv : Option.Rel (l.Alike n) v v') :
      (v.bind Text.nonempty?).isSome = (v'.bind Text.nonempty?).isSome := by
    cases hv with
    | none => rfl
    | some hv =>
      have hempty := l.eq_empty_iff hv
      rw [Option.bind_some, Option.bind_some, Text.nonempty?, Text.nonempty?]
      split <;> split <;> simp_all
  have hheader (a i : Option String) : (Header.authorization a i).isSome =
      ((a.bind Text.nonempty?).isSome && (i.bind Text.nonempty?).isSome) := by
    rw [Header.authorization]
    cases a.bind Text.nonempty? <;> cases i.bind Text.nonempty? <;> rfl
  rw [Store.header, Store.header, hheader, hheader, hgiven (h.cell .accessToken).raw,
    hgiven (h.cell .idToken).raw]

/-- Outside the tokens the cells are the same. -/
theorem cell_eq (h : l.Stores s s') (hn : n.governed = false) : s.cell n = s'.cell n := by
  rw [(h.cell n).rest, ← rel_eq_of_not_governed (h.cell n).raw hn]

/-- A blank store is like itself. -/
theorem blank (p : Policy) : l.Stores (.blank p) (.blank p) :=
  ⟨rfl, fun n => .blank n⟩

/-- Stores that are alike go on to be so when they get cells that are alike. -/
theorem put (h : l.Stores s s') (hc : l.Cells n c c') : l.Stores (s.put n c) (s'.put n c') := by
  refine ⟨h.defaultPolicy, fun m => ?_⟩
  by_cases hm : m = n
  · subst hm
    rw [Store.cell_put_self, Store.cell_put_self]
    exact hc
  · rw [Store.cell_put_of_ne _ _ hm, Store.cell_put_of_ne _ _ hm]
    exact h.cell m

end Stores

namespace Storages

variable {σ τ α β : Type} [Durable σ] [Durable τ] {R : σ → τ → Prop} (hR : l.Storages R)

omit [Durable σ] [Durable τ] in
/-- Work on cells that are alike keeps in step in sessions too. -/
theorem onCell {f : Cell → Policy → Act σ (Cell × α)} {g : Cell → Policy → Act τ (Cell × β)}
    {same : α → β → Prop}
    (h : ∀ c c' p, l.Cells n c c' →
      InStep R (f c p) (g c' p) fun x y => l.Cells n x.1 y.1 ∧ same x.2 y.2) :
    InStep (l.Sessions R) (Session.onCell n f) (Session.onCell n g) same := by
  rintro ⟨s, d⟩ ⟨s', d'⟩ ⟨hs, hd⟩
  have hcell := h _ _ s.policy (hs.cell n) d d' hd
  simp only [Session.onCell, ← show s.policy = s'.policy from hs.policy_eq]
  generalize f (s.cell n) s.policy d = r at hcell ⊢
  generalize g (s'.cell n) s.policy d' = r' at hcell ⊢
  cases hcell with
  | ok hxy hstate => exact .ok hxy.2 ⟨hs.put hxy.1, hstate⟩
  | error e hstate => exact .error e ⟨hs, hstate⟩

omit [Durable σ] [Durable τ] in
theorem change {f : Cell → Policy → Act σ Cell} {g : Cell → Policy → Act τ Cell}
    (h : ∀ c c' p, l.Cells n c c' → InStep R (f c p) (g c' p) (l.Cells n)) :
    InStep (l.Sessions R) (Session.change n f) (Session.change n g) Eq :=
  onCell fun c c' p hc => (h c c' p hc).bind fun _ _ hcells => .pure ⟨hcells, rfl⟩

include hR

theorem setCell (n : CellName) (v : Value) :
    InStep (l.Sessions R) (Session.set n v) (Session.set n v) Eq :=
  change fun _ _ p hc => hc.set hR p v

theorem clearCell (n : CellName) :
    InStep (l.Sessions R) (Session.clear n) (Session.clear n) Eq :=
  change fun _ _ _ hc => hc.clear hR

theorem migrateCell (n : CellName) :
    InStep (l.Sessions R) (Session.migrate n) (Session.migrate n) Eq :=
  onCell fun _ _ p hc => hc.migrate hR p

omit [Durable σ] [Durable τ] hR in
/-- Outside the tokens the same is read. -/
theorem getCell (hn : n.governed = false) :
    InStep (l.Sessions R) (Session.get n) (Session.get n) Eq := by
  intro s s' hs
  rw [Session.get, Session.get, hs.1.cell_eq hn]
  cases (s'.store.cell n).get with
  | ok v => exact .ok rfl hs
  | error e => exact .error e hs

omit [Durable σ] [Durable τ] hR in
/-- So are identities. -/
theorem identity (kind : IdentityKind) :
    InStep (l.Sessions R) (Session.identity kind) (Session.identity kind) Eq := by
  have hcell : (Session.identityCell kind).governed = false := by cases kind <;> rfl
  intro s s' hs
  rw [Session.identity, Session.identity, hs.1.cell_eq hcell]
  cases (s'.store.cell (Session.identityCell kind)).getAsMap with
  | error e => exact .error e hs
  | ok entries =>
    dsimp only
    cases (Identity.ofGiven (.map entries) : Except _ (Identity kind)) with
    | error report => exact .error _ hs
    | ok i => exact .ok rfl hs

/-- Stores that are opened over corresponding storages are alike. -/
theorem openStore (p : Policy) :
    InStep R (Session.openStore p : Act σ Store) (Session.openStore p : Act τ Store) l.Stores := by
  intro d d' hd
  have hopen : InStep (l.Sessions R)
      (CellName.all.forM fun n => (Session.change n Cell.restore : Act (Session σ) Unit))
      (CellName.all.forM fun n => (Session.change n Cell.restore : Act (Session τ) Unit)) Eq :=
    .forM _ fun n => change fun _ _ p hc => hc.restore hR p
  have h := hopen ⟨.blank p, d⟩ ⟨.blank p, d'⟩ ⟨.blank p, hd⟩
  simp only [Session.openStore]
  generalize (CellName.all.forM fun n => (Session.change n Cell.restore : Act (Session σ) Unit))
    ⟨.blank p, d⟩ = r at h ⊢
  generalize (CellName.all.forM fun n => (Session.change n Cell.restore : Act (Session τ) Unit))
    ⟨.blank p, d'⟩ = r' at h ⊢
  cases h with
  | ok _ hs => exact .ok hs.1 hs.2
  | error e hs => exact .error e hs.2

theorem setIfAbsent (hn : n.governed = false) (v : Value) :
    InStep (l.Sessions R) (Session.setIfAbsent n v) (Session.setIfAbsent n v) Eq := by
  refine (getCell hn).bind fun w w' hw => ?_
  subst hw
  split
  · exact hR.setCell n v
  · exact .pure rfl

theorem install (device : Identity .device) (app : Identity .app) :
    InStep (l.Sessions R) (Session.install device app) (Session.install device app) Eq :=
  (hR.setIfAbsent rfl _).bind fun _ _ _ => hR.setIfAbsent rfl _

/-- A session is opened alike where the device is described alike. Describing it may change how
storages correspond. -/
theorem openFor {S : σ → τ → Prop} (hS : l.Storages S) (hRS : ∀ s t, R s t → S s t)
    {describe : Value → σ → Identity .device × σ} {describe' : Value → τ → Identity .device × τ}
    (hdescribe : ∀ device s t, R s t → (describe device s).1 = (describe' device t).1 ∧
      S (describe device s).2 (describe' device t).2)
    (c : Config) {d : σ} {d' : τ} (hd : R d d') :
    Outcomes S l.Stores (Session.openFor describe c d) (Session.openFor describe' c d') := by
  have hopen := hR.openStore c.policy d d' hd
  unfold Session.openFor
  generalize (Session.openStore c.policy d : EStateM.Result _ _ Store) = r at hopen ⊢
  generalize (Session.openStore c.policy d' : EStateM.Result _ _ Store) = r' at hopen ⊢
  cases hopen with
  | error e hd => exact .error e (hRS _ _ hd)
  | @ok store store' d d' hstore hd =>
    dsimp only
    rw [hstore.cell_eq rfl]
    cases (store'.cell .device).get with
    | error e => exact .error e (hRS _ _ hd)
    | ok device =>
      obtain ⟨hsame, hdescribed⟩ := hdescribe device d d' hd
      dsimp only
      rw [hsame]
      have hinstall := hS.install (describe' device d').1 (.app c.appId c.appVersion)
        ⟨store, (describe device d).2⟩ ⟨store', (describe' device d').2⟩ ⟨hstore, hdescribed⟩
      generalize Session.install (describe' device d').1 (.app c.appId c.appVersion)
        (⟨store, (describe device d).2⟩ : Session σ) = r at hinstall ⊢
      generalize Session.install (describe' device d').1 (.app c.appId c.appVersion)
        (⟨store', (describe' device d').2⟩ : Session τ) = r' at hinstall ⊢
      cases hinstall with
      | error e hs => exact .error e hs.2
      | ok _ hs => exact .ok hs.1 hs.2

theorem clearAuthorization :
    InStep (l.Sessions R) Session.clearAuthorization Session.clearAuthorization Eq :=
  (hR.clearCell _).bind fun _ _ _ => (hR.clearCell _).bind fun _ _ _ => hR.clearCell _

theorem setPolicy (p : Policy) :
    InStep (l.Sessions R) (Session.setPolicy p) (Session.setPolicy p) Eq := by
  intro s s' hs
  rw [Session.setPolicy_apply, Session.setPolicy_apply, hs.1.policy_eq]
  split
  · exact .ok rfl hs
  · have hmoves : InStep (l.Sessions R)
        (CellName.tokens.forM fun n => discard (Session.migrate n : Act (Session σ) Bool))
        (CellName.tokens.forM fun n => discard (Session.migrate n : Act (Session τ) Bool)) Eq :=
      .forM _ fun n => (hR.migrateCell n).discard
    exact (hR.setCell .policy _).bind (fun _ _ _ => hmoves.bind fun _ _ _ => .pure rfl) s s' hs

end Storages

end Likeness

end BearerSession
