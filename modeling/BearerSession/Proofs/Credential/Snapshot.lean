import BearerSession.Proofs.Credential.Representation

/-!
# Sessions whatever is refused

All that can be told of a session is its cells and what its storage holds. An operation on one cell
takes one such snapshot to another or leaves it. So a law of single cells and their entries that
holds through these few steps holds through every change of a session, however many of the steps are
refused and wherever a change stops.
-/

namespace BearerSession

/-- The cells of a session and what its storage holds. -/
structure Snapshot where
  /-- The cells. -/
  store : Store
  /-- What the storage holds. -/
  view : String → Option String

namespace Snapshot

/-- Replace a cell together with its entry. -/
def put (s : Snapshot) (n : CellName) (c : Cell) (entry : Option String) : Snapshot :=
  ⟨s.store.put n c, Function.update s.view (s.store.cell n).name entry⟩

/-- A cell is emptied. -/
def emptied (s : Snapshot) (n : CellName) : Snapshot := s.put n (s.store.cell n).emptied none

/-- A cell is given an encoded value under the policy in force. -/
def filled (s : Snapshot) (n : CellName) (raw : String) : Snapshot :=
  let c := s.store.cell n
  s.put n (c.filled s.store.policy raw) (c.filledEntry s.store.policy raw (s.view c.name))

/-- The value of a cell is moved to where the policy in force wants it. -/
def moved (s : Snapshot) (n : CellName) : Snapshot :=
  let c := s.store.cell n
  s.put n (c.moved s.store.policy) (c.movedEntry s.store.policy (s.view c.name))

end Snapshot

namespace Session

variable {σ α : Type} [Durable σ] [LawfulDurable σ]

open LawfulDurable

/-- What can be told of a session. -/
def seen (s : Session σ) : Snapshot := ⟨s.store, value? s.durable⟩

/-- Work on one cell is all or nothing where it is so on the cell. -/
theorem allOrNothing_onCell {n : CellName} {f : Cell → Policy → Act σ (Cell × α)} {s : Session σ}
    {c : Cell} {a : α} {after : String → Option String}
    (h : AllOrNothing value? (f (s.store.cell n) s.store.policy) s.durable (c, a) after) :
    AllOrNothing seen (onCell n f) s a ⟨s.store.put n c, after⟩ := by
  cases hf : f (s.store.cell n) s.store.policy s.durable with
  | ok r d =>
    obtain ⟨rfl, rfl⟩ := h.of_ok hf
    simp only [AllOrNothing, onCell, hf]
    exact ⟨trivial, rfl⟩
  | error e d =>
    simp only [AllOrNothing, onCell, hf]
    exact congrArg (Snapshot.mk s.store) (h.of_error hf)

theorem allOrNothing_change {n : CellName} {f : Cell → Policy → Act σ Cell} {s : Session σ}
    {c : Cell} {after : String → Option String}
    (h : AllOrNothing value? (f (s.store.cell n) s.store.policy) s.durable c after) :
    AllOrNothing seen (change n f) s () ⟨s.store.put n c, after⟩ :=
  allOrNothing_onCell (h.map fun c => (c, ()))

theorem allOrNothing_clear (n : CellName) (s : Session σ) :
    AllOrNothing seen (clear n) s () (s.seen.emptied n) :=
  allOrNothing_change ((s.store.cell n).allOrNothing_clear s.durable)

theorem allOrNothing_migrate (n : CellName) (s : Session σ) :
    AllOrNothing seen (migrate n) s
      (decide (((s.store.cell n).moved s.store.policy).state ≠ (s.store.cell n).state))
      (s.seen.moved n) :=
  allOrNothing_onCell ((s.store.cell n).allOrNothing_migrate s.store.policy s.durable)

/-- Giving a cell a value empties it, fills it, or does not even begin. -/
theorem allOrNothing_set (n : CellName) (v : Value) (s : Session σ) :
    AllOrNothing seen (set n v) s () (s.seen.emptied n) ∨
      (∃ raw, v ≠ .null ∧ (s.store.cell n).encode v = .ok raw ∧
        AllOrNothing seen (set n v) s () (s.seen.filled n raw)) ∨
      ∃ e, set n v s = .error e s := by
  obtain h | ⟨raw, hv, hraw, h⟩ | ⟨e, he⟩ :=
    (s.store.cell n).allOrNothing_set s.store.policy v s.durable
  · exact .inl (allOrNothing_change h)
  · exact .inr (.inl ⟨raw, hv, hraw, allOrNothing_change h⟩)
  · refine .inr (.inr ⟨e, ?_⟩)
    simp only [set, change, onCell, Act.bind_apply, he]

/-- A text in a cell that is not for identities is its own encoding. -/
theorem allOrNothing_set_text {n : CellName} {s : Session σ}
    (hkind : (s.store.cell n).kind = .plain) (text : String) :
    AllOrNothing seen (set n (.text text)) s () (s.seen.filled n text) := by
  refine allOrNothing_change (f := fun c p => c.set p (.text text)) ?_
  have hencode : (s.store.cell n).encode (.text text) = .ok text := by
    simp only [Cell.encode, hkind, Value.display_text]
  simp only [Cell.set, hencode]
  exact (s.store.cell n).allOrNothing_write s.store.policy text s.durable

/-- A property of sessions that a computation keeps, whatever is refused and wherever it stops. -/
abbrev Keeps (J : Snapshot → Prop) (f : Act (Session σ) α) : Prop :=
  Anyhow (fun s => J s.seen) f (fun _ s => J s.seen) fun s => J s.seen

theorem Keeps.of_allOrNothing {J : Snapshot → Prop} {f : Act (Session σ) α}
    (h : ∀ s, J s.seen → ∃ a after, AllOrNothing seen f s a after ∧ J after) : Keeps J f := by
  refine anyhow_iff.mpr fun s hs => ?_
  obtain ⟨a, after, hf, hafter⟩ := h s hs
  cases hr : f s with
  | ok b t =>
    obtain ⟨-, rfl⟩ := hf.of_ok hr
    exact hafter
  | error e t =>
    change J t.seen
    rwa [hf.of_error hr]

theorem Keeps.pure {J : Snapshot → Prop} (a : α) : Keeps (σ := σ) J (Pure.pure a) :=
  Undisturbed.pure (Q := fun _ (s : Session σ) => J s.seen) a

theorem Keeps.state {J : Snapshot → Prop} :
    Keeps J (MonadState.get : Act (Session σ) (Session σ)) :=
  Undisturbed.get (Q := fun _ (s : Session σ) => J s.seen)

theorem Keeps.after {J : Snapshot → Prop} {f : Act (Session σ) α} (h : Keeps J f) {s : Session σ}
    (hs : J s.seen) : J (f.after s).seen :=
  Anyhow.after h hs

theorem Keeps.of_ok {J : Snapshot → Prop} {f : Act (Session σ) α} (h : Keeps J f)
    {s t : Session σ} {a : α} (hs : J s.seen) (hf : f s = .ok a t) : J t.seen := by
  have hafter := h.after hs
  rwa [Act.after, hf] at hafter

end Session

/-- A value that leaves only what is allowed in a cell. -/
def AllowedValue (allowed : CellName → String → Prop) (n : CellName) (v : Value) : Prop :=
  ∀ (c : Cell) (raw : String), c.IsAt n → v ≠ .null → c.encode v = .ok raw → allowed n raw

/-- What is said of a session stays true in every single step on the cells that may be touched, as
long as these are given allowed values only. -/
structure StepLaw (J : Snapshot → Prop) (touched : CellName → Prop)
    (allowed : CellName → String → Prop) : Prop where
  /-- Each cell is the one of its name. -/
  isAt : ∀ {s}, J s → ∀ n, (s.store.cell n).IsAt n
  /-- The values of cells are allowed. -/
  get : ∀ {s n v}, J s → (s.store.cell n).get = .ok v → AllowedValue allowed n v
  /-- A cell may be emptied. -/
  emptied : ∀ {s n}, touched n → J s → J (s.emptied n)
  /-- It may be filled. -/
  filled : ∀ {s n raw}, touched n → allowed n raw → J s → J (s.filled n raw)

namespace StepLaw

variable {σ : Type} [Durable σ] [LawfulDurable σ] {J : Snapshot → Prop}
  {touched : CellName → Prop} {allowed : CellName → String → Prop}

open Session

theorem keeps_clear (law : StepLaw J touched allowed) {n : CellName} (hn : touched n) :
    Keeps (σ := σ) J (clear n) :=
  .of_allOrNothing fun s hs => ⟨_, _, allOrNothing_clear n s, law.emptied hn hs⟩

theorem keeps_set (law : StepLaw J touched allowed) {n : CellName} (hn : touched n) {v : Value}
    (hv : AllowedValue allowed n v) : Keeps (σ := σ) J (set n v) := by
  refine .of_allOrNothing fun s hs => ?_
  obtain h | ⟨raw, hnull, hraw, h⟩ | ⟨e, he⟩ := allOrNothing_set n v s
  · exact ⟨_, _, h, law.emptied hn hs⟩
  · exact ⟨_, _, h, law.filled hn (hv _ raw (law.isAt hs n) hnull hraw) hs⟩
  · refine ⟨(), s.seen, ?_, hs⟩
    simp only [AllOrNothing, he]

/-- Whether a list of cells with values touches only what it may and has allowed values. -/
def Admits (touched : CellName → Prop) (allowed : CellName → String → Prop)
    (values : List (CellName × Value)) : Prop :=
  ∀ e ∈ values, touched e.1 ∧ AllowedValue allowed e.1 e.2

theorem keeps_setAll (law : StepLaw J touched allowed) {values : List (CellName × Value)}
    (h : Admits touched allowed values) : Keeps (σ := σ) J (setAll values) := by
  induction values with
  | nil => exact Keeps.pure ()
  | cons e rest ih =>
    obtain ⟨⟨hn, hv⟩, hrest⟩ := List.forall_mem_cons.mp h
    exact .bind (law.keeps_set hn hv) fun _ => ih hrest

theorem keeps_putBack (law : StepLaw J touched allowed) {values : List (CellName × Value)}
    (h : Admits touched allowed values) : Keeps (σ := σ) J (putBack values) := by
  induction values with
  | nil => exact Keeps.pure ()
  | cons e rest ih =>
    obtain ⟨⟨hn, hv⟩, hrest⟩ := List.forall_mem_cons.mp h
    refine .bind (.tryCatch (law.keeps_set hn hv) fun _ => ?_) fun _ => ih hrest
    exact Keeps.pure ()

theorem anyhow_get (law : StepLaw J touched allowed) (n : CellName) :
    Anyhow (fun s : Session σ => J s.seen) (Session.get n)
      (fun v s => AllowedValue allowed n v ∧ J s.seen) fun s => J s.seen := by
  refine anyhow_iff.mpr fun s hs => ?_
  unfold Session.get
  cases hv : (s.store.cell n).get with
  | ok v => exact ⟨law.get (s := s.seen) hs hv, hs⟩
  | error e => exact hs

/-- The values that cells have are allowed ones. -/
theorem anyhow_valuesOf (law : StepLaw J touched allowed) {names : List CellName}
    (h : ∀ n ∈ names, touched n) :
    Anyhow (fun s : Session σ => J s.seen) (valuesOf names)
      (fun values s => Admits touched allowed values ∧ J s.seen) fun s => J s.seen := by
  induction names with
  | nil => exact .given (.pure []) fun s hs => ⟨fun _ h => absurd h List.not_mem_nil, hs⟩
  | cons n rest ih =>
    obtain ⟨hn, hrest⟩ := List.forall_mem_cons.mp h
    refine .bind (law.anyhow_get n) fun v => Anyhow.assuming fun hv => ?_
    refine .bind (ih hrest) fun values => ?_
    refine .given (.pure ((n, v) :: values)) fun s hs => ⟨?_, hs.2⟩
    exact List.forall_mem_cons.mpr ⟨⟨hn, hv⟩, hs.1⟩

/-- Writing a grant keeps what is said of a session, also when some of the cells cannot be given
back what they had. -/
theorem keeps_writeAuthorization (law : StepLaw J (· ≠ .policy) allowed) {g : Grant}
    (hg : ∀ e ∈ grantValues g, AllowedValue allowed e.1 e.2) :
    Keeps (σ := σ) J (writeAuthorization g) := by
  have hspares := sparesPolicy_grantValues g
  have hnames : ∀ n ∈ (grantValues g).map Prod.fst, n ≠ .policy := by
    intro n hn
    obtain ⟨e, he, rfl⟩ := List.mem_map.mp hn
    exact hspares e he
  unfold writeAuthorization
  refine .bind (law.anyhow_valuesOf hnames) fun previous => Anyhow.assuming fun hprevious => ?_
  refine .tryCatch (law.keeps_setAll fun e he => ⟨hspares e he, hg e he⟩) fun e => ?_
  exact .bind (law.keeps_putBack hprevious) fun _ => .throw e

/-- Forgetting the tokens and the user keeps it too. -/
theorem keeps_clearAuthorization (law : StepLaw J (· ≠ .policy) allowed) :
    Keeps (σ := σ) J clearAuthorization :=
  .bind (law.keeps_clear (by decide)) fun _ =>
    .bind (law.keeps_clear (by decide)) fun _ => law.keeps_clear (by decide)

end StepLaw

/-- What is said of a cell and its entry under a policy. -/
abbrev CellRelation : Type := Policy → CellName → Cell → Option String → Prop

/-- It is said of every cell of a snapshot. -/
def Snapshot.Each (R : CellRelation) (s : Snapshot) : Prop :=
  ∀ n, R s.store.policy n (s.store.cell n) (s.view n.key)

/-- What is said of a cell and its entry stays true in every single step that leaves the policy
alone, as long as the cell is given allowed values only. -/
structure CellLaw (R : CellRelation) (allowed : CellName → String → Prop) : Prop where
  /-- It is said of the cell of the name. -/
  isAt : ∀ {p n c entry}, R p n c entry → c.IsAt n
  /-- The values of cells are allowed. -/
  get : ∀ {p n c entry v}, R p n c entry → c.get = .ok v → AllowedValue allowed n v
  /-- The cell may be emptied. -/
  emptied : ∀ {p n c entry}, n ≠ .policy → R p n c entry → R p n c.emptied none
  /-- It may be filled. -/
  filled : ∀ {p n c entry raw}, n ≠ .policy → allowed n raw → R p n c entry →
    R p n (c.filled p raw) (c.filledEntry p raw entry)
  /-- It may be moved. -/
  moved : ∀ {p n c entry}, n ≠ .policy → R p n c entry → R p n (c.moved p) (c.movedEntry p entry)

/-- A change of this cell does not change what is said of the others: it is not the policy, or the
policy does not matter. -/
def CellRelation.Spares (R : CellRelation) (n : CellName) : Prop :=
  n = .policy → ∀ p q, R p = R q

namespace Snapshot.Each

variable {R : CellRelation} {allowed : CellName → String → Prop} {s : Snapshot} {n : CellName}

/-- A cell may be replaced together with its entry. -/
theorem put (h : s.Each R) (hn : R.Spares n) {c : Cell} {entry : Option String}
    (hname : (s.store.cell n).name = n.key) (hc : R s.store.policy n c entry) :
    (s.put n c entry).Each R := by
  have hpolicy : R (s.store.put n c).policy = R s.store.policy := by
    by_cases hp : n = .policy
    · exact hn hp _ _
    · rw [Session.policy_put_of_ne s.store hp]
  intro m
  change R (s.store.put n c).policy m ((s.store.put n c).cell m)
    (Function.update s.view (s.store.cell n).name entry m.key)
  rw [hpolicy, hname]
  by_cases hm : m = n
  · subst hm
    rw [Store.cell_put_self, Function.update_self]
    exact hc
  · have hkey : m.key ≠ n.key := fun he => hm (CellName.key_injective he)
    rw [Store.cell_put_of_ne _ _ hm, Function.update_of_ne hkey]
    exact h m

theorem moved (h : s.Each R) (law : CellLaw R allowed) (hn : n ≠ .policy) :
    (s.moved n).Each R := by
  have hname := (law.isAt (h n)).1
  refine h.put (absurd · hn) hname ?_
  rw [hname]
  exact law.moved hn (h n)

end Snapshot.Each

namespace CellLaw

variable {σ : Type} [Durable σ] [LawfulDurable σ] {R : CellRelation}
  {allowed : CellName → String → Prop}

open Session

/-- What stays true of every cell stays true of a session. -/
theorem stepLaw (law : CellLaw R allowed) : StepLaw (Snapshot.Each R) (· ≠ .policy) allowed where
  isAt h n := law.isAt (h n)
  get {_ n _} h hv := law.get (h n) hv
  emptied {_ n} hn h := h.put (absurd · hn) (law.isAt (h n)).1 (law.emptied hn (h n))
  filled {s n raw} hn hraw h := by
    have hname := (law.isAt (h n)).1
    refine h.put (absurd · hn) hname ?_
    rw [hname]
    exact law.filled hn hraw (h n)

theorem keeps_migrate (law : CellLaw R allowed) {n : CellName} (hn : n ≠ .policy) :
    Keeps (σ := σ) (Snapshot.Each R) (migrate n) :=
  .of_allOrNothing fun s hs => ⟨_, _, allOrNothing_migrate n s, hs.moved law hn⟩

/-- What is said does not depend on the policy, and any policy may be announced. -/
structure Steady (R : CellRelation) : Prop where
  /-- It is the same under every policy. -/
  under : ∀ p q, R p = R q
  /-- The cell of the policy may be filled with the name of one. -/
  announced : ∀ {p c entry} (q : Policy), R p .policy c entry →
    R p .policy (c.filled p q.name) (c.filledEntry p q.name entry)

/-- Setting the policy keeps what is said of every cell, where the policy does not matter. -/
theorem keeps_setPolicy (law : CellLaw R allowed) (hsteady : Steady R) (p : Policy) :
    Keeps (σ := σ) (Snapshot.Each R) (setPolicy p) := by
  have hannounce : Keeps (σ := σ) (Snapshot.Each R) (set .policy (.text p.name)) := by
    refine .of_allOrNothing fun s hs => ?_
    obtain ⟨hname, hkind, -⟩ := law.isAt (hs .policy)
    refine ⟨_, _, allOrNothing_set_text hkind p.name, hs.put (fun _ => hsteady.under) hname ?_⟩
    rw [hname]
    exact hsteady.announced p (hs .policy)
  unfold setPolicy
  refine .bind Keeps.state fun s₀ => ?_
  by_cases hp : s₀.store.policy = p
  · simp only [hp, if_true]
    exact Keeps.pure false
  · simp only [hp, if_false]
    refine .bind hannounce fun _ => ?_
    have htokens : Keeps (σ := σ) (Snapshot.Each R)
        (CellName.tokens.forM fun n => discard (migrate n)) :=
      .bind (.discard (law.keeps_migrate (by decide))) fun _ =>
        .bind (.discard (law.keeps_migrate (by decide))) fun _ => Keeps.pure ()
    exact .bind htokens fun _ => Keeps.pure true

/-- Altogether, what is said of every cell is kept by every change that is asked of a session. -/
theorem apply (law : CellLaw R allowed) (hsteady : Steady R) {s : Session σ} (hs : s.seen.Each R)
    {e : Effect} (he : ∀ g ∈ e.grant?, ∀ v ∈ grantValues g, AllowedValue allowed v.1 v.2) :
    (e.apply s).seen.Each R := by
  cases e with
  | write g => exact (law.stepLaw.keeps_writeAuthorization (he g rfl)).after hs
  | clear => exact law.stepLaw.keeps_clearAuthorization.after hs
  | setPolicy p => exact (law.keeps_setPolicy hsteady p).after hs

end CellLaw

end BearerSession
