import BearerSession.Proofs.Credential.Snapshot

/-!
# Installations

An installation is a durable storage and, while a program runs, the store that is open on it. A
change works on the open store; opening the storage anew replaces it, and where opening raises no
store is open. Nothing is assumed here about what the storage refuses.
-/

namespace BearerSession

/-- Whether a computation raises. -/
def Act.raises {τ α : Type} (f : Act τ α) (s : τ) : Bool :=
  match f s with
  | .ok _ _ => false
  | .error _ _ => true

theorem Act.exists_eq_ok {τ α : Type} {f : Act τ α} {s : τ} (h : f.raises s = false) :
    ∃ a, f s = .ok a (f.after s) := by
  unfold raises at h
  unfold after
  cases hf : f s with
  | ok a t => exact ⟨a, rfl⟩
  | error e t => simp [hf] at h

theorem Act.exists_eq_error {τ α : Type} {f : Act τ α} {s : τ} (h : f.raises s = true) :
    ∃ e, f s = .error e (f.after s) := by
  unfold raises at h
  unfold after
  cases hf : f s with
  | ok a t => simp [hf] at h
  | error e t => exact ⟨e, rfl⟩

/-- A durable storage and the store that is open on it, if any. -/
structure Installation (σ : Type) where
  /-- The open store. -/
  store? : Option Store
  /-- The durable storage. -/
  durable : σ

namespace Installation

variable {σ : Type} [Durable σ]

/-- A storage on which no store is open. -/
def closed (d : σ) : Installation σ := ⟨none, d⟩

/-- Change the open store, or open the storage anew. -/
def use (i : Installation σ) : Use → Installation σ
  | .change e =>
    match i.store? with
    | some store =>
      let s := e.apply ⟨store, i.durable⟩
      ⟨some s.store, s.durable⟩
    | none => i
  | .reopen defaultPolicy =>
    match Session.openStore defaultPolicy i.durable with
    | .ok store d => ⟨some store, d⟩
    | .error _ d => ⟨none, d⟩

/-- The installation after some uses. -/
def run (i : Installation σ) (uses : List Use) : Installation σ := uses.foldl use i

/-- What is asked of each use, in the installation in which it happens. -/
def Throughout (asked : Installation σ → Use → Prop) : Installation σ → List Use → Prop
  | _, [] => True
  | i, u :: rest => asked i u ∧ Throughout asked (i.use u) rest

/-- Whether everything is as asked can be decided where it can be decided of each use. -/
def decideThroughout (asked : Installation σ → Use → Prop) [∀ i u, Decidable (asked i u)] :
    ∀ (i : Installation σ) (uses : List Use), Decidable (Throughout asked i uses)
  | _, [] => inferInstanceAs (Decidable True)
  | i, u :: rest =>
    have := decideThroughout asked (i.use u) rest
    inferInstanceAs (Decidable (asked i u ∧ Throughout asked (i.use u) rest))

instance {asked : Installation σ → Use → Prop} [∀ i u, Decidable (asked i u)]
    {i : Installation σ} {uses : List Use} : Decidable (Throughout asked i uses) :=
  decideThroughout asked i uses

/-- What every use keeps holds in the end. -/
theorem run_keeps {I : Installation σ → Prop} {i : Installation σ} {uses : List Use}
    (step : ∀ j, ∀ u ∈ uses, I j → I (j.use u)) (hi : I i) : I (i.run uses) := by
  induction uses generalizing i with
  | nil => exact hi
  | cons u rest ih =>
    obtain ⟨hu, hrest⟩ := List.forall_mem_cons.mp fun v hv j => step j v hv
    exact ih (fun j v hv => hrest v hv j) (hu i hi)

/-- What every use keeps, if it is as asked, holds in the end where all of them are. -/
theorem run_induction {asked : Installation σ → Use → Prop} {I : Installation σ → Prop}
    {i : Installation σ} {uses : List Use}
    (step : ∀ j, ∀ u ∈ uses, asked j u → I j → I (j.use u))
    (hasked : Throughout asked i uses) (hi : I i) : I (i.run uses) := by
  induction uses generalizing i with
  | nil => exact hi
  | cons u rest ih =>
    obtain ⟨hu, hrest⟩ := List.forall_mem_cons.mp fun v hv j => step j v hv
    exact ih (fun j v hv => hrest v hv j) hasked.2 (hu i hasked.1 hi)

end Installation

namespace Opening

variable {defaultPolicy : Policy} {view now : String → Option String} {done : List CellName}
  {store : Store}

/-- Opening leaves an entry or removes it. -/
theorem entry_or_none (h : Opening defaultPolicy view done store now) (n : CellName) :
    now n.key = view n.key ∨ now n.key = none := by
  by_cases hn : n ∈ done
  · rw [(h.opened n hn).2, Cell.kept]
    split
    · exact .inl rfl
    · exact .inr rfl
  · exact .inl (h.unopened n hn).2

/-- It leaves the entry of the policy in any case. -/
theorem policy_entry_eq (h : Opening defaultPolicy view done store now) :
    now CellName.policy.key = view CellName.policy.key := by
  by_cases hn : .policy ∈ done
  · rw [(h.opened .policy hn).2, Cell.kept, if_pos (Cell.persists_eq_of_not_governed rfl _)]
  · exact (h.unopened .policy hn).2

/-- A cell that has been opened has the value of its entry or none. -/
theorem raw_or_none (h : Opening defaultPolicy view done store now) {n : CellName} (hn : n ∈ done) :
    (store.cell n).raw = view n.key ∨ (store.cell n).raw = none := by
  rw [(h.opened n hn).1]
  cases view n.key with
  | none => exact .inr rfl
  | some raw =>
    unfold Cell.opened
    split
    · split
      · next heq _ => exact .inl heq.symm
      · exact .inr rfl
    · exact .inr rfl

end Opening

namespace Session

variable {σ : Type} [Durable σ] [LawfulDurable σ]

open LawfulDurable

variable {defaultPolicy : Policy} {view : String → Option String}

theorem anyhow_open_cell {done : List CellName} {n : CellName} (hn : n ∉ done)
    (hg : n.governed = true → .policy ∈ done) :
    Anyhow (fun s : Session σ => Opening defaultPolicy view done s.store (value? s.durable))
      (change n Cell.restore)
      (fun _ s => Opening defaultPolicy view (n :: done) s.store (value? s.durable))
      fun s => Opening defaultPolicy view done s.store (value? s.durable) := by
  refine anyhow_iff.mpr fun s hs => ?_
  have hname : (s.store.cell n).name = n.key := by
    rw [(hs.unopened n hn).1]
    rfl
  have hrestore := allOrNothing_change (f := Cell.restore)
    ((s.store.cell n).allOrNothing_restore s.store.policy s.durable)
  cases hr : change n Cell.restore s with
  | ok u t =>
    obtain ⟨hstore, hview⟩ := Snapshot.mk.inj (hrestore.of_ok hr).2
    change Opening defaultPolicy view (n :: done) t.store (value? t.durable)
    rw [hstore, hview, hname]
    exact hs.next hn hg
  | error e t =>
    obtain ⟨hstore, hview⟩ := Snapshot.mk.inj (hrestore.of_error hr)
    change Opening defaultPolicy view done t.store (value? t.durable)
    rw [hstore, hview]
    exact hs

/-- Where something is refused, the cells opened so far have been opened. -/
theorem anyhow_open_cells (names done : List CellName) (hnodup : names.Nodup)
    (hfresh : ∀ n ∈ names, n ∉ done)
    (hg : ∀ n ∈ names, n.governed = true → .policy ∈ done) :
    Anyhow (fun s : Session σ => Opening defaultPolicy view done s.store (value? s.durable))
      (names.forM fun n => change n Cell.restore)
      (fun _ s => Opening defaultPolicy view (names.reverse ++ done) s.store (value? s.durable))
      fun s => ∃ done, Opening defaultPolicy view done s.store (value? s.durable) := by
  induction names generalizing done with
  | nil =>
    exact .pure (Q := fun _ (s : Session σ) =>
      Opening defaultPolicy view done s.store (value? s.durable)) ()
  | cons n rest ih =>
    obtain ⟨hnew, hrest⟩ := List.nodup_cons.mp hnodup
    refine .bind (.weaken (anyhow_open_cell (hfresh n List.mem_cons_self)
      (hg n List.mem_cons_self)) (fun _ hs => hs) (fun _ _ hs => hs)
      fun _ hs => ⟨done, hs⟩) fun _ => ?_
    have hnext := ih (n :: done) hrest (fun m hm => ?_) fun m hm hgov => ?_
    · simpa using hnext
    · have hne : m ≠ n := fun he => hnew (he ▸ hm)
      rw [List.mem_cons, not_or]
      exact ⟨hne, hfresh m (List.mem_cons_of_mem _ hm)⟩
    · exact List.mem_cons_of_mem _ (hg m (List.mem_cons_of_mem _ hm) hgov)

/-- A store that opens has all its cells opened; otherwise some of them have been. -/
theorem openStore_cases (defaultPolicy : Policy) (d : σ) :
    match openStore defaultPolicy d with
    | .ok store d' => Opening defaultPolicy (value? d) CellName.all.reverse store (value? d')
    | .error _ d' => ∃ done store, Opening defaultPolicy (value? d) done store (value? d') := by
  have hopened : Anyhow
      (fun s : Session σ => Opening defaultPolicy (value? d) [] s.store (value? s.durable))
      (CellName.all.forM fun n => change n Cell.restore)
      (fun _ s => Opening defaultPolicy (value? d) CellName.all.reverse s.store (value? s.durable))
      fun s => ∃ done, Opening defaultPolicy (value? d) done s.store (value? s.durable) :=
    .bind (.weaken (anyhow_open_cell List.not_mem_nil (by decide)) (fun _ hs => hs)
        (fun _ _ hs => hs) fun _ hs => ⟨_, hs⟩) fun _ =>
      anyhow_open_cells [.clientId, .device, .app, .user, .accessToken, .idToken] [.policy]
        (by decide) (by decide) (by decide)
  have hend := anyhow_iff.mp hopened ⟨.blank defaultPolicy, d⟩ (.new defaultPolicy (value? d))
  cases hr : (CellName.all.forM fun n => (change n Cell.restore : Act (Session σ) Unit))
      ⟨.blank defaultPolicy, d⟩ with
  | ok u s =>
    have hopen : openStore defaultPolicy d = .ok s.store s.durable := by simp only [openStore, hr]
    simp only [hr] at hend
    rwa [hopen]
  | error e s =>
    have hopen : openStore defaultPolicy d = .error e s.durable := by simp only [openStore, hr]
    simp only [hr] at hend
    obtain ⟨done, hdone⟩ := hend
    rw [hopen]
    exact ⟨done, s.store, hdone⟩

end Session

namespace Cell

/-- The cells of a session are sound, whatever has been refused. -/
theorem sound_law : CellLaw (fun _ n c entry => c.IsAt n ∧ c.Sound entry) fun _ _ => True where
  isAt h := h.1
  get _ _ _ _ _ _ _ := trivial
  emptied _ h := ⟨h.1, sound_emptied _⟩
  filled _ _ h := ⟨h.1, sound_filled _ _ _ _⟩
  moved {p _ _ _} _ h := ⟨h.1.moved p, h.2.moved p⟩

/-- They are so under every policy. -/
theorem sound_steady : CellLaw.Steady fun _ n c entry => c.IsAt n ∧ c.Sound entry where
  under _ _ := rfl
  announced _ h := ⟨h.1, sound_filled _ _ _ _⟩

end Cell

/-- A session that has been opened is sound. -/
theorem Session.sound_openStore {σ : Type} [Durable σ] [LawfulDurable σ] {defaultPolicy : Policy}
    {d d' : σ} {store : Store} (h : openStore defaultPolicy d = .ok store d') :
    (Session.mk store d').seen.Each fun _ n c entry => c.IsAt n ∧ c.Sound entry := by
  have hopening := openStore_cases defaultPolicy d
  rw [h] at hopening
  intro n
  obtain ⟨hcell, hentry⟩ := hopening.opened n n.mem_all_reverse
  change (store.cell n).IsAt n ∧ (store.cell n).Sound (LawfulDurable.value? d' n.key)
  refine ⟨hopening.settled.isAt n, ?_⟩
  rw [hcell, hentry]
  exact Cell.sound_opened rfl rfl _ _

namespace Installation

variable {σ : Type} [Durable σ] [LawfulDurable σ]

open LawfulDurable

/-- The cells of the open store stand for what the storage holds. -/
def Sound (i : Installation σ) : Prop :=
  ∀ store ∈ i.store?, Snapshot.Each (fun _ n c entry => c.IsAt n ∧ c.Sound entry)
    ⟨store, value? i.durable⟩

/-- A use keeps them so, whatever is refused. -/
theorem Sound.use {i : Installation σ} (h : i.Sound) (u : Use) : (i.use u).Sound := by
  obtain ⟨store?, d⟩ := i
  cases u with
  | change e =>
    cases store? with
    | none => exact fun _ h => absurd h (Option.not_mem_none _)
    | some store =>
      rintro _ ⟨⟩
      exact Cell.sound_law.apply Cell.sound_steady (s := ⟨store, d⟩) (h store rfl)
        fun _ _ _ _ _ _ _ _ _ => trivial
  | reopen defaultPolicy =>
    simp only [Installation.use]
    cases hopen : Session.openStore defaultPolicy d with
    | ok store d' =>
      rintro _ ⟨⟩
      exact Session.sound_openStore hopen
    | error e d' => exact fun _ h => absurd h (Option.not_mem_none _)

/-- So they are so at all times. -/
theorem sound_run (d : σ) (uses : List Use) : ((closed d).run uses).Sound :=
  run_keeps (fun _ u _ h => h.use u) fun _ h => absurd h (Option.not_mem_none _)

/-- A grant. -/
def firstGrant : Grant := ⟨"first", "first-id", .empty, none, by decide, by decide⟩

/-- Another grant. -/
def secondGrant : Grant := ⟨"second", "second-id", .empty, some "c", by decide, by decide⟩

end Installation

end BearerSession
