import Mathlib
import BearerSession.Proofs.Credential.Identities
import BearerSession.Proofs.Managed.Serial

/-!
# One storage under several managers

Managers come and go over one durable storage, each with cells of its own. The first one that is
constructed settles the identities of device and application. From then on all managers have these,
and so does the storage, whatever the managers do and whatever fails.
-/

namespace BearerSession

/-- A manager over a storage that it does not own: its attempts, its cells, how many calls it has
accepted, and what has happened to it. -/
structure Tenant (L : Type) where
  /-- The attempts. -/
  manager : Manager (Call L)
  /-- The cells. -/
  store : Store
  /-- How many calls have been accepted. -/
  calls : Nat
  /-- What has happened, the earliest first. -/
  log : List Managed.Event

namespace Tenant

variable {σ L : Type}

/-- A manager that has just been constructed. -/
def new (c : Config) (hasProcess : Bool) (store : Store) : Tenant L :=
  ⟨.new c.share c.timeout hasProcess, store, 0, []⟩

/-- A manager together with the storage. -/
def withStorage (t : Tenant L) (d : σ) : Managed σ L := ⟨t.manager, ⟨t.store, d⟩, t.calls, t.log⟩

/-- A manager without the storage. -/
def of (s : Managed σ L) : Tenant L := ⟨s.manager, s.session.store, s.calls, s.log⟩

end Tenant

/-- A durable storage and the managers that have been constructed over it, the earliest first. -/
structure Site (σ L : Type) where
  /-- The durable storage. -/
  durable : σ
  /-- The managers. -/
  tenants : List (Tenant L)

namespace Site

variable {σ L : Type} [Durable σ] [FallibleDurable σ]

open FallibleDurable

/-- What can happen at a site. -/
inductive Happening (σ L : Type) [Durable σ] [FallibleDurable σ] where
  /-- A manager is constructed. -/
  | construct (c : Config) (hasProcess : Bool) (describer : Describer σ)
  /-- One of the managers makes a move. -/
  | move (tenant : Nat) (move : Managed.Move L)
  /-- Something happens to the storage that does not change what it holds: a failure that is to
  come, or the release of what the backend holds open. -/
  | unseen (change : σ → σ) (same : ∀ d key, value? (change d) key = value? d key)

/-- A storage without managers. -/
def vacant (d : σ) : Site σ L := ⟨d, []⟩

/-- The site after a happening. A construction that fails leaves no manager. -/
def after (s : Site σ L) : Happening σ L → Site σ L
  | .construct c hasProcess describer =>
    match Session.openFor describer.describe c s.durable with
    | .ok store d => ⟨d, s.tenants ++ [.new c hasProcess store]⟩
    | .error _ d => ⟨d, s.tenants⟩
  | .move i move =>
    match s.tenants[i]? with
    | some t =>
      let u := (t.withStorage s.durable).step move
      ⟨u.session.durable, s.tenants.set i (.of u)⟩
    | none => s
  | .unseen change _ => { s with durable := change s.durable }

section Equations

variable {s : Site σ L} {c : Config} {hasProcess : Bool} {describer : Describer σ} {d : σ}

theorem after_construct_ok {store : Store}
    (h : Session.openFor describer.describe c s.durable = .ok store d) :
    s.after (.construct c hasProcess describer) =
      ⟨d, s.tenants ++ [.new c hasProcess store]⟩ := by
  simp only [after, h]

theorem after_construct_error {e : Raised}
    (h : Session.openFor describer.describe c s.durable = .error e d) :
    s.after (.construct c hasProcess describer) = ⟨d, s.tenants⟩ := by
  simp only [after, h]

theorem after_move {i : Nat} {t : Tenant L} (h : s.tenants[i]? = some t) (move : Managed.Move L) :
    s.after (.move i move) = ⟨((t.withStorage s.durable).step move).session.durable,
      s.tenants.set i (.of ((t.withStorage s.durable).step move))⟩ := by
  simp only [after, h]

end Equations

/-- The site after several happenings. -/
def run (s : Site σ L) (happenings : List (Happening σ L)) : Site σ L := happenings.foldl after s

/-- The storage holds certain identities, and all managers have them. -/
structure Settled (ids : Identities) (s : Site σ L) : Prop where
  /-- The storage holds them. -/
  stored : ids.Stored s.durable
  /-- The managers have them. -/
  inUse : ∀ t ∈ s.tenants, ids.InUse t.store

/-- A move of a manager leaves its identities in use and stored. -/
theorem inUse_step {ids : Identities} {s : Managed σ L} (huse : ids.InUse s.session.store)
    (hstored : ids.Stored s.session.durable) (move : Managed.Move L) :
    ids.InUse (s.step move).session.store ∧ ids.Stored (s.step move).session.durable := by
  obtain hs | ⟨e, t, hstep, hs⟩ := s.step_cases move
  · rw [hs]
    exact ⟨huse, hstored⟩
  · have hsession : (s.step move).session = (Managed.effects [e]).foldl Effect.apply s.session := by
      rw [hs]
      exact hstep.session_eq
    rw [hsession]
    generalize Managed.effects [e] = changes
    generalize s.session = session at huse hstored
    induction changes generalizing session with
    | nil => exact ⟨huse, hstored⟩
    | cons change rest ih =>
      obtain ⟨huse', hstored'⟩ := ids.apply huse hstored change
      exact ih _ huse' hstored'

/-- What has been settled stays so, whatever happens. -/
theorem Settled.after {ids : Identities} {s : Site σ L} (h : s.Settled ids)
    (happening : Happening σ L) : (s.after happening).Settled ids := by
  cases happening with
  | construct c hasProcess describer =>
    have hopen := h.stored.openFor describer c
    cases hr : Session.openFor describer.describe c s.durable with
    | ok store d =>
      rw [hr] at hopen
      rw [after_construct_ok hr]
      refine ⟨hopen.2, fun t ht => ?_⟩
      rcases List.mem_append.mp ht with ht | ht
      · exact h.inUse t ht
      · rw [List.mem_singleton.mp ht]
        exact hopen.1
    | error e d =>
      rw [hr] at hopen
      rw [after_construct_error hr]
      exact ⟨hopen, h.inUse⟩
  | move i move =>
    cases hi : s.tenants[i]? with
    | none => simpa only [Site.after, hi] using h
    | some t =>
      rw [after_move hi]
      have huse : ids.InUse t.store := h.inUse t (List.mem_of_getElem? hi)
      obtain ⟨huse', hstored'⟩ := inUse_step (s := t.withStorage s.durable) huse h.stored move
      refine ⟨hstored', fun u hu => ?_⟩
      rcases List.mem_or_eq_of_mem_set hu with hu | rfl
      · exact h.inUse u hu
      · exact huse'
  | unseen change same =>
    exact ⟨fun n hn => (same s.durable n.key).trans (h.stored n hn), h.inUse⟩

theorem Settled.run {ids : Identities} {s : Site σ L} (h : s.Settled ids)
    (happenings : List (Happening σ L)) : (s.run happenings).Settled ids := by
  induction happenings generalizing s with
  | nil => exact h
  | cons happening rest ih => exact ih (h.after happening)

/-- There are no managers yet, or the identities have been settled. -/
def Sound (s : Site σ L) : Prop := s.tenants = [] ∨ ∃ ids, s.Settled ids

/-- A construction that succeeds settles the identities. -/
theorem Sound.settled_construct {s : Site σ L} (h : s.Sound) {c : Config} (hasProcess : Bool)
    {describer : Describer σ} {store : Store} {d : σ}
    (hopen : Session.openFor describer.describe c s.durable = .ok store d) :
    ∃ ids, (s.after (.construct c hasProcess describer)).Settled ids := by
  rcases h with hnone | ⟨ids, h⟩
  · obtain ⟨ids, huse, hstored⟩ := Identities.of_openFor describer hopen
    refine ⟨ids, ?_⟩
    rw [after_construct_ok hopen, hnone]
    refine ⟨hstored, fun t ht => ?_⟩
    rw [List.mem_singleton.mp ht]
    exact huse
  · exact ⟨ids, h.after _⟩

theorem Sound.after {s : Site σ L} (h : s.Sound) (happening : Happening σ L) :
    (s.after happening).Sound := by
  rcases h with hnone | ⟨ids, h⟩
  · cases happening with
    | construct c hasProcess describer =>
      cases hopen : Session.openFor describer.describe c s.durable with
      | ok store d => exact .inr (Sound.settled_construct (.inl hnone) hasProcess hopen)
      | error e d =>
        rw [after_construct_error hopen]
        exact .inl hnone
    | move i move => exact .inl (by simp [Site.after, hnone])
    | unseen change same => exact .inl hnone
  · exact .inr ⟨ids, h.after happening⟩

/-- So it is at all times. -/
theorem sound_run (d : σ) (happenings : List (Happening σ L)) :
    ((vacant d).run happenings).Sound := by
  suffices h : ∀ s : Site σ L, s.Sound → (s.run happenings).Sound from h _ (.inl rfl)
  induction happenings with
  | nil => exact fun _ hs => hs
  | cons happening rest ih => exact fun s hs => ih _ (hs.after happening)

/-- From a construction that succeeds on, the entries of the identities of device and application
stay what they are, and all managers report the same maps for them. -/
theorem identities_settled (d : σ) (before : List (Happening σ L)) (c : Config) (hasProcess : Bool)
    (describer : Describer σ)
    (h : Act.raises (Session.openFor describer.describe c)
      ((vacant d : Site σ L).run before).durable = false) :
    ∃ (entry : CellName → String) (map : CellName → List (String × Value)), ∀ later,
      let s : Site σ L := (vacant d).run (before ++ .construct c hasProcess describer :: later)
      ∀ n ∈ [CellName.device, CellName.app], value? s.durable n.key = some (entry n) ∧
        ∀ t ∈ s.tenants, (t.store.cell n).getAsMap = .ok (map n) := by
  obtain ⟨store, hopen⟩ := Act.exists_eq_ok h
  obtain ⟨ids, hsettled⟩ := (sound_run d before).settled_construct hasProcess hopen
  refine ⟨ids.raw, ids.entries, fun later => ?_⟩
  have hlater : ((vacant d : Site σ L).run
      (before ++ .construct c hasProcess describer :: later)).Settled ids := by
    rw [run, List.foldl_append]
    exact hsettled.run later
  exact fun n hn => ⟨hlater.stored n hn, fun t ht => (hlater.inUse t ht).getAsMap hn⟩

section Mishaps

/-- A machine that knows nothing of itself. -/
def mute : Describer (Unreadable Memory) where
  describe _ d := (.device "d" "" "" "", d)
  describes _ _ := ⟨_, _, _, _, rfl⟩
  unseen _ _ _ := rfl

/-- A storage with a device identity that is no map. It refuses to write an application identity
once, and one of its keys cannot be read. -/
def battered : Unreadable Memory :=
  ⟨⟨[("device_identity", "[]")], [⟨.set, "app_identity", 1⟩]⟩, ["client_id"]⟩

/-- The configuration of an application. -/
def notes : Config := ⟨"n", "1", .never, .default, none, true⟩

/-- One construction fails at a key that cannot be read, and another one between the identities. -/
def mishaps : List (Happening (Unreadable Memory) String) :=
  [.construct .default true mute, .unseen (fun d => { d with keys := [] }) fun _ _ => rfl,
    .construct notes true mute]

/-- The next construction succeeds, which settles both identities. -/
theorem mishaps_identities_settled :
    Act.raises (Session.openFor mute.describe notes)
        ((vacant battered : Site (Unreadable Memory) String).run mishaps).durable = false ∧
      ∃ (entry : CellName → String) (map : CellName → List (String × Value)), ∀ later,
        let s : Site (Unreadable Memory) String :=
          (vacant battered).run (mishaps ++ .construct notes true mute :: later)
        ∀ n ∈ [CellName.device, CellName.app], value? s.durable n.key = some (entry n) ∧
          ∀ t ∈ s.tenants, (t.store.cell n).getAsMap = .ok (map n) := by
  have hsucceeds : Act.raises (Session.openFor mute.describe notes)
      ((vacant battered : Site (Unreadable Memory) String).run mishaps).durable = false := by
    cbv
  exact ⟨hsucceeds, identities_settled battered mishaps notes true mute hsucceeds⟩

end Mishaps

end Site

end BearerSession
