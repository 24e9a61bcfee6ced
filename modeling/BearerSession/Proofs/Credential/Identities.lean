import BearerSession.Proofs.Credential.Frame
import BearerSession.Proofs.Identity.Stored
import BearerSession.Proofs.Json.Reread
import BearerSession.Workplace

/-!
# The identities of an installation

An identity that has been made is stored as a JSON object that reads as what it says. So opening a
session gives the installation an identity where the storage has none that can be read, and leaves
alone the ones that can.
-/

namespace BearerSession

open Value (Keyed)

namespace Value

variable {entries : List (String × String)}

/-- Texts by key have a JSON text on one line that reads as them. -/
theorem exists_encode_line (h : Keyed entries) :
    ∃ raw, Json.encode .line (Value.map (ofTexts entries)).sorted = .ok raw ∧
      Json.read raw = .ok (.map (inOrder entries)) := by
  have hsorted : (Value.map (ofTexts entries)).sorted = .map (inOrder entries) := by
    rw [Value.sorted, sortedEntries_ofTexts]
    rfl
  rw [hsorted]
  exact Json.exists_encode .line h.readsBack_inOrder

end Value

namespace Cell

/-- An identity goes into a cell as the map that it is stored as. -/
theorem entriesOf_toValue {kind : IdentityKind} (name : String) (i : Identity kind) :
    entriesOf name i.toValue = i.toMap := by
  have hkind : (IdentityKind.all.find? fun other => other.title = kind.title) = some kind := by
    cases kind <;> decide
  simp only [Identity.toValue, entriesOf, hkind]
  exact i.toMap_ofFields

/-- Whether the text of a cell reads as a map. -/
def Reads (raw : String) (entries : List (String × Value)) : Prop :=
  decodeIdentity raw = .ok (some entries)

/-- An identity that says nothing besides its fields has an encoding, which reads as a map. -/
theorem exists_encode_eq {kind : IdentityKind} {i : Identity kind} (h : i.extras = []) {c : Cell}
    (hc : c.kind = .identity) :
    ∃ raw, c.encode i.toValue = .ok raw ∧ Reads raw (Value.inOrder i.texts) := by
  obtain ⟨raw, hraw, hread⟩ := Value.exists_encode_line i.keyed_texts
  refine ⟨raw, ?_, by simp only [Reads, decodeIdentity, hread]⟩
  simp only [encode, hc, entriesOf_toValue, Identity.toMap_eq h, hraw]

section Opening

variable {σ : Type} [Durable σ] [FallibleDurable σ] {n : CellName} {c : Cell}

open FallibleDurable

/-- A cell that is always durable takes over its entry when it is opened, unless that one cannot be
read. -/
theorem restore_cases (hc : c.IsAt n) (hg : n.governed = false) (hraw : c.raw = none) (p : Policy)
    (d : σ) :
    (∃ c', c.restore p d = .ok c' d ∧ c'.IsAt n ∧ c'.raw = value? d n.key) ∨
      ∃ e, c.restore p d = .error e d := by
  have hp : c.persists p = true := persists_eq_of_not_governed (hc.2.2.trans hg) p
  simp only [restore, hp, if_true, Act.bind_apply, Durable.read]
  rw [← hc.1]
  cases hget : Durable.get c.name d with
  | error e => exact .inr ⟨e, rfl⟩
  | ok entry =>
    have hentry := get_ok d c.name entry hget
    cases entry with
    | none => exact .inl ⟨c, rfl, hc, hraw.trans hentry⟩
    | some raw => exact .inl ⟨{ c with raw := some raw, state := .durable }, rfl, hc, hentry⟩

/-- A cell that is always durable has the value that was written, and so has its entry. -/
theorem write_ok (hc : c.IsAt n) (hg : n.governed = false) {p : Policy} {raw : String} {d d' : σ}
    {c' : Cell} (h : c.write p raw d = .ok c' d') :
    c'.raw = some raw ∧ value? d' n.key = some raw := by
  have hp : c.persists p = true := persists_eq_of_not_governed (hc.2.2.trans hg) p
  simp only [write, hp, if_true] at h
  obtain ⟨_, e, hset, hpure⟩ := Act.bind_eq_ok.mp h
  cases hpure
  exact ⟨rfl, by rw [set_ok d d' c.name raw hset, if_pos hc.1]⟩

end Opening

end Cell

/-- The cells of the identities of an installation hold JSON and are always durable. -/
theorem CellName.of_mem_installation {n : CellName} (h : n ∈ CellName.installation) :
    n.kind = .identity ∧ n.governed = false := by
  simp only [CellName.installation, List.mem_cons, List.not_mem_nil, or_false] at h
  rcases h with rfl | rfl <;> exact ⟨rfl, rfl⟩

namespace Session

variable {σ : Type} [Durable σ] [FallibleDurable σ]

open FallibleDurable Cell Snapshot

/-- A session of which a cell has a value, and the storage the same. -/
def Carries (s : Session σ) (n : CellName) (raw : String) : Prop :=
  (s.store.cell n).raw = some raw ∧ value? s.durable n.key = some raw

/-- What stays the same goes on being carried. -/
theorem Carries.sameOutside {s t : Session σ} {n : CellName} {raw : String} (h : s.Carries n raw)
    {touched : CellName → Prop} (hsame : s.shown.SameOutside touched t.shown) (hn : ¬ touched n) :
    t.Carries n raw := by
  obtain ⟨hcell, hentry⟩ := hsame.same n hn
  exact ⟨(congrArg Cell.raw hcell).trans h.1, hentry.trans h.2⟩

/-- A session that is being opened: the cells of the installation that have been opened have the
values of their entries, which are what they were. -/
structure Opens (view : String → Option String) (done : List CellName) (s : Session σ) : Prop where
  /-- Each cell is the one of its name. -/
  isAt : ∀ n, (s.store.cell n).IsAt n
  /-- The entries of the installation are what they were. -/
  entries : ∀ n ∈ CellName.installation, value? s.durable n.key = view n.key
  /-- The cells of the installation that have been opened have their values, the others none. -/
  values : ∀ n ∈ CellName.installation,
    (s.store.cell n).raw = if n ∈ done then view n.key else none

variable {view : String → Option String}

theorem anyhow_opens_cell {done : List CellName} {n : CellName} (hn : n ∉ done) :
    Anyhow (Opens view done) (change n Cell.restore : Act (Session σ) Unit)
      (fun _ => Opens view (n :: done)) (Opens view done) := by
  refine anyhow_iff.mpr fun s hs => ?_
  by_cases hin : n ∈ CellName.installation
  · have hg := (CellName.of_mem_installation hin).2
    have hraw : (s.store.cell n).raw = none := (hs.values n hin).trans (if_neg hn)
    obtain ⟨c, hr, hc, hvalue⟩ | ⟨e, hr⟩ :=
      restore_cases (hs.isAt n) hg hraw s.store.policy s.durable
    · simp only [change, onCell, Act.bind_apply, hr]
      refine ⟨fun m => ?_, hs.entries, fun m hm => ?_⟩
      · change ((s.store.put n c).cell m).IsAt m
        by_cases hmn : m = n
        · subst hmn
          rwa [Store.cell_put_self]
        · rw [Store.cell_put_of_ne _ _ hmn]
          exact hs.isAt m
      · change ((s.store.put n c).cell m).raw = _
        by_cases hmn : m = n
        · subst hmn
          rw [Store.cell_put_self, hvalue, hs.entries m hm, if_pos List.mem_cons_self]
        · rw [Store.cell_put_of_ne _ _ hmn, hs.values m hm]
          simp only [List.mem_cons, hmn, false_or]
    · simpa only [change, onCell, Act.bind_apply, hr] using hs
  · -- any other cell may be changed as it likes
    have hspares : Spares (σ := σ) (fun m => m = n) (change n Cell.restore) := by
      refine spares_change ?_ fun _ p hc => local_restore hc p
      rfl
    have hend := anyhow_iff.mp (hspares s.shown) s (sameOutside_self hs.isAt _)
    have hne : ∀ m ∈ CellName.installation, m ≠ n := by
      rintro m hm rfl
      exact hin hm
    have hopens : ∀ t : Session σ, s.shown.SameOutside (fun m => m = n) t.shown →
        ∀ done', (∀ m, m ≠ n → (m ∈ done' ↔ m ∈ done)) → Opens view done' t := by
      intro t ht done' hdone
      refine ⟨ht.isAt, fun m hm => ?_, fun m hm => ?_⟩
      · exact (ht.same m (hne m hm)).2.trans (hs.entries m hm)
      · have hcell := congrArg Cell.raw (ht.same m (hne m hm)).1
        simp only [hdone m (hne m hm)]
        exact hcell.trans (hs.values m hm)
    cases hr : (change n Cell.restore : Act (Session σ) Unit) s with
    | ok u t =>
      rw [hr] at hend
      exact hopens t hend (n :: done) fun m hm => by simp [hm]
    | error e t =>
      rw [hr] at hend
      exact hopens t hend done fun _ _ => Iff.rfl

theorem anyhow_opens_cells (names done : List CellName) (hnodup : names.Nodup)
    (hfresh : ∀ n ∈ names, n ∉ done) :
    Anyhow (Opens view done) (names.forM fun n => (change n Cell.restore : Act (Session σ) Unit))
      (fun _ => Opens view (names.reverse ++ done)) fun s => ∃ done, Opens view done s := by
  induction names generalizing done with
  | nil => exact .pure (Q := fun _ => Opens (σ := σ) view done) ()
  | cons n rest ih =>
    obtain ⟨hnew, hrest⟩ := List.nodup_cons.mp hnodup
    refine .bind ((anyhow_opens_cell (hfresh n List.mem_cons_self)).weaken (fun _ hs => hs)
      (fun _ _ hs => hs) fun _ hs => ⟨done, hs⟩) fun _ => ?_
    have hnext := ih (n :: done) hrest fun m hm hmem => ?_
    · simpa using hnext
    · rcases List.mem_cons.mp hmem with rfl | hmem
      · exact hnew hm
      · exact hfresh m (List.mem_cons_of_mem _ hm) hmem

/-- A store that opens has the identities that the storage holds, and opening leaves these alone
whether it succeeds or not. -/
theorem openStore_installation (defaultPolicy : Policy) (d : σ) :
    match openStore defaultPolicy d with
    | .ok store d' => Opens (value? d) CellName.all.reverse ⟨store, d'⟩
    | .error _ d' => ∀ n ∈ CellName.installation, value? d' n.key = value? d n.key := by
  have hblank : Opens (value? d) [] ⟨.blank defaultPolicy, d⟩ :=
    ⟨fun _ => ⟨rfl, rfl, rfl⟩, fun _ _ => rfl, fun _ _ => rfl⟩
  have hopened := anyhow_iff.mp (anyhow_opens_cells (σ := σ) CellName.all [] (by decide)
    fun _ _ => List.not_mem_nil) ⟨.blank defaultPolicy, d⟩ hblank
  cases hr : (CellName.all.forM fun n => (change n Cell.restore : Act (Session σ) Unit))
      ⟨.blank defaultPolicy, d⟩ with
  | ok u s =>
    have hopen : openStore defaultPolicy d = .ok s.store s.durable := by simp only [openStore, hr]
    simp only [hr] at hopened
    rw [hopen]
    exact hopened
  | error e s =>
    have hopen : openStore defaultPolicy d = .error e s.durable := by simp only [openStore, hr]
    simp only [hr] at hopened
    obtain ⟨done, hdone⟩ := hopened
    rw [hopen]
    exact hdone.entries

section Install

variable {n : CellName} {s t : Session σ}

omit [FallibleDurable σ] in
/-- Whether an identity is set depends on what can be read of the one that is there. -/
theorem setIfAbsent_apply (hs : (s.store.cell n).IsAt n) (hn : n ∈ CellName.installation)
    (v : Value) :
    setIfAbsent n v s = match (s.store.cell n).identity? with
      | .ok (some _) => .ok () s
      | .ok none => set n v s
      | .error e => .error e s := by
  have hkind := hs.2.1.trans (CellName.of_mem_installation hn).1
  simp only [setIfAbsent, Act.bind_apply, Session.get, Cell.get, hkind]
  cases (s.store.cell n).identity? with
  | error e => rfl
  | ok entries => cases entries <;> rfl

omit [FallibleDurable σ] in
/-- An identity that can be read is left alone. -/
theorem setIfAbsent_of_reads (hs : (s.store.cell n).IsAt n) (hn : n ∈ CellName.installation)
    {raw : String} (hraw : (s.store.cell n).raw = some raw) {entries : List (String × Value)}
    (h : Reads raw entries) (v : Value) : setIfAbsent n v s = .ok () s := by
  have hidentity : (s.store.cell n).identity? = .ok (some entries) := by
    simp only [identity?, hraw]
    exact h
  rw [setIfAbsent_apply hs hn, hidentity]

/-- A cell of the installation that could be set has the encoded value, and so has its entry. -/
theorem set_carries (hs : (s.store.cell n).IsAt n) (hn : n ∈ CellName.installation) {v : Value}
    (hv : v ≠ .null) {raw : String} (hraw : (s.store.cell n).encode v = .ok raw)
    (h : set n v s = .ok () t) : t.Carries n raw := by
  have hset : ((s.store.cell n).set s.store.policy v : Act σ Cell) =
      (s.store.cell n).write s.store.policy raw := by
    unfold Cell.set
    split
    · exact absurd rfl hv
    · simp only [hraw]
  simp only [Session.set, change, onCell, Act.bind_apply, hset] at h
  cases hw : (s.store.cell n).write s.store.policy raw s.durable with
  | error e d => simp [hw] at h
  | ok c d =>
    simp only [hw] at h
    cases h
    obtain ⟨hcell, hentry⟩ := write_ok hs (CellName.of_mem_installation hn).2 hw
    refine ⟨?_, hentry⟩
    change ((s.store.put n c).cell n).raw = some raw
    rw [Store.cell_put_self, hcell]

/-- Where an identity has been made if there was none, there is one that can be read. -/
theorem setIfAbsent_carries (hs : (s.store.cell n).IsAt n) (hn : n ∈ CellName.installation)
    (hvalue : (s.store.cell n).raw = value? s.durable n.key) {kind : IdentityKind}
    {i : Identity kind} (hi : i.extras = []) (h : setIfAbsent n i.toValue s = .ok () t) :
    ∃ raw entries, t.Carries n raw ∧ Reads raw entries := by
  rw [setIfAbsent_apply hs hn] at h
  cases hidentity : (s.store.cell n).identity? with
  | error e => simp [hidentity] at h
  | ok found =>
    cases found with
    | some entries =>
      simp only [hidentity] at h
      cases h
      unfold identity? at hidentity
      cases hraw : (s.store.cell n).raw with
      | none => simp [hraw] at hidentity
      | some raw =>
        simp only [hraw] at hidentity
        exact ⟨raw, entries, ⟨hraw, by rw [← hvalue, hraw]⟩, hidentity⟩
    | none =>
      simp only [hidentity] at h
      have hkind := hs.2.1.trans (CellName.of_mem_installation hn).1
      obtain ⟨raw, hraw, hreads⟩ := exists_encode_eq hi hkind
      exact ⟨raw, _, set_carries hs hn (by simp [Identity.toValue]) hraw h, hreads⟩

theorem spares_setIfAbsent {touched : CellName → Prop} (hn : touched n) (v : Value) :
    Spares (σ := σ) touched (setIfAbsent n v) := by
  refine fun x => .bind (anyhow_get n _) fun w => ?_
  by_cases hw : w.isNull = true
  · simp only [hw, if_true]
    exact spares_set hn v x
  · simp only [hw]
    exact Spares.pure () x

/-- So it is with both identities of the installation. -/
theorem install_carries (hs : ∀ n, (s.store.cell n).IsAt n)
    (hvalue : ∀ n ∈ CellName.installation, (s.store.cell n).raw = value? s.durable n.key)
    {device : Identity .device} (hdevice : device.extras = []) {app : Identity .app}
    (happ : app.extras = []) (h : install device app s = .ok () t) :
    (∀ n, (t.store.cell n).IsAt n) ∧
      ∀ n ∈ CellName.installation, ∃ raw entries, t.Carries n raw ∧ Reads raw entries := by
  obtain ⟨_, s₁, hfirst, hsecond⟩ := Act.bind_eq_ok.mp h
  have hspares : ∀ m v, Spares (σ := σ) (· = m) (setIfAbsent m v) := by
    intro m v
    refine spares_setIfAbsent ?_ v
    rfl
  have hsame₁ := (hspares .device device.toValue).of_ok hs hfirst
  have hsame := (hspares .app app.toValue).of_ok hsame₁.isAt hsecond
  have hvalue₁ : (s₁.store.cell .app).raw = value? s₁.durable CellName.app.key := by
    obtain ⟨hcell, hentry⟩ := hsame₁.same .app (by decide)
    exact (congrArg Cell.raw hcell).trans ((hvalue .app (by decide)).trans hentry.symm)
  refine ⟨hsame.isAt, fun n hn => ?_⟩
  simp only [CellName.installation, List.mem_cons, List.not_mem_nil, or_false] at hn
  rcases hn with rfl | rfl
  · obtain ⟨raw, entries, hcarries, hreads⟩ := setIfAbsent_carries (hs .device) (by decide)
      (hvalue .device (by decide)) hdevice hfirst
    exact ⟨raw, entries, hcarries.sameOutside hsame (by decide), hreads⟩
  · exact setIfAbsent_carries (hsame₁.isAt .app) (by decide) hvalue₁ happ hsecond

end Install

/-- Open the session of a configuration over a storage, where the device is described on demand. -/
def openFor (describe : Value → σ → Identity .device × σ) (c : Config) : Act σ Store := fun d =>
  match openStore c.policy d with
  | .error e d => .error e d
  | .ok store d =>
    match (store.cell .device).get with
    | .error e => .error e d
    | .ok device =>
      match install (describe device d).1 (.app c.appId c.appVersion) ⟨store, (describe device d).2⟩
      with
      | .ok () s => .ok s.store s.durable
      | .error e s => .error e s.durable

end Session

/-- A session on a machine is opened so, with the machine describing its device. -/
theorem Workplace.openSession_eq (c : Config) :
    Workplace.openSession c = Session.openFor (fun device w =>
      let (id, w) := Workplace.identifierFor device w
      (Workplace.deviceIdentity w.machine id, w)) c := by
  funext w
  unfold Workplace.openSession Session.openFor
  cases Session.openStore c.policy w with
  | error e w => rfl
  | ok store w =>
    dsimp only
    rw [Workplace.install, Act.bind_apply, Workplace.describeDevice]
    cases (store.cell .device).get with
    | error e => rfl
    | ok device =>
      dsimp only
      split <;> simp only [*]

/-- Identities of an installation that can be read. -/
structure Identities where
  /-- The encoded values. -/
  raw : CellName → String
  /-- What is read. -/
  entries : CellName → List (String × Value)
  /-- They can be read. -/
  reads : ∀ n ∈ CellName.installation, Cell.Reads (raw n) (entries n)

/-- What describes devices: doing so does not show in the storage. -/
structure Describer (σ : Type) [Durable σ] [FallibleDurable σ] where
  /-- Describe the device, in view of the identity that is in use. -/
  describe : Value → σ → Identity .device × σ
  /-- The description is an identifier and what the system says of itself. -/
  describes : ∀ device d, ∃ id system release machine,
    (describe device d).1 = .device id system release machine
  /-- The storage holds what it held. -/
  unseen : ∀ device d key,
    FallibleDurable.value? (describe device d).2 key = FallibleDurable.value? d key

namespace Identities

variable {σ : Type} [Durable σ] [FallibleDurable σ] {ids : Identities}

open FallibleDurable Session

/-- The storage holds the identities. -/
def Stored (ids : Identities) (d : σ) : Prop :=
  ∀ n ∈ CellName.installation, value? d n.key = some (ids.raw n)

/-- The cells of a store have them. -/
structure InUse (ids : Identities) (store : Store) : Prop where
  /-- Each cell is the one of its name. -/
  isAt : ∀ n, (store.cell n).IsAt n
  /-- The values of the cells are the identities. -/
  raw_eq : ∀ n ∈ CellName.installation, (store.cell n).raw = some (ids.raw n)

/-- Identities in use are what the cells report. -/
theorem InUse.getAsMap {store : Store} (h : ids.InUse store) {n : CellName}
    (hn : n ∈ CellName.installation) : (store.cell n).getAsMap = .ok (ids.entries n) := by
  have hreads := ids.reads n hn
  unfold Cell.Reads at hreads
  simp only [Cell.getAsMap, Cell.identity?, h.raw_eq n hn, hreads]
  rfl

/-- Every change that is asked of a session leaves its identities in use and stored. -/
theorem apply {s : Session σ} (huse : ids.InUse s.store) (hstored : ids.Stored s.durable)
    (e : Effect) : ids.InUse (e.apply s).store ∧ ids.Stored (e.apply s).durable := by
  have hsame := apply_sameOutside huse.isAt e
  refine ⟨⟨hsame.isAt, fun n hn => ?_⟩, fun n hn => ?_⟩
  · exact (congrArg Cell.raw (hsame.same n (not_not_intro hn)).1).trans (huse.raw_eq n hn)
  · exact (hsame.same n (not_not_intro hn)).2.trans (hstored n hn)

/-- A session that is opened has identities, which the storage holds. -/
theorem of_openFor (describer : Describer σ) {c : Config} {d d' : σ} {store : Store}
    (h : openFor describer.describe c d = .ok store d') :
    ∃ ids : Identities, ids.InUse store ∧ ids.Stored d' := by
  have hopens := openStore_installation c.policy d
  unfold openFor at h
  cases hopen : openStore c.policy d with
  | error e d₁ => simp [hopen] at h
  | ok opened d₁ =>
    rw [hopen] at hopens
    simp only [hopen] at h
    cases hget : (opened.cell .device).get with
    | error e => simp [hget] at h
    | ok device =>
      simp only [hget] at h
      obtain ⟨id, system, release, machine, hdevice⟩ := describer.describes device d₁
      have hview := describer.unseen device d₁
      rw [hdevice] at h
      generalize (describer.describe device d₁).2 = d₂ at h hview
      cases hinstall : install (.device id system release machine) (.app c.appId c.appVersion)
          (⟨opened, d₂⟩ : Session σ) with
      | error e s => simp [hinstall] at h
      | ok u s =>
        simp only [hinstall] at h
        cases h
        have hvalue : ∀ n ∈ CellName.installation, (opened.cell n).raw = value? d₂ n.key := by
          intro n hn
          rw [hview, hopens.entries n hn]
          exact (hopens.values n hn).trans (if_pos n.mem_all_reverse)
        have hnamed : ∀ n, (opened.cell n).IsAt n := hopens.isAt
        obtain ⟨hat, hcarries⟩ := install_carries (s := ⟨opened, d₂⟩) hnamed hvalue rfl rfl hinstall
        have hchoice : ∀ n, ∃ raw entries, n ∈ CellName.installation →
            s.Carries n raw ∧ Cell.Reads raw entries := by
          intro n
          by_cases hn : n ∈ CellName.installation
          · obtain ⟨raw, entries, h⟩ := hcarries n hn
            exact ⟨raw, entries, fun _ => h⟩
          · exact ⟨"", [], fun h => absurd h hn⟩
        choose raw entries hboth using hchoice
        exact ⟨⟨raw, entries, fun n hn => (hboth n hn).2⟩,
          ⟨hat, fun n hn => (hboth n hn).1.1⟩, fun n hn => (hboth n hn).1.2⟩

/-- A store that opens over a storage that holds identities has them. -/
theorem Stored.openStore {d d₁ : σ} (hstored : ids.Stored d) {p : Policy} {opened : Store}
    (hopen : Session.openStore p d = .ok opened d₁) : ids.InUse opened ∧ ids.Stored d₁ := by
  have hopens := openStore_installation p d
  rw [hopen] at hopens
  refine ⟨⟨hopens.isAt, fun n hn => (hopens.values n hn).trans ?_⟩, fun n hn => ?_⟩
  · rw [if_pos n.mem_all_reverse, hstored n hn]
  · exact (hopens.entries n hn).trans (hstored n hn)

/-- A store that has identities is opened as it is: there is none to be made. -/
theorem InUse.openFor_eq_ok {opened : Store} (huse : ids.InUse opened) (describer : Describer σ)
    {c : Config} {d d₁ : σ} (hopen : openStore c.policy d = .ok opened d₁) :
    ∃ d', Session.openFor describer.describe c d = .ok opened d' ∧
      ∀ key, value? d' key = value? d₁ key := by
  have hleft : ∀ n ∈ CellName.installation, ∀ v d,
      setIfAbsent n v (⟨opened, d⟩ : Session σ) = .ok () ⟨opened, d⟩ := fun n hn v d =>
    setIfAbsent_of_reads (s := ⟨opened, d⟩) (huse.isAt n) hn (huse.raw_eq n hn) (ids.reads n hn) v
  have hget : (opened.cell .device).get = .ok (.map (ids.entries .device)) := by
    have hreads := ids.reads .device (by decide)
    unfold Cell.Reads at hreads
    simp only [Cell.get, (huse.isAt .device).2.1, CellName.kind, Cell.identity?,
      huse.raw_eq .device (by decide), hreads]
    rfl
  refine ⟨(describer.describe (.map (ids.entries .device)) d₁).2, ?_, describer.unseen _ d₁⟩
  simp only [Session.openFor, hopen, hget, install, Act.bind_apply, hleft .device (by decide),
    hleft .app (by decide)]

/-- Opening a session on a storage that holds identities uses them, and the storage goes on holding
them whether it succeeds or not. -/
theorem Stored.openFor {d : σ} (hstored : ids.Stored d) (describer : Describer σ) (c : Config) :
    match Session.openFor describer.describe c d with
    | .ok store d' => ids.InUse store ∧ ids.Stored d'
    | .error _ d' => ids.Stored d' := by
  cases hopen : Session.openStore c.policy d with
  | error e d₁ =>
    have hopens := openStore_installation c.policy d
    rw [hopen] at hopens
    simp only [Session.openFor, hopen]
    exact fun n hn => (hopens n hn).trans (hstored n hn)
  | ok opened d₁ =>
    obtain ⟨huse, hstored₁⟩ := hstored.openStore hopen
    obtain ⟨d', hok, hview⟩ := huse.openFor_eq_ok describer hopen
    rw [hok]
    exact ⟨huse, fun n hn => (hview n.key).trans (hstored₁ n hn)⟩

end Identities

end BearerSession
