import BearerSession.Proofs.Config.Veiled
import BearerSession.Proofs.Credential.Forgetting
import BearerSession.Proofs.Credential.OwnErrors
import BearerSession.Proofs.Durable.Corrupted

/-!
# Sessions on a session file

A session on a file that can be written runs alongside one on a memory: it is opened and changed
alike, and the file stands for the memory all the while. What the memory says of tokens and of
identities can be read off the bytes of the file, and the other way round.
-/

namespace BearerSession

/-- What corresponds in one of several ways does so in step, too. -/
theorem Likeness.Storages.exists {l : Likeness} {σ τ ι : Type} [Durable σ] [Durable τ]
    {R : ι → σ → τ → Prop} (h : ∀ i, l.Storages (R i)) : l.Storages fun s t => ∃ i, R i s t where
  read n := fun s t ⟨i, hi⟩ => ((h i).read n s t hi).weaken (fun _ _ h => h) fun _ _ h => ⟨i, h⟩
  set hv := fun s t ⟨i, hi⟩ => ((h i).set hv s t hi).weaken (fun _ _ h => h) fun _ _ h => ⟨i, h⟩
  remove n := fun s t ⟨i, hi⟩ =>
    ((h i).remove n s t hi).weaken (fun _ _ h => h) fun _ _ h => ⟨i, h⟩

/-- Stores of which all cells are the same are the same. -/
theorem Likeness.Stores.eq {s s' : Store} (h : Likeness.exact.Stores s s') : s = s' := by
  have hcell : s.cell = s'.cell := by
    funext n
    have hraw : (s.cell n).raw = (s'.cell n).raw := by
      have hrel := (h.cell n).raw
      generalize (s.cell n).raw = v at hrel ⊢
      generalize (s'.cell n).raw = v' at hrel ⊢
      cases hrel with
      | none => rfl
      | some hsame => exact congrArg some hsame
    rw [(h.cell n).rest, ← hraw]
  obtain ⟨defaultPolicy, cell⟩ := s
  obtain ⟨defaultPolicy', cell'⟩ := s'
  exact congrArg₂ Store.mk h.defaultPolicy hcell

namespace SessionFile

open Value (find?)

variable {d : Disk} {p : Path} {bytes : List UInt8} {values : List (String × String)}

/-- Whether bytes are the text of a JSON object without tokens. -/
def HasNoTokens (bytes : List UInt8) : Prop :=
  ∃ entries, Reads bytes entries ∧ ∀ n ∈ CellName.tokens, find? entries n.key = none

/-- Whether identities of an installation are among the values of a session file. -/
def HasIdentities (ids : Identities) (bytes : List UInt8) : Prop :=
  ∃ values, decode bytes = .ok values ∧
    ∀ n ∈ CellName.installation, find? values n.key = some (ids.raw n)

/-- What is left of a session file once the tokens have been forgotten. -/
def Forgotten (content : Option (List UInt8)) : Prop :=
  ∃ bytes, content = some bytes ∧ HasNoTokens bytes ∧ ∃ ids, HasIdentities ids bytes

/-- What cannot be loaded is no text or no JSON. -/
theorem own_of_load {e : Raised} (h : load d p = .error e) : e.Own := by
  unfold load decode at h
  repeat' split at h
  all_goals cases h
  all_goals exact fun _ _ _ => nofun

theorem own_of_get {key : String} {e : Raised} (h : get p key d = .error e) : e.Own := by
  unfold get at h
  cases hload : load d p with
  | ok values => simp [hload, Except.map] at h
  | error e' =>
    rw [hload] at h
    cases h
    exact own_of_load hload

/-- A file that cannot be written says so. -/
theorem own_of_store {e : Raised} {d' : Disk} (h : store p values d = .error e d') : e.Own := by
  unfold store at h
  split at h <;> cases h
  exact fun _ _ _ => nofun

theorem own_of_set {key value : String} {e : Raised} {d' : Disk}
    (h : set p key value d = .error e d') : e.Own := by
  unfold set at h
  split at h
  · next hload =>
    cases h
    exact own_of_load hload
  · exact own_of_store h

theorem own_of_remove {key : String} {e : Raised} {d' : Disk}
    (h : remove p key d = .error e d') : e.Own := by
  unfold remove at h
  split at h
  · next hload =>
    cases h
    exact own_of_load hload
  · split at h
    · exact own_of_store h
    · contradiction

/-- A file that stands for a memory with identities and without tokens has only these. -/
theorem Mirrors.forgotten {mem : Memory} (h : Mirrors d p mem)
    (htokens : Tokenless (LawfulDurable.value? mem)) {ids : Identities} (hids : ids.Stored mem) :
    Forgotten (d.bytes? p) := by
  obtain ⟨values, hload, hp⟩ := h.loaded
  have hfind (key : String) : find? values key = find? mem.values key :=
    h.keyed.find?_perm hp.symm key
  have hstored : ∀ n ∈ CellName.installation, find? values n.key = some (ids.raw n) :=
    fun n hn => (hfind n.key).trans (hids n hn)
  have hvalues : values ≠ [] := by
    rintro rfl
    exact absurd (hstored .device (by decide)) nofun
  unfold load at hload
  cases hbytes : d.bytes? p with
  | none =>
    rw [hbytes] at hload
    exact absurd (Except.ok.inj hload).symm hvalues
  | some bytes =>
    rw [hbytes] at hload
    obtain ⟨entries, hreads, hentries⟩ := exists_reads hload hvalues
    refine ⟨bytes, rfl, ⟨entries, hreads, fun n hn => ?_⟩, ids, values, hload, hstored⟩
    have hnone := (hfind n.key).trans (htokens n hn)
    rw [hentries, Value.find?_map_snd] at hnone
    exact Option.map_eq_none_iff.mp hnone

/-- And the other way round. -/
theorem Forgotten.mirrors (h : Forgotten (d.bytes? p)) (hd : d.Receives p) :
    ∃ mem, Mirrors d p mem ∧ Tokenless (LawfulDurable.value? mem) ∧
      ∃ ids : Identities, ids.Stored mem := by
  obtain ⟨bytes, hbytes, ⟨entries, hreads, htokens⟩, ids, values, hdecode, hids⟩ := h
  have hload : load d p = .ok values := by
    unfold load
    rw [hbytes]
    exact hdecode
  refine ⟨⟨values, []⟩, mirrors_of_load hd hload, fun n hn => ?_, ids, hids⟩
  obtain rfl := Except.ok.inj (hdecode.symm.trans hreads.decode_eq)
  exact (Value.find?_map_snd Value.display entries n.key).trans
    (congrArg (Option.map Value.display) (htokens n hn))

end SessionFile

namespace Workplace

open SessionFile (Mirrors)

variable {base : Machine} {p : Path}

/-- A workplace of which the session file stands for a memory, on a machine that is given but for
its disk. -/
def StandsFor (base : Machine) (p : Path) (w : Workplace) (mem : Memory) : Prop :=
  ∃ d, w = ⟨base.withDisk d, .file p⟩ ∧ Mirrors d p mem

/-- Its storage and the memory are read and changed alike. -/
theorem storages_standsFor (base : Machine) (p : Path) :
    Likeness.exact.Storages (StandsFor base p) where
  read n := by
    rintro _ mem ⟨d, rfl, h⟩
    have hfile : Durable.read n.key (⟨base.withDisk d, .file p⟩ : Workplace) =
        .ok (Value.find? mem.values n.key) ⟨base.withDisk d, .file p⟩ := by
      have hget : Durable.get n.key (⟨base.withDisk d, .file p⟩ : Workplace) =
          .ok (Value.find? mem.values n.key) := h.get n.key
      simp only [Durable.read, hget]
    rw [hfile]
    exact .ok (Likeness.rel_refl n _) ⟨d, rfl, h⟩
  set := by
    rintro n v _ rfl _ mem ⟨d, rfl, h⟩
    obtain ⟨e, hset, hmirrors, -⟩ := h.set n.key v
    have hfile : Durable.set n.key v (⟨base.withDisk d, .file p⟩ : Workplace) =
        .ok () ⟨base.withDisk e, .file p⟩ := by
      simp only [Durable.set, onMount, Mount.onDisk, Machine.withDisk, hset]
    rw [hfile, Memory.set_eq_ok h.willing]
    exact .ok rfl ⟨e, rfl, hmirrors⟩
  remove n := by
    rintro _ mem ⟨d, rfl, h⟩
    obtain ⟨e, hremove, hmirrors⟩ : ∃ e, SessionFile.remove p n.key d = .ok () e ∧
        Mirrors e p { mem with values := Value.eraseEntry n.key mem.values } := by
      cases hkey : Value.find? mem.values n.key with
      | none =>
        obtain ⟨hremove, hsame⟩ := h.remove_absent hkey
        rw [hsame]
        exact ⟨d, hremove, h⟩
      | some v =>
        have hheld : (Value.find? mem.values n.key).isSome := by rw [hkey]; rfl
        obtain ⟨e, hremove, hmirrors, -⟩ := h.remove hheld
        exact ⟨e, hremove, hmirrors⟩
    have hfile : Durable.remove n.key (⟨base.withDisk d, .file p⟩ : Workplace) =
        .ok () ⟨base.withDisk e, .file p⟩ := by
      simp only [Durable.remove, onMount, Mount.onDisk, Machine.withDisk, hremove]
    rw [hfile, Memory.remove_eq_ok h.willing]
    exact .ok rfl ⟨e, rfl, hmirrors⟩

theorem standsFor_of_mirrors {m : Machine} {mem : Memory} (h : Mirrors m.disk p mem) :
    StandsFor m p ⟨m, .file p⟩ mem :=
  ⟨m.disk, rfl, h⟩

/-- A workplace of which the session file stands for a memory. -/
def Standing (p : Path) (w : Workplace) (mem : Memory) : Prop := ∃ base, StandsFor base p w mem

theorem storages_standing (p : Path) : Likeness.exact.Storages (Standing p) :=
  .exists fun base => storages_standsFor base p

/-- What describes the device to a memory as a machine would. -/
def describer (base : Machine) : Describer Memory where
  describe _ mem := (deviceIdentity base (Machine.identifierText (base.lastId + 1)), mem)
  describes _ _ := ⟨_, _, _, _, rfl⟩
  unseen _ _ _ := rfl

/-- A session is opened over the file as over the memory. -/
theorem openSession_standsFor {w : Workplace} {mem : Memory} (h : StandsFor base p w mem)
    (c : Config) :
    Outcomes (Standing p) Likeness.exact.Stores (openSession c w)
      (Session.openFor (describer base).describe c mem) := by
  rw [openSession_eq]
  refine (storages_standsFor base p).openFor (storages_standing p) (fun _ _ h => ⟨base, h⟩) ?_ c h
  rintro device _ mem ⟨d, rfl, h⟩
  unfold identifierFor
  dsimp only
  split
  · exact ⟨rfl, { base with lastId := base.lastId + 1 }, d, rfl, h⟩
  · exact ⟨rfl, base, d, rfl, h⟩

/-- The store that a file holds is opened, since nothing is refused. -/
theorem exists_openStore_eq_ok {w : Workplace} {mem : Memory} (h : StandsFor base p w mem)
    (defaultPolicy : Policy) :
    ∃ store mem', Session.openStore defaultPolicy mem = .ok store mem' := by
  have hopen := (storages_standsFor base p).openStore defaultPolicy w mem h
  obtain ⟨d, -, hfile⟩ := h
  obtain ⟨-, hundisturbed⟩ :=
    Session.undisturbed_openStore defaultPolicy (LawfulDurable.value? mem) mem
  unfold Act.after at hundisturbed
  generalize Session.openStore defaultPolicy w = r at hopen
  generalize Session.openStore defaultPolicy mem = r' at hopen hundisturbed ⊢
  cases hopen with
  | @ok _ store _ mem' _ _ => exact ⟨store, mem', rfl⟩
  | @error _ mem' e hs =>
    obtain ⟨d', -, hfile'⟩ := hs
    have hcount : CountedDurable.refusals mem' = CountedDurable.refusals mem := by
      change -Memory.allowance mem'.refusals = -Memory.allowance mem.refusals
      rw [hfile.willing, hfile'.willing]
    exact (hundisturbed hcount rfl).elim

/-- Over the file of an installation a session is opened. -/
theorem exists_openSession_eq_ok {w : Workplace} {mem : Memory} (h : StandsFor base p w mem)
    {ids : Identities} (hids : ids.Stored mem) (c : Config) :
    ∃ store w' mem', openSession c w = .ok store w' ∧
      Session.openFor (describer base).describe c mem = .ok store mem' ∧
      Likeness.exact.Sessions (Standing p) ⟨store, w'⟩ ⟨store, mem'⟩ := by
  obtain ⟨opened, mem₁, hstore⟩ := exists_openStore_eq_ok h c.policy
  obtain ⟨mem', hmemory, -⟩ := (hids.openStore hstore).1.openFor_eq_ok (describer base) hstore
  have hopen := openSession_standsFor h c
  rw [hmemory] at hopen
  generalize openSession c w = r at hopen ⊢
  cases hopen with
  | @ok store _ w' _ hsame hw =>
    obtain rfl := hsame.eq
    exact ⟨store, w', mem', rfl, hmemory, hsame, hw⟩

/-- A session file raises only errors of its own. -/
theorem properStorage_file (p : Path) :
    ProperStorage fun w : Workplace => w.backend = .file p := by
  constructor
  · rintro key ⟨m, b⟩ rfl
    simp only [Durable.read, Durable.get]
    cases hget : SessionFile.get p key m.disk with
    | ok v => rfl
    | error e => exact ⟨rfl, SessionFile.own_of_get hget⟩
  · rintro key value ⟨m, b⟩ rfl
    simp only [Durable.set, onMount, Mount.onDisk]
    cases hset : SessionFile.set p key value m.disk with
    | ok u d => rfl
    | error e d => exact ⟨rfl, SessionFile.own_of_set hset⟩
  · rintro key ⟨m, b⟩ rfl
    simp only [Durable.remove, onMount, Mount.onDisk]
    cases hremove : SessionFile.remove p key m.disk with
    | ok u d => rfl
    | error e d => exact ⟨rfl, SessionFile.own_of_remove hremove⟩

/-- So a session on a session file is opened properly. -/
theorem openSession_proper (p : Path) (c : Config) :
    Act.Proper (fun w : Workplace => w.backend = .file p) (openSession c) := by
  rw [openSession_eq]
  refine Session.openFor_proper (properStorage_file p) (fun device w hw => ⟨rfl, ?_⟩) c
  unfold identifierFor
  dsimp only
  split
  · exact hw
  · exact hw

/-- A file that cannot be loaded is no storage of a session. -/
theorem exists_load_of_openSession {m : Machine} {c : Config} {store : Store} {w : Workplace}
    (h : openSession c ⟨m, .file p⟩ = .ok store w) :
    ∃ values, SessionFile.load m.disk p = .ok values := by
  cases hload : SessionFile.load m.disk p with
  | ok values => exact ⟨values, rfl⟩
  | error e =>
    -- the first cell is that of the policy, which is read in any case
    have hread : Durable.read CellName.policy.key (⟨m, .file p⟩ : Workplace) =
        .error e ⟨m, .file p⟩ := by
      simp only [Durable.read, Durable.get, SessionFile.get, hload, Except.map]
    have hrestore : (Session.change .policy Cell.restore : Act (Session Workplace) Unit)
        ⟨.blank c.policy, ⟨m, .file p⟩⟩ = .error e ⟨.blank c.policy, ⟨m, .file p⟩⟩ := by
      simp only [Session.change, Session.onCell, Act.bind_apply, Cell.restore]
      rw [if_pos (show (Cell.persists _ _) = true from rfl), Act.bind_apply]
      simp only [Store.blank, Cell.blank, hread]
    have hopened : (CellName.all.forM fun n =>
        (Session.change n Cell.restore : Act (Session Workplace) Unit))
        ⟨.blank c.policy, ⟨m, .file p⟩⟩ = .error e ⟨.blank c.policy, ⟨m, .file p⟩⟩ := by
      change (Session.change .policy Cell.restore >>= fun _ => _) _ = _
      rw [Act.bind_apply, hrestore]
    simp only [openSession, Session.openStore, hopened] at h
    contradiction

end Workplace

end BearerSession
