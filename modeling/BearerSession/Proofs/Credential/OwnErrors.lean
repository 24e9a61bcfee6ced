import BearerSession.Proofs.Config.Looking
import BearerSession.Proofs.Credential.Identities

/-!
# What a session raises

A session raises what its storage raises, and errors of its own: an identity that is no JSON, a
value that no cell takes. So over storage that raises only errors of its own, opening a session and
changing it do so too.
-/

namespace BearerSession

open Act (Proper)

/-- Storage that keeps an invariant and raises only errors of its own. -/
structure ProperStorage {σ : Type} [Durable σ] (I : σ → Prop) : Prop where
  /-- Reading is proper. -/
  read : ∀ key, Proper I (Durable.read key : Act σ (Option String))
  /-- So is writing. -/
  set : ∀ key value, Proper I (Durable.set key value : Act σ Unit)
  /-- So is removing. -/
  remove : ∀ key, Proper I (Durable.remove key : Act σ Unit)

/-- A text that is refused when it is to be read as an identity is no JSON. -/
theorem Cell.own_of_get {c : Cell} {e : Raised} (h : c.get = .error e) : e.Own := by
  unfold get identity? decodeIdentity at h
  split at h
  · contradiction
  · split at h
    · contradiction
    · split at h
      · contradiction
      · contradiction
      · contradiction
      · cases h
        exact fun _ _ _ => nofun

/-- A value that is refused by cells with errors of its own only. -/
def Value.Encodes (v : Value) : Prop := ∀ (c : Cell) (e : Raised), c.encode v = .error e → e.Own

namespace Value

theorem encodes_text (s : String) : (Value.text s).Encodes := by
  intro c e h
  unfold Cell.encode Cell.entriesOf at h
  cases hkind : c.kind with
  | plain => simp [hkind] at h
  | identity =>
    simp only [hkind] at h
    cases h
    exact fun _ _ _ => nofun

/-- An identity that says nothing besides its fields is never refused. -/
theorem encodes_identity {kind : IdentityKind} {i : Identity kind} (h : i.extras = []) :
    i.toValue.Encodes := by
  intro c e he
  cases hkind : c.kind with
  | plain => simp [Cell.encode, hkind] at he
  | identity =>
    obtain ⟨raw, hraw, -⟩ := Cell.exists_encode_eq h hkind
    rw [hraw] at he
    contradiction

end Value

section Cells

variable {σ : Type} [Durable σ] {I : σ → Prop} (h : ProperStorage I) (c : Cell) (p : Policy)

include h

namespace Cell

theorem restore_proper : Proper I (c.restore p : Act σ Cell) := by
  unfold restore
  split
  · refine (h.read c.name).bind fun entry => ?_
    split <;> exact .pure _
  · exact (h.remove c.name).bind fun _ => .pure c

theorem clear_proper : Proper I (c.clear : Act σ Cell) := (h.remove c.name).bind fun _ => .pure _

theorem set_proper {v : Value} (hv : v.Encodes) : Proper I (c.set p v : Act σ Cell) := by
  unfold set write
  split
  · exact c.clear_proper h
  · split
    · split
      · exact (h.set c.name _).bind fun _ => .pure _
      · exact .pure _
    · next he => exact .throw (hv c _ he)

theorem migrate_proper : Proper I (c.migrate p : Act σ (Cell × Bool)) := by
  unfold migrate
  split
  · exact .pure _
  · repeat' split
    all_goals first
      | exact .pure _
      | exact (h.set c.name _).bind fun _ => .pure _
      | exact (h.remove c.name).bind fun _ => .pure _

end Cell

end Cells

namespace Session

section Generic

variable {σ α : Type} {I : σ → Prop} {n : CellName}

/-- What holds of the storage of a session. -/
def On (I : σ → Prop) (s : Session σ) : Prop := I s.durable

theorem onCell_proper {f : Cell → Policy → Act σ (Cell × α)} (hf : ∀ c p, Proper I (f c p)) :
    Proper (On I) (onCell n f) := by
  intro s hs
  have hend := hf (s.store.cell n) s.store.policy s.durable hs
  unfold onCell
  generalize f (s.store.cell n) s.store.policy s.durable = r at hend ⊢
  cases r with
  | ok a d => exact hend
  | error e d => exact hend

theorem change_proper {f : Cell → Policy → Act σ Cell} (hf : ∀ c p, Proper I (f c p)) :
    Proper (On I) (change n f) :=
  onCell_proper fun c p => (hf c p).bind fun _ => .pure _

theorem get_proper {J : Session σ → Prop} : Proper J (Session.get n) := by
  intro s hs
  unfold Session.get
  cases hget : (s.store.cell n).get with
  | ok v => exact hs
  | error e => exact ⟨hs, Cell.own_of_get hget⟩

end Generic

variable {σ : Type} [Durable σ] {I : σ → Prop} (h : ProperStorage I)

include h

theorem set_proper (n : CellName) {v : Value} (hv : v.Encodes) :
    Proper (On I) (set n v : Act (Session σ) Unit) :=
  change_proper fun c p => c.set_proper h p hv

theorem clearAuthorization_proper : Proper (On I) (clearAuthorization : Act (Session σ) Unit) := by
  have hclear (n : CellName) : Proper (On I) (clear n : Act (Session σ) Unit) :=
    change_proper fun c _ => c.clear_proper h
  exact (hclear _).bind fun _ => (hclear _).bind fun _ => hclear _

theorem setPolicy_proper (p : Policy) : Proper (On I) (setPolicy p : Act (Session σ) Bool) := by
  have hmigrate (n : CellName) :
      Proper (On I) (discard (migrate n : Act (Session σ) Bool) : Act (Session σ) Unit) :=
    (onCell_proper fun c p => c.migrate_proper h p).bind fun _ => .pure _
  refine Proper.get.bind fun s => ?_
  split
  · exact .pure false
  · refine (set_proper h .policy (Value.encodes_text _)).bind fun _ => ?_
    exact (Proper.forM hmigrate).bind fun _ => .pure true

theorem openStore_proper (p : Policy) : Proper I (openStore p : Act σ Store) := by
  intro d hd
  have hend := (Proper.forM (I := On I) (l := CellName.all) fun n =>
    change_proper (σ := σ) (n := n) fun c p => c.restore_proper h p) ⟨.blank p, d⟩ hd
  unfold openStore
  dsimp only
  generalize (CellName.all.forM fun n => (change n Cell.restore : Act (Session σ) Unit))
    ⟨.blank p, d⟩ = r at hend ⊢
  cases r with
  | ok u s => exact hend
  | error e s => exact hend

theorem install_proper {device : Identity .device} (hdevice : device.extras = [])
    {app : Identity .app} (happ : app.extras = []) :
    Proper (On I) (install device app : Act (Session σ) Unit) := by
  have habsent (n : CellName) {v : Value} (hv : v.Encodes) :
      Proper (On I) (setIfAbsent n v : Act (Session σ) Unit) := by
    refine get_proper.bind fun w => ?_
    split
    · exact set_proper h n hv
    · exact .pure ()
  exact (habsent _ (Value.encodes_identity hdevice)).bind fun _ =>
    habsent _ (Value.encodes_identity happ)

/-- A session is opened properly where its device is described properly. -/
theorem openFor_proper {describe : Value → σ → Identity .device × σ}
    (hdescribe : ∀ device d, I d → (describe device d).1.extras = [] ∧ I (describe device d).2)
    (c : Config) : Proper I (openFor describe c) := by
  intro d hd
  have hopen := openStore_proper h c.policy d hd
  unfold openFor
  generalize (openStore c.policy d : EStateM.Result Raised σ Store) = r at hopen ⊢
  cases r with
  | error e d => exact hopen
  | ok store d =>
    dsimp only
    cases hget : (store.cell .device).get with
    | error e => exact ⟨hopen, Cell.own_of_get hget⟩
    | ok device =>
      obtain ⟨hextras, hdescribed⟩ := hdescribe device d hopen
      have happ : (Identity.app c.appId c.appVersion).extras = [] := rfl
      have hend := install_proper h hextras happ ⟨store, (describe device d).2⟩ hdescribed
      dsimp only
      generalize install (describe device d).1 (.app c.appId c.appVersion)
        (⟨store, (describe device d).2⟩ : Session σ) = r at hend ⊢
      cases r with
      | ok u s => exact hend
      | error e s => exact hend

end Session

end BearerSession
