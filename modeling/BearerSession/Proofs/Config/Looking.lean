import BearerSession.Config.Resolve
import BearerSession.Config.Storage
import BearerSession.Proofs.Credential.Refusal
import BearerSession.Proofs.Disk.Files

/-!
# Looking for a configuration

Finding the configuration of a command and the place of its storage makes directories at most, so
every file stays as it is. Where it fails, the error is the program's own: none that a host has
built, with an exit code of its choice.
-/

namespace BearerSession

/-- Whether an error is none that a host has built. -/
def Raised.Own (e : Raised) : Prop :=
  ∀ kind message code, e ≠ .session (.reported kind message code)

/-- A computation is proper when it keeps an invariant, whether it succeeds or not, and raises only
errors of its own. -/
def Act.Proper {σ α : Type} (I : σ → Prop) (f : Act σ α) : Prop :=
  ∀ s, I s → match f s with
    | .ok _ t => I t
    | .error e t => I t ∧ e.Own

namespace Act.Proper

variable {σ α β : Type} {I : σ → Prop} {f : Act σ α}

theorem pure (a : α) : Proper I (Pure.pure a : Act σ α) := fun _ hs => hs

theorem throw {e : Raised} (h : e.Own) : Proper I (MonadExcept.throw e : Act σ α) :=
  fun _ hs => ⟨hs, h⟩

theorem get : Proper I (MonadState.get : Act σ σ) := fun _ hs => hs

theorem bind {g : α → Act σ β} (hf : Proper I f) (hg : ∀ a, Proper I (g a)) :
    Proper I (f >>= g) := by
  intro s hs
  have h := hf s hs
  rw [Act.bind_apply]
  generalize f s = r at h ⊢
  cases r with
  | ok a t => exact hg a t h
  | error e t => exact h

theorem forM {l : List α} {g : α → Act σ Unit} (h : ∀ a, Proper I (g a)) :
    Proper I (l.forM g) := by
  induction l with
  | nil => exact pure ()
  | cons a rest ih => exact bind (h a) fun _ => ih

end Act.Proper

/-- Whether a machine has these bytes in its files. -/
def Machine.HasFiles (files : List String → Option (List UInt8)) (m : Machine) : Prop :=
  ∀ place, m.disk.bytesAt? place = files place

section Looking

open Act (Proper)

variable {files : List String → Option (List UInt8)}

theorem Machine.made_proper (place : Machine → Path) :
    Proper (HasFiles files) (fun m => made (place m) m) := by
  intro m hm
  simp only [made]
  cases hmade : m.disk.makeDirectories (place m) with
  | ok d => exact fun spot => (Disk.bytesAt?_makeDirectories hmade spot).trans (hm spot)
  | error e => exact ⟨hm, fun _ _ _ => nofun⟩

/-- What stands for the home directory is either known or not. -/
theorem Machine.of_expandHome_eq_error {m : Machine} {p : Path} {e : Raised}
    (h : m.expandHome p = .error e) : e = .noHome := by
  unfold expandHome at h
  repeat' split at h
  all_goals cases h
  rfl

theorem Machine.own_of_expandHome {m : Machine} {p : Path} {e : Raised}
    (h : m.expandHome p = .error e) : e.Own := by
  rw [of_expandHome_eq_error h]
  exact fun _ _ _ => nofun

namespace Config

/-- What is wrong with a configuration is told by an error of its own. -/
theorem own_of_read {p : Path} {d : Disk} {e : Raised} (h : read p d = .error e) : e.Own := by
  unfold read at h
  split at h
  · contradiction
  · split at h
    · contradiction
    · next hdecode =>
      obtain rfl := Except.error.inj h
      split
      · exact fun _ _ _ => nofun
      · unfold decode at hdecode
        repeat' split at hdecode
        all_goals cases hdecode
        all_goals exact fun _ _ _ => nofun

theorem place_proper (path : Option Path) : Proper (Machine.HasFiles files) (place path) := by
  cases path with
  | none => exact (Machine.made_proper Machine.configPlace).bind fun _ => .pure _
  | some p => exact .pure p

theorem load_proper (path : Option Path) : Proper (Machine.HasFiles files) (load path) := by
  refine (place_proper path).bind fun p => Proper.get.bind fun m => ?_
  cases hread : read p m.disk with
  | ok c => exact .pure c
  | error e => exact .throw (own_of_read hread)

theorem overridePath_proper (o : Overrides) :
    Proper (Machine.HasFiles files) (overridePath o) := by
  intro m hm
  unfold overridePath
  cases o.config with
  | none => exact hm
  | some s =>
    dsimp only
    by_cases hs : s.isEmpty = true
    · rw [if_pos hs]
      exact hm
    · rw [if_neg hs]
      cases hexpand : m.expandHome (.ofText s) with
      | ok p => exact hm
      | error e => exact ⟨hm, Machine.own_of_expandHome hexpand⟩

theorem orThrow_proper {α : Type} {I : Machine → Prop} {r : Except SessionError α}
    (h : ∀ e, r = .error e → (Raised.session e).Own) : Proper I (orThrow r) := by
  cases r with
  | ok a => exact .pure a
  | error e => exact .throw (h e rfl)

theorem own_of_parsePolicy? {value : Option String} {origin : String} {e : SessionError}
    (h : parsePolicy? value origin = .error e) : (Raised.session e).Own := by
  unfold parsePolicy? parsePolicy at h
  split at h
  · contradiction
  · split at h
    · contradiction
    · cases h
      exact fun _ _ _ => nofun

theorem own_of_override {c : Config} {policy : Option Policy} {backend path : Option String}
    {e : SessionError} (h : c.override policy backend path = .error e) :
    (Raised.session e).Own := by
  unfold override at h
  split at h
  · contradiction
  · cases h
    exact fun _ _ _ => nofun

/-- The path of the configuration file: a given one, or the one in the configuration directory. -/
def pathOf (path : Option Path) (m : Machine) : Path :=
  path.getD (m.configPlace.child Machine.configFileName)

/-- Finding the configuration file prepares at most for a write to it, and fails only where the
configuration directory cannot be made. -/
theorem place_cases (path : Option Path) (m : Machine) :
    match place path m with
    | .ok p m₁ => p = pathOf path m ∧ ∃ d, m₁ = { m with disk := d } ∧ m.disk.Prepared p d
    | .error e m₁ => m₁ = m ∧ ∃ fault, e = .disk fault := by
  cases path with
  | some p => exact ⟨rfl, m.disk, rfl, .refl m.disk p⟩
  | none =>
    simp only [place, Machine.configPath, Act.bind_apply, Machine.configDirectory, Machine.made]
    cases hmade : m.disk.makeDirectories m.configPlace with
    | error fault => exact ⟨rfl, fault, rfl⟩
    | ok d =>
      refine ⟨rfl, d, rfl, .of_makeDirectories ?_⟩
      rw [Path.parent_child, hmade]

/-- Loading from a path reads the file there. -/
theorem load_some (p : Path) (m : Machine) :
    load (some p) m = match read p m.disk with
      | .ok c => .ok c m
      | .error e => .error e m := by
  simp only [load, place, Act.bind_apply, Act.get_apply, Pure.pure, EStateM.pure]
  cases read p m.disk <;> rfl

/-- Once a configuration file has been found, it is loaded from its path. -/
theorem load_eq {path : Option Path} {p : Path} {m m₁ : Machine}
    (h : place path m = .ok p m₁) : load path m = load (some p) m₁ := by
  rw [load_some, load, Act.bind_apply, h]
  simp only [Act.bind_apply, Act.get_apply]
  cases read p m₁.disk <;> rfl

/-- The path that is given is found where the home directory is known. -/
theorem overridePath_cases (o : Overrides) (m : Machine) :
    match overridePath o m with
    | .ok _ m₁ => m₁ = m
    | .error e m₁ => m₁ = m ∧ e = .noHome := by
  unfold overridePath
  cases o.config with
  | none => rfl
  | some s =>
    dsimp only
    by_cases hs : s.isEmpty = true
    · rw [if_pos hs]
    · rw [if_neg hs]
      cases hexpand : m.expandHome (.ofText s) with
      | ok p => rfl
      | error e => exact ⟨rfl, Machine.of_expandHome_eq_error hexpand⟩

/-- The configuration file that overrides choose. -/
def locate (o : Overrides) : Act Machine Path := do place (← overridePath o)

/-- It is found as the file of a path that is given or not. -/
theorem locate_eq {o : Overrides} {m : Machine} {path : Option Path}
    (h : overridePath o m = .ok path m) : locate o m = place path m := by
  rw [locate, Act.bind_apply, h]

/-- Finding it prepares at most for a write to it, and fails only where the home directory is not
known or the configuration directory cannot be made. -/
theorem locate_cases (o : Overrides) (m : Machine) :
    match locate o m with
    | .ok p m₁ => ∃ d, m₁ = { m with disk := d } ∧ m.disk.Prepared p d
    | .error e m₁ => m₁ = m ∧ (e = .noHome ∨ ∃ fault, e = .disk fault) := by
  have hpath := overridePath_cases o m
  cases hgiven : overridePath o m with
  | error e m₁ =>
    rw [hgiven] at hpath
    rw [locate, Act.bind_apply, hgiven]
    exact ⟨hpath.1, .inl hpath.2⟩
  | ok path m₁ =>
    rw [hgiven] at hpath
    obtain rfl := hpath
    have hplace := place_cases path m₁
    rw [locate_eq hgiven]
    generalize place path m₁ = r at hplace ⊢
    cases r with
    | ok p m₂ => exact hplace.2
    | error e m₂ => exact ⟨hplace.1, .inr hplace.2⟩

/-- Finding the effective configuration. -/
theorem resolve_proper (o : Overrides) : Proper (Machine.HasFiles files) (resolve o) := by
  refine (overridePath_proper o).bind fun path => (load_proper path).bind fun c => ?_
  refine Proper.get.bind fun m => ?_
  refine (orThrow_proper fun _ => own_of_parsePolicy?).bind fun fromEnvironment => ?_
  refine (orThrow_proper fun _ => own_of_parsePolicy?).bind fun fromCommand => ?_
  exact orThrow_proper fun _ => own_of_override

/-- Finding the place of the storage. -/
theorem storagePath_proper (s : StorageConfig) :
    Proper (Machine.HasFiles files) (storagePath s) := by
  unfold storagePath
  cases s.path.bind Text.nonempty? with
  | none => exact (Machine.made_proper Machine.dataPlace).bind fun _ => .pure _
  | some text =>
    refine Proper.get.bind fun m => ?_
    cases hexpand : m.expandHome (.ofText text) with
    | ok p => exact .pure p
    | error e => exact .throw (Machine.own_of_expandHome hexpand)

/-- A configuration that is not found leaves every file as it is, and the error is its own. -/
theorem of_resolve_eq_error {o : Overrides} {m m' : Machine} {e : Raised}
    (h : resolve o m = .error e m') :
    (∀ place, m'.disk.bytesAt? place = m.disk.bytesAt? place) ∧ e.Own := by
  have hfiles : Machine.HasFiles m.disk.bytesAt? m := fun _ => rfl
  have hend := resolve_proper o m hfiles
  rwa [h] at hend

/-- Where a session file is found, every file is as it was. -/
theorem of_openBackend_eq_file {o : Overrides} {m m' m'' : Machine} {c : Config} {p : Path}
    (hresolve : resolve o m = .ok c m') (hopen : c.openBackend m' = .ok (.file p) m'')
    (place : List String) : m''.disk.bytesAt? place = m.disk.bytesAt? place := by
  have hfiles : Machine.HasFiles m.disk.bytesAt? m := fun _ => rfl
  have hfound := resolve_proper o m hfiles
  rw [hresolve] at hfound
  unfold openBackend at hopen
  cases hbackend : c.storage.backend with
  | memory =>
    simp only [hbackend] at hopen
    cases hopen
  | cache =>
    simp only [hbackend] at hopen
    obtain ⟨q, m₁, -, hcache⟩ := Act.bind_eq_ok.mp hopen
    unfold openCache at hcache
    split at hcache <;> cases hcache
  | file =>
    simp only [hbackend] at hopen
    obtain ⟨q, m₁, hpath, hpure⟩ := Act.bind_eq_ok.mp hopen
    have hend := storagePath_proper c.storage m' hfound
    rw [hpath] at hend
    cases hpure
    exact hend place

end Config

end Looking

end BearerSession
