import BearerSession.Config.Resolve
import BearerSession.Config.Storage
import BearerSession.Config.Update
import BearerSession.Proofs.Durable.Veiled

/-!
# Configuration next to tokens

No setting of a configuration has the name of a token. So on machines of which files differ in
tokens alone the same configuration is found, wherever its file is; its storage is opened alike, and
settings are changed alike.
-/

namespace BearerSession

/-- Machines of which files differ at most in tokens, but for what a failing disk has cut off beside
the session file. -/
structure Machine.Veiled (session : Option Path) (m m' : Machine) : Prop where
  /-- Their disks differ in tokens of session files. -/
  disk : m.disk.Alike (SessionFile.VeiledBeside session) m'.disk
  /-- All else is the same. -/
  rest : m' = { m with disk := m'.disk }

namespace Machine

variable {m m' : Machine}

/-- A machine with another disk. -/
def withDisk (m : Machine) (d : Disk) : Machine := { m with disk := d }

/-- What stands for the home directory does not depend on the disk. -/
theorem expandHome_withDisk (m : Machine) (d : Disk) : (m.withDisk d).expandHome = m.expandHome :=
  rfl

/-- Machines differ in tokens when one is the other with a disk that does. -/
theorem Veiled.withDisk {session : Option Path} {d d' : Disk}
    (h : d.Alike (SessionFile.VeiledBeside session) d') (m : Machine) :
    Veiled session (m.withDisk d) (m.withDisk d') :=
  ⟨h, rfl⟩

/-- Where nothing has been cut off, it does not matter which file is that of the session. -/
theorem Veiled.beside (h : Veiled none m m') (session : Option Path) : Veiled session m m' :=
  ⟨h.disk.mono fun _ _ _ _ hsame => .inl (SessionFile.veiledBeside_none.mp hsame), h.rest⟩

/-- Computations keep in step on machines that differ in tokens when they do on each machine with
disks that do. -/
theorem inStep_of {α β : Type} {f : Act Machine α} {g : Act Machine β} {same : α → β → Prop}
    (h : ∀ (m : Machine) (d d' : Disk), d.Alike (SessionFile.VeiledBeside none) d' →
      Outcomes (Veiled none) same (f (m.withDisk d)) (g (m.withDisk d'))) :
    InStep (Veiled none) f g same := by
  rintro m m' ⟨hdisk, hrest⟩
  rw [hrest]
  exact h m m.disk m'.disk hdisk

/-- Directories are made in step. -/
theorem made_inStep (place : Machine → Path)
    (hplace : ∀ (m : Machine) (d : Disk), place (m.withDisk d) = place m) :
    InStep (Veiled none) (fun m => made (place m) m) (fun m => made (place m) m) Eq := by
  refine inStep_of fun m d d' h => ?_
  have hmade := h.makeDirectories (place m)
  rw [hplace, hplace]
  unfold made
  dsimp only [withDisk]
  generalize d.makeDirectories (place m) = r at hmade ⊢
  generalize d'.makeDirectories (place m) = r' at hmade ⊢
  cases hmade with
  | error e => exact .error _ (.withDisk h m)
  | ok hmade => exact .ok rfl (.withDisk hmade m)

/-- So is the directory of the configuration, and its file named. -/
theorem configPath_inStep : InStep (Veiled none) configPath configPath Eq :=
  (made_inStep configPlace fun _ _ => rfl).andThen fun _ => .pure rfl

theorem dataDirectory_inStep : InStep (Veiled none) dataDirectory dataDirectory Eq :=
  made_inStep dataPlace fun _ _ => rfl

end Machine

namespace Config

open Machine (withDisk expandHome_withDisk inStep_of)

/-- No setting has the name of a token, so tokens do not matter to a configuration. -/
theorem ofEntries_veiled {entries entries' : List (String × Value)}
    (h : Value.AlikeMaps Value.Veiled entries entries') :
    ofEntries entries = ofEntries entries' := by
  have hfind {key : String} (hkey : ¬ CellName.IsTokenKey key) :
      Value.find? entries key = Value.find? entries' key := by
    have halike := h key
    generalize Value.find? entries key = v at halike ⊢
    generalize Value.find? entries' key = v' at halike ⊢
    cases halike with
    | none => rfl
    | some hv =>
      rcases hv with rfl | ⟨htoken, -⟩
      · rfl
      · exact absurd htoken hkey
  have hsetting (key : String) (hkey : key ≠ "access_token" ∧ key ≠ "id_token") :
      ¬ CellName.IsTokenKey key := by
    rintro ⟨n, hn, rfl⟩
    obtain rfl | rfl := CellName.eq_of_mem_tokens hn
    · exact hkey.1 rfl
    · exact hkey.2 rfl
  unfold ofEntries
  simp only [hfind (hsetting "app_id" (by decide)), hfind (hsetting "app_version" (by decide)),
    hfind (hsetting "default_persistence_policy" (by decide)),
    hfind (hsetting "storage" (by decide)), hfind (hsetting "authorization_timeout" (by decide)),
    hfind (hsetting "share_inflight_outcome" (by decide))]

/-- Files that differ in tokens are the same configuration. -/
theorem decode_veiled {bytes bytes' : List UInt8} (h : SessionFile.Veiled bytes bytes') :
    decode bytes = decode bytes' := by
  rcases h with rfl | ⟨entries, entries', ⟨cs, hdecode, hread⟩, ⟨cs', hdecode', hread'⟩, halike⟩
  · rfl
  · simp only [decode, hdecode, hread, hdecode', hread', ofValue, ofEntries_veiled halike]

/-- Configurations are read the same. -/
theorem read_veiled {d d' : Disk} (h : d.Alike (SessionFile.VeiledBeside none) d') (p : Path) :
    read p d = read p d' := by
  have hbytes := SessionFile.bytes?_veiled h p
  unfold read
  generalize d.bytes? p = b at hbytes ⊢
  generalize d'.bytes? p = b' at hbytes ⊢
  cases hbytes with
  | none => rfl
  | some hbytes => simp only [decode_veiled hbytes]

theorem place_inStep (path : Option Path) :
    InStep (Machine.Veiled none) (place path) (place path) Eq := by
  cases path with
  | none => exact Machine.configPath_inStep
  | some p => exact .pure rfl

theorem load_inStep (path : Option Path) :
    InStep (Machine.Veiled none) (load path) (load path) Eq := by
  refine (place_inStep path).andThen fun p => inStep_of fun m d d' h => ?_
  rw [Act.bind_apply, Act.bind_apply, Act.get_apply, Act.get_apply]
  dsimp only [withDisk]
  rw [read_veiled h p]
  cases read p d' with
  | ok c => exact .ok rfl (.withDisk h m)
  | error e => exact .error e (.withDisk h m)

theorem overridePath_inStep (o : Overrides) :
    InStep (Machine.Veiled none) (overridePath o) (overridePath o) Eq := by
  refine inStep_of fun m d d' h => ?_
  unfold overridePath
  cases o.config with
  | none => exact .ok rfl (.withDisk h m)
  | some s =>
    dsimp only
    split
    · exact .ok rfl (.withDisk h m)
    · rw [expandHome_withDisk, expandHome_withDisk]
      cases m.expandHome (.ofText s) with
      | ok p => exact .ok rfl (.withDisk h m)
      | error e => exact .error e (.withDisk h m)

theorem orThrow_inStep {α : Type} (r : Except SessionError α) :
    InStep (Machine.Veiled none) (orThrow r) (orThrow r) Eq := by
  cases r with
  | ok a => exact .pure rfl
  | error e => exact .throw _

/-- The effective configuration is found in step. -/
theorem resolve_inStep (o : Overrides) :
    InStep (Machine.Veiled none) (resolve o) (resolve o) Eq := by
  refine (overridePath_inStep o).andThen fun path => (load_inStep path).andThen fun c => ?_
  refine inStep_of fun m d d' h => ?_
  rw [Act.bind_apply, Act.bind_apply, Act.get_apply, Act.get_apply]
  exact ((orThrow_inStep _).andThen fun fromEnvironment => (orThrow_inStep _).andThen
    fun fromCommand => orThrow_inStep _) (m.withDisk d) (m.withDisk d') (.withDisk h m)

theorem storagePath_inStep (s : StorageConfig) :
    InStep (Machine.Veiled none) (storagePath s) (storagePath s) Eq := by
  unfold storagePath
  cases s.path.bind Text.nonempty? with
  | none => exact Machine.dataDirectory_inStep.andThen fun _ => .pure rfl
  | some text =>
    dsimp only
    refine inStep_of fun m d d' h => ?_
    rw [Act.bind_apply, Act.bind_apply, Act.get_apply, Act.get_apply]
    dsimp only
    rw [expandHome_withDisk, expandHome_withDisk]
    cases m.expandHome (.ofText text) with
    | ok p => exact .ok rfl (.withDisk h m)
    | error e => exact .error e (.withDisk h m)

theorem openCache_inStep (p : Path) :
    InStep (Machine.Veiled none) (openCache p) (openCache p) Eq := by
  refine inStep_of fun m d d' h => ?_
  have hconnect := h.connect (fun _ _ => .inl (.inl rfl)) p
  unfold openCache
  dsimp only [withDisk]
  generalize CacheDirectory.connect p d = r at hconnect ⊢
  generalize CacheDirectory.connect p d' = r' at hconnect ⊢
  cases hconnect with
  | error e => exact .error e (.withDisk h m)
  | ok hnext => exact .ok rfl (.withDisk hnext m)

/-- The storage of a configuration is opened in step. -/
theorem openBackend_inStep (c : Config) :
    InStep (Machine.Veiled none) c.openBackend c.openBackend Eq := by
  unfold openBackend
  cases c.storage.backend with
  | memory => exact .pure rfl
  | file => exact (storagePath_inStep _).andThen fun _ => .pure rfl
  | cache => exact (storagePath_inStep _).andThen fun p => openCache_inStep p

theorem save_inStep (c : Config) (path : Option Path) :
    InStep (Machine.Veiled none) (save c path) (save c path) Eq := by
  refine (place_inStep path).andThen fun p => inStep_of fun m d d' h => ?_
  have hsame (faults : DiskFaults) (place : List String) (bytes : List UInt8) :
      SessionFile.VeiledBeside none faults place bytes bytes := .inl (.inl rfl)
  obtain ⟨herror, halike⟩ := h.writeAtomically (p := p) (fun _ => hsame ..)
    (fun _ => hsame _ _ c.encode) (fun _ _ _ _ => hsame ..) none
  unfold Machine.onDisk
  dsimp only [withDisk]
  generalize d.writeAtomically p c.encode none = r at herror halike ⊢
  generalize d'.writeAtomically p c.encode none = r' at herror halike ⊢
  obtain ⟨error, e⟩ := r
  obtain ⟨error', e'⟩ := r'
  obtain rfl : error = error' := herror
  cases error with
  | none => exact .ok rfl (.withDisk halike m)
  | some _ => exact .error _ (.withDisk halike m)

/-- A setting is changed in step. -/
theorem set_inStep (path : Option Path) (key value : String) :
    InStep (Machine.Veiled none) (set path key value) (set path key value) Eq := by
  refine (load_inStep path).andThen fun c => ?_
  cases Setting.ofKey key with
  | error e => exact .throw _
  | ok s =>
    dsimp only
    cases c.change s key value with
    | error e => exact .throw _
    | ok changed => exact (save_inStep _ path).andThen fun _ => .pure rfl

end Config

end BearerSession
