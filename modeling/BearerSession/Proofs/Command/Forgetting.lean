import BearerSession.Proofs.Command.OnFile
import BearerSession.Proofs.Command.Streams

/-!
# Forgotten tokens stay away

Each command opens the session file anew, under whatever policy it finds there or is told. Once a
command has forgotten the tokens or given up keeping them, and has said so by its exit code, the
file is that of an installation without tokens. This is what every later command finds and leaves:
no command writes a token, and a policy that keeps tokens finds none to keep.
-/

namespace BearerSession

/-- What raises leaves the outcome, and what does not decides on it. -/
theorem Act.after_mapExcept {σ α β : Type} (f : Act σ α) (g : α → Except Raised β) (s : σ) :
    (f.mapExcept g).after s = f.after s := by
  unfold after mapExcept
  cases f s with
  | error e t => rfl
  | ok a t => cases hg : g a <;> simp only [hg]

/-- An answer that is found was found before it became another one. -/
theorem Act.of_mapExcept_eq_ok {σ α β : Type} {f : Act σ α} {g : α → Except Raised β} {s t : σ}
    {b : β} (h : f.mapExcept g s = .ok b t) : ∃ a, f s = .ok a t := by
  unfold mapExcept at h
  cases hf : f s with
  | error e u => simp [hf] at h
  | ok a u =>
    cases hg : g a with
    | error e => simp [hf, hg] at h
    | ok b' =>
      simp only [hf, hg] at h
      cases h
      exact ⟨a, rfl⟩

/-- A proper computation stays proper when its values become others properly. -/
theorem Act.Proper.mapExcept {σ α β : Type} {I : σ → Prop} {f : Act σ α} (hf : Proper I f)
    {g : α → Except Raised β} (hg : ∀ a e, g a = .error e → e.Own) : Proper I (f.mapExcept g) := by
  intro s hs
  have hend := hf s hs
  unfold Act.mapExcept
  generalize f s = r at hend ⊢
  cases r with
  | error e t => exact hend
  | ok a t =>
    dsimp only
    cases hga : g a with
    | ok b => exact hend
    | error e => exact ⟨hend, hg a e hga⟩

/-- States that are left by computations in step correspond. -/
theorem InStep.after {σ τ α β : Type} {R : σ → τ → Prop} {f : Act σ α} {g : Act τ β}
    {same : α → β → Prop} (h : InStep R f g same) {s : σ} {t : τ} (hs : R s t) :
    R (f.after s) (g.after t) := by
  have hend := h s t hs
  unfold Act.after
  generalize f s = r at hend ⊢
  generalize g t = r' at hend ⊢
  cases hend with
  | ok _ hs => exact hs
  | error _ hs => exact hs

/-- They raise together. -/
theorem InStep.raises_eq {σ τ α β : Type} {R : σ → τ → Prop} {f : Act σ α} {g : Act τ β}
    {same : α → β → Prop} (h : InStep R f g same) {s : σ} {t : τ} (hs : R s t) :
    f.raises s = g.raises t := by
  have hend := h s t hs
  unfold Act.raises
  generalize f s = r at hend ⊢
  generalize g t = r' at hend ⊢
  cases hend <;> rfl

/-- A file goes on standing for a memory when the storage is closed, and holds what it does. -/
theorem Workplace.Standing.forgotten {p : Path} {w : Workplace} {mem : Memory}
    (h : Standing p w mem) (htokens : Tokenless (LawfulDurable.value? mem)) {ids : Identities}
    (hids : ids.Stored mem) : SessionFile.Forgotten (w.close.machine.disk.bytes? p) := by
  obtain ⟨base, d, rfl, hfile⟩ := h
  exact hfile.forgotten htokens hids

namespace Command

open SessionFile (Forgotten)

/-- An error of the program's own does not end a command with success. -/
theorem reportCode_ne_success {e : Raised} (h : e.Own) (output : Output) :
    reportCode output e ≠ success := by
  have hkind (k : ErrorKind) : k.exitCode ≠ success := by cases k <;> decide
  cases e with
  | session e =>
    unfold reportCode
    dsimp only
    split
    · unfold exitCodeOf SessionError.exitCode
      dsimp only
      split
      · exact absurd rfl (h _ _ _)
      · exact hkind _
    · exact hkind .session
  | _ => exact hkind .session

/-- Whether a task forgets the tokens or gives up keeping them. -/
def Task.Forgets (task : Task) : Prop := task = .clear ∨ task = .setPolicy .never

/-- What a task makes of a session. -/
def Task.changed {σ : Type} [Durable σ] (s : Session σ) : Task → Session σ
  | .clear => Effect.clear.apply s
  | .setPolicy p => (Effect.setPolicy p).apply s
  | _ => s

/-- Whether what a task does to a session raises. -/
def Task.raises {σ : Type} [Durable σ] (s : Session σ) : Task → Bool
  | .clear => Session.clearAuthorization.raises s
  | .setPolicy p => (Session.setPolicy p).raises s
  | _ => false

section Changed

variable {task : Task} {use : Act (Session Workplace) Answer}

/-- Looking for the status of a session leaves it as it is. -/
theorem after_cachedEntries (s : Session Workplace) : cachedEntries.after s = s := by
  have hidentity (kind : IdentityKind) : Anyhow (fun t : Session Workplace => t = s)
      (Session.identity kind) (fun _ t => t = s) fun t => t = s := by
    refine anyhow_iff.mpr fun t ht => ?_
    unfold Session.identity
    cases (t.store.cell (Session.identityCell kind)).getAsMap with
    | error e => exact ht
    | ok entries =>
      dsimp only
      cases (Identity.ofGiven (.map entries) : Except _ (Identity kind)) <;> exact ht
  have hread {α : Type} (k : Session Workplace → α) :
      Anyhow (fun t : Session Workplace => t = s) (do return k (← get)) (fun _ t => t = s)
        fun t => t = s :=
    anyhow_iff.mpr fun t ht => ht
  have hstatus : Anyhow (fun t : Session Workplace => t = s) cachedEntries (fun _ t => t = s)
      fun t => t = s := by
    refine .bind (hidentity .user) fun user => .bind (Session.anyhow_get _ _) fun clientId => ?_
    refine .bind (hread _) fun policy => .bind (hread _) fun authorized => ?_
    exact .bind (hidentity .device) fun device => .pure (Q := fun _ t => t = s) _
  exact hstatus.after rfl

theorem after_inSession (huse : task.inSession? = some use) (s : Session Workplace) :
    use.after s = task.changed s := by
  cases task with
  | status =>
    obtain rfl := Option.some.inj huse
    exact (Act.after_mapExcept _ _ s).trans (after_cachedEntries s)
  | identity kind =>
    obtain rfl := Option.some.inj huse
    refine (Act.after_mapExcept _ _ s).trans ?_
    unfold Act.after Session.identity
    cases (s.store.cell (Session.identityCell kind)).getAsMap with
    | error e => rfl
    | ok entries =>
      dsimp only
      cases (Identity.ofGiven (.map entries) : Except _ (Identity kind)) <;> rfl
  | header =>
    obtain rfl := Option.some.inj huse
    exact Act.after_mapExcept _ _ s
  | showPolicy =>
    obtain rfl := Option.some.inj huse
    exact Act.after_mapExcept _ _ s
  | clear =>
    obtain rfl := Option.some.inj huse
    exact Act.after_mapExcept _ _ s
  | setPolicy p =>
    obtain rfl := Option.some.inj huse
    exact Act.after_mapExcept _ _ s
  | _ => contradiction

/-- An answer is found where nothing raises. -/
theorem of_inSession_eq_ok (huse : task.inSession? = some use) {s t : Session Workplace}
    {a : Answer} (h : use s = .ok a t) : task.raises s = false ∧ t = task.changed s := by
  have hafter := after_inSession huse s
  rw [Act.after, h] at hafter
  refine ⟨?_, hafter⟩
  cases task with
  | clear =>
    obtain rfl := Option.some.inj huse
    obtain ⟨_, hclear⟩ := Act.of_mapExcept_eq_ok h
    simp only [Task.raises, Act.raises, hclear]
  | setPolicy p =>
    obtain rfl := Option.some.inj huse
    obtain ⟨_, hset⟩ := Act.of_mapExcept_eq_ok h
    simp only [Task.raises, Act.raises, hset]
  | _ => rfl

/-- A task does the same to sessions that correspond. -/
theorem changed_inStep {l : Likeness} {σ τ : Type} [Durable σ] [Durable τ] {R : σ → τ → Prop}
    (hR : l.Storages R) (task : Task) {s : Session σ} {t : Session τ} (h : l.Sessions R s t) :
    task.raises s = task.raises t ∧ l.Sessions R (task.changed s) (task.changed t) := by
  cases task with
  | clear => exact ⟨hR.clearAuthorization.raises_eq h, hR.clearAuthorization.after h⟩
  | setPolicy p => exact ⟨(hR.setPolicy p).raises_eq h, (hR.setPolicy p).after h⟩
  | _ => exact ⟨rfl, h⟩

variable {σ : Type} [Durable σ] [LawfulDurable σ]

/-- No task brings tokens into a session. -/
theorem changed_forgotten (task : Task) {s : Session σ} (h : s.seen.Forgotten) :
    (task.changed s).seen.Forgotten := by
  cases task with
  | clear => exact Session.apply_forgotten h rfl
  | setPolicy p => exact Session.apply_forgotten h rfl
  | _ => exact h

/-- The identities of the installation stay. -/
theorem changed_identities (task : Task) {ids : Identities} {s : Session σ}
    (huse : ids.InUse s.store) (hstored : ids.Stored s.durable) :
    ids.Stored (task.changed s).durable := by
  cases task with
  | clear => exact (Identities.apply huse hstored .clear).2
  | setPolicy p => exact (Identities.apply huse hstored (.setPolicy p)).2
  | _ => exact hstored

/-- A task that forgets leaves no tokens in the storage, where it does not raise. -/
theorem changed_tokenless (hforgets : task.Forgets) {s : Session σ}
    (hs : Settled (fun _ => s.store.policy) s.store (LawfulDurable.value? s.durable))
    (h : task.raises s = false) : Tokenless (LawfulDurable.value? (task.changed s).durable) := by
  obtain rfl | rfl := hforgets
  · obtain ⟨_, hclear⟩ := Act.exists_eq_ok h
    exact (Snapshot.forgotten_iff.mp (Session.clearAuthorization_forgets hs.isAt hclear)).2.2
  · obtain ⟨_, hset⟩ := Act.exists_eq_ok h
    exact Session.setPolicy_never_tokenless hs hset

end Changed

section OnFile

variable {task : Task} {use : Act (Session Workplace) Answer} {m : Machine} {p : Path}

/-- A session on a file that has forgotten its tokens leaves such a file. -/
theorem after_onBackend_forgotten (huse : task.inSession? = some use) (c : Config)
    (hd : m.disk.Receives p) (h : Forgotten (m.disk.bytes? p)) :
    Forgotten (((onBackend c use (.file p)).after m).disk.bytes? p) := by
  obtain ⟨mem, hmirrors, htokens, ids, hids⟩ := h.mirrors hd
  -- what the session does to the file is followed on the memory for which the file stands
  have hopen := Workplace.openSession_standsFor (Workplace.standsFor_of_mirrors hmirrors) c
  have hforgotten := Session.openFor_forgotten (Workplace.describer m) c htokens
  have hinstalled := hids.openFor (Workplace.describer m) c
  unfold Act.after onBackend
  generalize Workplace.openSession c ⟨m, .file p⟩ = r at hopen ⊢
  generalize Session.openFor (Workplace.describer m).describe c mem = r'
    at hopen hforgotten hinstalled
  cases hopen with
  | error e hw =>
    obtain ⟨base, d, rfl, hfile⟩ := hw
    exact hfile.forgotten hforgotten hinstalled
  | @ok store store' w mem hstore hw =>
    obtain rfl := hstore.eq
    have hused := (changed_inStep (Workplace.storages_standing p) task
      (s := ⟨store, w⟩) (t := ⟨store, mem⟩) ⟨hstore, hw⟩).2
    have hleft := hused.2.forgotten
      (Snapshot.forgotten_iff.mp (changed_forgotten task (s := ⟨store, mem⟩) hforgotten)).2.2
      (changed_identities task (s := ⟨store, mem⟩) hinstalled.1 hinstalled.2)
    rw [← after_inSession huse ⟨store, w⟩] at hleft
    unfold Act.after at hleft
    dsimp only
    generalize use ⟨store, w⟩ = u at hleft ⊢
    cases u <;> exact hleft

/-- A task that forgets the tokens and succeeds on a file leaves one that has forgotten them,
whatever it has held before. -/
theorem forgotten_of_onBackend_eq_ok (hforgets : task.Forgets) (huse : task.inSession? = some use)
    {c : Config} (hd : m.disk.Receives p) {a : Answer} {m' : Machine}
    (h : onBackend c use (.file p) m = .ok a m') : Forgotten (m'.disk.bytes? p) := by
  unfold onBackend at h
  cases hstore : Workplace.openSession c ⟨m, .file p⟩ with
  | error e w => simp [hstore] at h
  | ok store w =>
    -- the file may have held anything, but a session over it is opened only if it can be loaded
    obtain ⟨values, hload⟩ := Workplace.exists_load_of_openSession hstore
    have hmirrors := SessionFile.mirrors_of_load hd hload
    have hopen := Workplace.openSession_standsFor (Workplace.standsFor_of_mirrors hmirrors) c
    rw [hstore] at h hopen
    generalize hmemory : Session.openFor (Workplace.describer m).describe c ⟨values, []⟩ = r
      at hopen
    cases hopen with
    | @ok _ store' _ mem hsame hw =>
      obtain rfl := hsame.eq
      obtain ⟨ids, hinuse, hstored⟩ := Identities.of_openFor (Workplace.describer m) hmemory
      have hsettled := Session.settled_of_openFor (Workplace.describer m) hmemory
      obtain ⟨hraises, hused⟩ := changed_inStep (Workplace.storages_standing p) task
        (s := ⟨store, w⟩) (t := ⟨store, mem⟩) ⟨hsame, hw⟩
      cases hok : use ⟨store, w⟩ with
      | error e s => simp [hok] at h
      | ok a' s =>
        simp only [hok] at h
        obtain ⟨hquiet, rfl⟩ := of_inSession_eq_ok huse hok
        cases h
        exact hused.2.forgotten
          (changed_tokenless hforgets (s := ⟨store, mem⟩) hsettled (hraises.symm.trans hquiet))
          (changed_identities task (s := ⟨store, mem⟩) hinuse hstored)

/-- On a file that has forgotten its tokens no header is found. -/
theorem header_of_forgotten (hd : m.disk.Receives p) (h : Forgotten (m.disk.bytes? p)) (c : Config)
    (huse : Task.inSession? .header = some use) :
    ∃ m', onBackend c use (.file p) m = .ok .noHeader m' := by
  obtain ⟨mem, hmirrors, htokens, ids, hids⟩ := h.mirrors hd
  obtain ⟨store, w, mem', hopen, hmemory, -⟩ :=
    Workplace.exists_openSession_eq_ok (Workplace.standsFor_of_mirrors hmirrors) hids c
  have hforgotten := Session.openFor_forgotten (Workplace.describer m) c htokens
  rw [hmemory] at hforgotten
  have hheader : store.header = none := hforgotten.header
  obtain rfl := Option.some.inj huse
  refine ⟨w.close.machine, ?_⟩
  simp only [onBackend, hopen, Act.mapExcept, Act.bind_apply, Act.get_apply, Pure.pure,
    EStateM.pure, hheader]
  rfl

/-- On the file of an installation the tokens can be forgotten. -/
theorem clear_onBackend (hd : m.disk.Receives p) {values : List (String × String)}
    (hload : SessionFile.load m.disk p = .ok values) {ids : Identities}
    (hids : ids.Stored (⟨values, []⟩ : Memory)) (c : Config)
    (huse : Task.inSession? .clear = some use) :
    ∃ m', onBackend c use (.file p) m = .ok (.confirmation "Authorization data cleared.") m' := by
  have hmirrors := SessionFile.mirrors_of_load hd hload
  obtain ⟨store, w, mem, hopen, -, hsessions⟩ :=
    Workplace.exists_openSession_eq_ok (Workplace.standsFor_of_mirrors hmirrors) hids c
  have hwilling : mem.refusals = [] := by
    obtain ⟨-, base, d, -, hfile⟩ := hsessions
    exact hfile.willing
  obtain ⟨t, hclear⟩ : ∃ t,
      Session.clearAuthorization (⟨store, mem⟩ : Session Memory) = .ok () t := by
    have hremove (n : CellName) {s : Session Memory} (hs : s.durable.refusals = []) :
        ∃ t : Session Memory, Session.clear n s = .ok () t ∧ t.durable.refusals = [] := by
      simp only [Session.clear, Session.change, Session.onCell, Cell.clear, Act.bind_apply,
        Memory.remove_eq_ok hs]
      exact ⟨_, rfl, hs⟩
    obtain ⟨s₁, haccess, hs₁⟩ := hremove .accessToken (s := ⟨store, mem⟩) hwilling
    obtain ⟨s₂, hid, hs₂⟩ := hremove .idToken hs₁
    obtain ⟨s₃, huser, -⟩ := hremove .user hs₂
    refine ⟨s₃, ?_⟩
    simp only [Session.clearAuthorization, Act.bind_apply, haccess, hid, huser]
  have hstep := (Workplace.storages_standing p).clearAuthorization _ _ hsessions
  rw [hclear] at hstep
  obtain rfl := Option.some.inj huse
  simp only [onBackend, hopen, Act.mapExcept]
  generalize Session.clearAuthorization (⟨store, w⟩ : Session Workplace) = r at hstep ⊢
  cases hstep with
  | ok _ _ => exact ⟨_, rfl⟩

/-- What a task that forgets the tokens raises on a file is its own. -/
theorem own_of_onBackend (hforgets : task.Forgets) (huse : task.inSession? = some use) {c : Config}
    {e : Raised} {m' : Machine} (h : onBackend c use (.file p) m = .error e m') : e.Own := by
  have huseProper : Act.Proper (Session.On fun w : Workplace => w.backend = .file p) use := by
    obtain rfl | rfl := hforgets
    · obtain rfl := Option.some.inj huse
      have hclear := Session.clearAuthorization_proper (Workplace.properStorage_file p)
      exact hclear.mapExcept fun _ _ => nofun
    · obtain rfl := Option.some.inj huse
      have hset := Session.setPolicy_proper (Workplace.properStorage_file p) .never
      exact hset.mapExcept fun _ _ => nofun
  have hopen := Workplace.openSession_proper p c ⟨m, .file p⟩ rfl
  unfold onBackend at h
  generalize Workplace.openSession c ⟨m, .file p⟩ = r at hopen h
  cases r with
  | error e' w =>
    cases h
    exact hopen.2
  | ok store w =>
    have hend := huseProper ⟨store, w⟩ hopen
    dsimp only at h
    generalize use ⟨store, w⟩ = u at hend h
    cases u with
    | ok a s => cases h
    | error e' s =>
      cases h
      exact hend.2

end OnFile

/-- A run of a command line on a machine. -/
structure CommandRun where
  /-- The command line. -/
  args : List String
  /-- What shows its output. -/
  display : Display
  /-- The machine. -/
  machine : Machine

namespace CommandRun

/-- How it ends. -/
def ending (r : CommandRun) : Ending := (run r.args r.display r.machine).1

/-- The machine that it leaves. -/
def left (r : CommandRun) : Machine := (run r.args r.display r.machine).2

/-- Whether its command line asks for a task, with settings for the session. -/
def Asks (r : CommandRun) (o : Overrides) (task : Task) : Prop :=
  ∃ wish, Invocation.ofArguments r.args = .ok (.perform o wish task)

/-- Whether a run works on a session file, and with what content it finds and leaves the file. Its
command line asks for something in a session. Where its configuration is found, it opens the session
on the file, on a disk on which the file can be written. Otherwise it gets to no file, so any file
may be meant. -/
inductive WorksOn (r : CommandRun) : Option (List UInt8) → Option (List UInt8) → Prop
  /-- The session is opened on the file. -/
  | onFile {o : Overrides} {task : Task} {c : Config} {m m' : Machine} {p : Path}
      (asks : r.Asks o task) (inSession : task.inSession?.isSome)
      (resolved : Config.resolve o r.machine = .ok c m)
      (opened : c.openBackend m = .ok (.file p) m') (receives : m'.disk.Receives p) :
      WorksOn r (r.machine.disk.bytesAt? (m'.disk.locate p)) (r.left.disk.bytes? p)
  /-- Its configuration is not found. -/
  | unresolved {o : Overrides} {task : Task} {e : Raised} {m : Machine}
      (asks : r.Asks o task) (inSession : task.inSession?.isSome)
      (raised : Config.resolve o r.machine = .error e m) (place : List String) :
      WorksOn r (r.machine.disk.bytesAt? place) (r.left.disk.bytesAt? place)

/-- Runs that work on one session file one after the other: each finds the content that the one
before it has left. In between, anything else may change. -/
def InTurn : Option (List UInt8) → List CommandRun → Option (List UInt8) → Prop
  | content, [], left => content = left
  | content, r :: rest, left => ∃ next, r.WorksOn content next ∧ InTurn next rest left

variable {r : CommandRun} {o : Overrides} {task : Task} {content left : Option (List UInt8)}

/-- A command line asks for one thing. -/
theorem Asks.unique {o' : Overrides} {task' : Task} (h : r.Asks o task) (h' : r.Asks o' task') :
    o = o' ∧ task = task' := by
  obtain ⟨wish, h⟩ := h
  obtain ⟨wish', h'⟩ := h'
  cases h.symm.trans h'
  exact ⟨rfl, rfl⟩

/-- A run ends as its task does. -/
theorem Asks.run_eq (h : r.Asks o task) :
    ∃ output said, Streams.out said = "" ∧
      (r.ending, r.left) = concluded output said (task.answer o r.machine) := by
  obtain ⟨wish, h⟩ := h
  exact ⟨_, _, out_said task, run_of_perform h r.display r.machine⟩

/-- It leaves the machine that its task does. -/
theorem Asks.left_eq (h : r.Asks o task) : r.left = (task.answer o).after r.machine := by
  obtain ⟨output, said, -, hrun⟩ := h.run_eq
  have hleft : r.left = (concluded output said (task.answer o r.machine)).2 :=
    congrArg Prod.snd hrun
  rw [hleft, machine_concluded, Act.after]
  cases task.answer o r.machine <;> rfl

/-- Runs one after the other can be parted anywhere. -/
theorem InTurn.parted {earlier later : List CommandRun}
    (h : InTurn content (earlier ++ later) left) :
    ∃ between, InTurn content earlier between ∧ InTurn between later left := by
  induction earlier generalizing content with
  | nil => exact ⟨content, rfl, h⟩
  | cons first rest ih =>
    obtain ⟨next, hfirst, hrest⟩ := h
    obtain ⟨between, hbefore, hafter⟩ := ih hrest
    exact ⟨between, ⟨next, hfirst, hbefore⟩, hafter⟩

/-- What a task answers in a session on a file. -/
theorem answer_onFile {use : Act (Session Workplace) Answer} (huse : task.inSession? = some use)
    {c : Config} {m m' : Machine} {p : Path} {start : Machine}
    (hresolve : Config.resolve o start = .ok c m) (hopen : c.openBackend m = .ok (.file p) m') :
    task.answer o start = onBackend c use (.file p) m' := by
  simp only [Task.answer, huse, Act.bind_apply, hresolve, onSession, hopen]

/-- Where its configuration is not found, a task raises what is wrong with it. -/
theorem answer_unresolved (hsession : task.inSession?.isSome) {e : Raised} {m start : Machine}
    (h : Config.resolve o start = .error e m) : task.answer o start = .error e m := by
  obtain ⟨use, huse⟩ := Option.isSome_iff_exists.mp hsession
  simp only [Task.answer, huse, Act.bind_apply, h]

/-- A task that raises an error of its own does not end with success. -/
theorem Asks.ne_success (h : r.Asks o task) {e : Raised} {m : Machine}
    (hanswer : task.answer o r.machine = .error e m) (he : e.Own) (streams : Streams) :
    r.ending ≠ .finished success streams := by
  obtain ⟨output, said, -, hrun⟩ := h.run_eq
  rw [hanswer] at hrun
  have hended : r.ending = reported output e said := congrArg Prod.fst hrun
  intro hend
  have hcode := reportCode_ne_success he output
  rw [← exitCode_reported output e said, ← hended, hend] at hcode
  exact hcode rfl

/-- A task that has only something without a bracket to confirm ends with success. -/
theorem Asks.exists_confirmed (h : r.Asks o task) {text : String} {m : Machine}
    (hanswer : task.answer o r.machine = .ok (.confirmation text) m) (htext : '[' ∉ text.toList) :
    ∃ streams, r.ending = .finished success streams := by
  obtain ⟨output, said, -, hrun⟩ := h.run_eq
  rw [hanswer] at hrun
  obtain ⟨streams, hconfirmed⟩ :=
    Command.exists_confirmed (confirms_confirmation text) htext output said m
  exact ⟨streams, (congrArg Prod.fst hrun).trans hconfirmed⟩

/-- Whatever is asked for, a file that has forgotten its tokens is left as one. -/
theorem WorksOn.forgotten (h : r.WorksOn content left) (hcontent : SessionFile.Forgotten content) :
    SessionFile.Forgotten left := by
  cases h with
  | @onFile o task c m m' p asks inSession resolved opened receives =>
    obtain ⟨use, huse⟩ := Option.isSome_iff_exists.mp inSession
    rw [← Config.of_openBackend_eq_file resolved opened,
      Disk.bytesAt?_locate _ receives.endsInName] at hcontent
    have hafter := after_onBackend_forgotten huse c receives hcontent
    rwa [asks.left_eq, Act.after, answer_onFile huse resolved opened]
  | @unresolved o task e m asks inSession raised place =>
    rw [asks.left_eq, Act.after, answer_unresolved inSession raised]
    rwa [← (Config.of_resolve_eq_error raised).1 place] at hcontent

/-- A run that forgets the tokens, and says so by its exit code, leaves a file that has forgotten
them. -/
theorem WorksOn.forgets (h : r.WorksOn content left) (hasks : r.Asks o task)
    (hforgets : task.Forgets) {streams : Streams} (hend : r.ending = .finished success streams) :
    SessionFile.Forgotten left := by
  cases h with
  | @onFile o' task' c m m' p asks inSession resolved opened receives =>
    obtain ⟨rfl, rfl⟩ := hasks.unique asks
    obtain ⟨use, huse⟩ := Option.isSome_iff_exists.mp inSession
    have hanswer := answer_onFile huse resolved opened
    rw [asks.left_eq, Act.after, hanswer]
    cases hused : onBackend c use (.file p) m' with
    | ok a end_ => exact forgotten_of_onBackend_eq_ok hforgets huse receives hused
    | error e end_ =>
      -- an error of a host's making could have the exit code of success
      exact absurd hend (asks.ne_success (hanswer.trans hused)
        (own_of_onBackend hforgets huse hused) streams)
  | @unresolved o' task' e m asks inSession raised place =>
    obtain ⟨rfl, rfl⟩ := hasks.unique asks
    exact absurd hend (asks.ne_success (answer_unresolved inSession raised)
      (Config.of_resolve_eq_error raised).2 streams)

/-- A header is asked for in vain on such a file. -/
theorem WorksOn.header (h : r.WorksOn content left) (hcontent : SessionFile.Forgotten content)
    (hasks : r.Asks o .header) {c : Config} {m : Machine}
    (hresolve : Config.resolve o r.machine = .ok c m) :
    ∃ err, r.ending = .finished 3 ⟨"", err⟩ := by
  cases h with
  | @onFile o' task' c' m m' p asks inSession resolved opened receives =>
    obtain ⟨rfl, rfl⟩ := hasks.unique asks
    obtain ⟨use, huse⟩ := Option.isSome_iff_exists.mp inSession
    rw [← Config.of_openBackend_eq_file resolved opened,
      Disk.bytesAt?_locate _ receives.endsInName] at hcontent
    obtain ⟨end_, hused⟩ := header_of_forgotten receives hcontent c' huse
    obtain ⟨output, said, hsaid, hrun⟩ := hasks.run_eq
    rw [answer_onFile huse resolved opened, hused] at hrun
    obtain ⟨out, err⟩ := said
    obtain rfl : out = "" := hsaid
    have hplain : '[' ∉ "No cached authorization header.".toList := by decide
    obtain ⟨shown, hshown⟩ := output.display.line_eq_ok output.colourless .error hplain
    simp only [concluded, Answer.write, Output.error, Output.say, hshown] at hrun
    exact ⟨_, congrArg Prod.fst hrun⟩
  | @unresolved o' task' e m asks inSession raised place =>
    obtain ⟨rfl, -⟩ := hasks.unique asks
    rw [raised] at hresolve
    contradiction

/-- Runs one after the other leave a file that has forgotten its tokens as one. -/
theorem InTurn.forgotten {runs : List CommandRun} (h : InTurn content runs left)
    (hcontent : SessionFile.Forgotten content) : SessionFile.Forgotten left := by
  induction runs generalizing content with
  | nil => exact h ▸ hcontent
  | cons first rest ih =>
    obtain ⟨next, hfirst, hrest⟩ := h
    exact ih hrest (hfirst.forgotten hcontent)

/-- Whatever a session file has held at first and whatever has been done before: once a command has
forgotten the tokens or set the policy to keep none, and has ended with success, the file is a JSON
object without tokens, after any commands that follow. And a command that asks for the header next
finds none, whatever policy has been set or is the default by then, so it ends with the exit code of
a missing header and writes no data. -/
theorem inTurn_staysForgotten {earlier later : List CommandRun} {streams : Streams}
    (hruns : InTurn content (earlier ++ r :: later) left) (hasks : r.Asks o task)
    (hforgets : task.Forgets) (hend : r.ending = .finished success streams) :
    (∃ bytes, left = some bytes ∧ SessionFile.HasNoTokens bytes) ∧
      ∀ (next : CommandRun) (o' : Overrides) (c : Config) (m : Machine)
        (after : Option (List UInt8)), next.WorksOn left after → next.Asks o' .header →
          Config.resolve o' next.machine = .ok c m →
            ∃ err, next.ending = .finished 3 ⟨"", err⟩ := by
  obtain ⟨found, -, between, hforgotten, hlater⟩ := hruns.parted
  have hleft := hlater.forgotten (hforgotten.forgets hasks hforgets hend)
  refine ⟨?_, fun next o' c m after hworks hheader hresolve =>
    hworks.header hleft hheader hresolve⟩
  obtain ⟨bytes, hbytes, hnone, -⟩ := hleft
  exact ⟨bytes, hbytes, hnone⟩

/-- A session file from which the tokens have been cleared has none, and later on none are shown,
even where the environment asks for tokens to be kept. -/
theorem clear_staysForgotten :
    let machine (bytes : List UInt8) (environment : List (String × String)) : Machine :=
      ⟨Disk.empty.put ["session.json"] (.file bytes Disk.privateMode), environment,
        ⟨"Linux", "", ""⟩, 0⟩
    let clear : CommandRun := ⟨["--storage-path", "/session.json", "clear"], .plain false,
      machine (SessionFile.encode [("access_token", "a"), ("app_identity", "{}"),
        ("device_identity", "{}"), ("id_token", "b")]) [("HOME", "/home")]⟩
    let header (bytes : List UInt8) : CommandRun :=
      ⟨["--storage-path", "/session.json", "header"], .plain false,
        machine bytes [("HOME", "/home"), ("AUTHSESSION_PERSISTENCE_POLICY", "ALWAYS")]⟩
    (∃ streams, clear.ending = .finished success streams) ∧
      ∃ bytes, clear.left.disk.bytes? ⟨"/", ["session.json"]⟩ = some bytes ∧
        SessionFile.HasNoTokens bytes ∧
        ∃ err, (header bytes).ending = .finished 3 ⟨"", err⟩ := by
  intro machine clear header
  let values : List (String × String) := [("access_token", "a"), ("app_identity", "{}"),
    ("device_identity", "{}"), ("id_token", "b")]
  have hkeyed : Value.Keyed values := by simp [Value.Keyed, values]
  have hasks : clear.Asks ⟨none, none, none, some "/session.json"⟩ .clear :=
    ⟨⟨none, false, false, false⟩, rfl⟩
  obtain ⟨c, m, m', hresolve, hopen, hreceives, hbytes⟩ : ∃ c m m',
      Config.resolve ⟨none, none, none, some "/session.json"⟩ clear.machine = .ok c m ∧
        c.openBackend m = .ok (.file ⟨"/", ["session.json"]⟩) m' ∧
        m'.disk.Receives ⟨"/", ["session.json"]⟩ ∧
        m'.disk.bytes? ⟨"/", ["session.json"]⟩ = some (SessionFile.encode values) :=
    ⟨_, _, _, rfl, rfl, ⟨rfl, _, rfl, rfl⟩, rfl⟩
  have hend : ∃ streams, clear.ending = .finished success streams := by
    obtain ⟨loaded, hdecode, hloaded⟩ := SessionFile.exists_decode_encode hkeyed
    have hload : SessionFile.load m'.disk ⟨"/", ["session.json"]⟩ = .ok loaded := by
      unfold SessionFile.load
      rw [hbytes]
      exact hdecode
    let ids : Identities := ⟨fun _ => "{}", fun _ => [], fun _ _ => rfl⟩
    have hids : ids.Stored (⟨loaded, []⟩ : Memory) := by
      intro n hn
      change Value.find? loaded n.key = some "{}"
      rw [hkeyed.find?_perm hloaded.symm]
      simp only [CellName.installation, List.mem_cons, List.not_mem_nil, or_false] at hn
      rcases hn with rfl | rfl <;> rfl
    obtain ⟨left, hclear⟩ := clear_onBackend hreceives hload hids c rfl
    exact hasks.exists_confirmed ((answer_onFile rfl hresolve hopen).trans hclear) (by decide)
  refine ⟨hend, ?_⟩
  obtain ⟨streams, hend⟩ := hend
  have hturn : InTurn _ ([] ++ clear :: []) _ :=
    ⟨_, .onFile hasks rfl hresolve hopen hreceives, rfl⟩
  obtain ⟨⟨bytes, hleft, hnone⟩, hnext⟩ := inTurn_staysForgotten hturn hasks (.inl rfl) hend
  refine ⟨bytes, hleft, hnone, ?_⟩
  rw [hleft] at hnext
  have hheader : (header bytes).Asks ⟨none, none, none, some "/session.json"⟩ .header :=
    ⟨⟨none, false, false, false⟩, rfl⟩
  obtain ⟨c, m, m', hresolve, hopen, hreceives, hbytes⟩ : ∃ c m m',
      Config.resolve ⟨none, none, none, some "/session.json"⟩ (header bytes).machine = .ok c m ∧
        c.openBackend m = .ok (.file ⟨"/", ["session.json"]⟩) m' ∧
        m'.disk.Receives ⟨"/", ["session.json"]⟩ ∧
        (header bytes).machine.disk.bytesAt? (m'.disk.locate ⟨"/", ["session.json"]⟩) =
          some bytes :=
    ⟨_, _, _, rfl, rfl, ⟨rfl, _, rfl, rfl⟩, rfl⟩
  have hworks := WorksOn.onFile hheader rfl hresolve hopen hreceives
  rw [hbytes] at hworks
  exact hnext _ _ c m _ hworks hheader hresolve

end CommandRun

end Command

end BearerSession
