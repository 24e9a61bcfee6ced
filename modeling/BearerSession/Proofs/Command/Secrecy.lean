import BearerSession.Output.Markup
import BearerSession.Proofs.Command.Answer
import BearerSession.Proofs.Config.Veiled
import BearerSession.Proofs.Credential.NotedAlongside

/-!
# Tokens stay out of sight

On two machines of which files differ in tokens alone, a command line runs to the same end: tokens
show neither in what is written, be it said or noted in the log, nor in the exit code, unless the
command line asks for the header. What carries this is that every step keeps in step on such
machines with its log, from the configuration over the session to the answer.
-/

namespace BearerSession

open Logged (Beside silent_inStep note_inStep)

/-- The session file of a backend, if there is one. -/
def Backend.file? : Backend → Option Path
  | .file p => some p
  | _ => none

namespace Workplace

variable {R : Mount → Mount → Prop} {l : Likeness}

/-- Workplaces that correspond as their mounts do, on machines that are the same but for the disk.
-/
def Over (R : Mount → Mount → Prop) (w w' : Workplace) : Prop :=
  R ⟨w.machine.disk, w.backend⟩ ⟨w'.machine.disk, w'.backend⟩ ∧
    w'.machine = { w.machine with disk := w'.machine.disk }

/-- Work on mounts keeps in step on workplaces too. -/
theorem onMount_inStep {α β : Type} {f : Act Mount α} {g : Act Mount β} {same : α → β → Prop}
    (h : InStep R f g same) : InStep (Over R) (onMount f) (onMount g) same := by
  rintro ⟨m, b⟩ ⟨m', b'⟩ ⟨hR, hrest⟩
  have hmount := h _ _ hR
  unfold onMount
  dsimp only at hmount hrest ⊢
  generalize f ⟨m.disk, b⟩ = r at hmount ⊢
  generalize g ⟨m'.disk, b'⟩ = r' at hmount ⊢
  cases hmount with
  | ok hab hR => exact .ok hab ⟨hR, by rw [hrest]⟩
  | error e hR => exact .error e ⟨hR, by rw [hrest]⟩

/-- So do their storages. -/
theorem storages_over (h : l.Storages R) : l.Storages (Over R) where
  read n := by
    intro w w' hw
    have hread := h.read n _ _ hw.1
    have hget (w : Workplace) :
        Durable.get n.key w = Durable.get n.key (Mount.mk w.machine.disk w.backend) := rfl
    unfold Durable.read at hread ⊢
    rw [hget w, hget w']
    generalize Durable.get n.key (Mount.mk w.machine.disk w.backend) = r at hread ⊢
    generalize Durable.get n.key (Mount.mk w'.machine.disk w'.backend) = r' at hread ⊢
    cases r with
    | ok v =>
      cases r' with
      | ok v' =>
        cases hread with
        | ok hv _ => exact .ok hv hw
      | error e => cases hread
    | error e =>
      cases r' with
      | ok v' => cases hread
      | error e' =>
        cases hread with
        | error _ _ => exact .error e hw
  set hv := onMount_inStep (h.set hv)
  remove n := onMount_inStep (h.remove n)

/-- They note the same when the mounts do. -/
theorem noting_over (h : l.NotingStorages R) : l.NotingStorages (Over R) where
  toStorages := storages_over h.toStorages
  notes _ _ hw := h.notes _ _ hw.1

/-- The device is described in step. -/
theorem describeDevice_inStep :
    InStep (l.Sessions (Over R)) describeDevice describeDevice Eq := by
  rintro ⟨store, m, b⟩ ⟨store', m', b'⟩ ⟨hstore, hR, hrest⟩
  dsimp only at hrest hstore
  generalize m'.disk = d' at hrest hR
  subst hrest
  unfold describeDevice
  dsimp only
  rw [hstore.cell_eq rfl]
  cases (store'.cell .device).get with
  | error e => exact .error e ⟨hstore, hR, rfl⟩
  | ok device =>
    unfold identifierFor
    dsimp only
    split
    · exact .ok rfl ⟨hstore, hR, rfl⟩
    · exact .ok rfl ⟨hstore, hR, rfl⟩

/-- Sessions are given the identities of the installation in step. -/
theorem loggedInstall_inStep (h : l.NotingStorages R) (c : Config) :
    InStep (Beside (l.Sessions (Over R))) (loggedInstall c) (loggedInstall c) Eq :=
  (silent_inStep describeDevice_inStep).andThen fun _ =>
    ((noting_over h).loggedSetIfAbsent rfl _ _).bind fun _ _ _ =>
      (noting_over h).loggedSetIfAbsent rfl _ _

end Workplace

namespace Mount

/-- A session file that differs in tokens is passed over for the same reason, or for none. -/
theorem notes_onFile {p : Path} {m m' : Mount} (h : OnFile p m m') :
    Noting.notes m = Noting.notes m' := by
  obtain ⟨d, b⟩ := m
  obtain ⟨d', b'⟩ := m'
  obtain ⟨halike, rfl, rfl⟩ := h
  have hbytes := SessionFile.bytes?_session_veiled halike
  change SessionFile.notes d p = SessionFile.notes d' p
  unfold SessionFile.notes
  generalize d.bytes? p = v at hbytes ⊢
  generalize d'.bytes? p = v' at hbytes ⊢
  cases hbytes with
  | none => rfl
  | some hveiled =>
    obtain rfl | ⟨entries, entries', ⟨cs, hdecode, hread⟩, ⟨cs', hdecode', hread'⟩, -⟩ := hveiled
    · rfl
    · simp only [Option.map_some, hdecode, hread, hdecode', hread']

/-- Other backends note nothing. -/
theorem notes_offFile {m m' : Mount} (h : OffFile m m') : Noting.notes m = Noting.notes m' := by
  obtain ⟨d, b⟩ := m
  obtain ⟨d', b'⟩ := m'
  obtain ⟨-, rfl, hfile⟩ := h
  cases b with
  | file p => exact absurd rfl (hfile p)
  | _ => rfl

/-- Each backend has storages that keep in step on disks that differ in tokens. -/
theorem exists_storages (b : Backend) :
    ∃ (l : Likeness) (R : Mount → Mount → Prop), l.NotingStorages R ∧
      (∀ d d' : Disk, d.Alike (SessionFile.VeiledBeside none) d' → R ⟨d, b⟩ ⟨d', b⟩) ∧
      ∀ m m', R m m' →
        m.disk.Alike (SessionFile.VeiledBeside b.file?) m'.disk ∧ m.backend = m'.backend := by
  by_cases hfile : ∃ p, b = .file p
  · obtain ⟨p, rfl⟩ := hfile
    refine ⟨.veiled, OnFile p, ⟨storages_onFile p, fun _ _ => notes_onFile⟩, fun _ _ h => ?_,
      fun _ _ h => ⟨h.1, h.2.1.trans h.2.2.symm⟩⟩
    exact ⟨h.mono fun _ _ _ _ hsame => .inl (SessionFile.veiledBeside_none.mp hsame), rfl, rfl⟩
  · have hnone : b.file? = none := by
      cases b with
      | file p => exact absurd ⟨p, rfl⟩ hfile
      | _ => rfl
    rw [hnone]
    exact ⟨.exact, OffFile, ⟨storages_offFile, fun _ _ => notes_offFile⟩,
      fun _ _ h => ⟨h, rfl, fun p hp => hfile ⟨p, hp⟩⟩, fun _ _ h => ⟨h.1, h.2.1⟩⟩

/-- What a backend holds is released in the same way. -/
theorem close_alike {same : DiskFaults → List String → List UInt8 → List UInt8 → Prop}
    {d d' : Disk} (h : d.Alike same d') (b : Backend) :
    (close ⟨d, b⟩).disk.Alike same (close ⟨d', b⟩).disk := by
  cases b with
  | memory memory => exact h
  | file p => exact h
  | cache p connected busy =>
    cases connected with
    | true => exact h.disconnect p
    | false => exact h

end Mount

/-- What becomes of the same answer is the same. -/
theorem InStep.mapExcept {σ τ α β : Type} {R : σ → τ → Prop} {f : Act σ α} {g : Act τ α}
    (hf : InStep R f g Eq) (k : α → Except Raised β) :
    InStep R (f.mapExcept k) (g.mapExcept k) Eq := by
  intro s t hs
  have h := hf s t hs
  unfold Act.mapExcept
  generalize f s = r at h ⊢
  generalize g t = r' at h ⊢
  cases h with
  | error e hs => exact .error e hs
  | @ok a b s t hab hs =>
    obtain rfl := hab
    dsimp only
    cases k a with
    | ok b => exact .ok rfl hs
    | error e => exact .error e hs

namespace Command

/-- What is done in a session over one backend is done in step. -/
theorem loggedOnBackend_veiled {α : Type} {use : Act (Logged (Session Workplace)) α}
    (huse : ∀ {l : Likeness} {R : Workplace → Workplace → Prop}, l.NotingStorages R →
      InStep (Beside (l.Sessions R)) use use Eq) (c : Config) (b : Backend) {s s' : Logged Machine}
    (h : Beside (Machine.Veiled none) s s') :
    Outcomes (Beside (Machine.Veiled b.file?)) Eq (loggedOnBackend c use b s)
      (loggedOnBackend c use b s') := by
  -- a session file may differ in its tokens, any other backend in nothing
  obtain ⟨l, R, hR, hdisk, hmount⟩ := Mount.exists_storages b
  obtain ⟨m, log⟩ := s
  obtain ⟨m', log'⟩ := s'
  obtain ⟨⟨halike, hrest⟩, hlog⟩ := h
  have hveiled {w w' : Workplace} (hw : Workplace.Over R w w') :
      Machine.Veiled b.file? w.machine w'.machine :=
    ⟨(hmount _ _ hw.1).1, hw.2⟩
  have hclosed {w w' : Workplace} (hw : Workplace.Over R w w') :
      Machine.Veiled b.file? w.close.machine w'.close.machine := by
    obtain ⟨hdisk, hbackend⟩ := hmount _ _ hw.1
    have hclose := Mount.close_alike hdisk w.backend
    refine ⟨?_, ?_⟩
    · change (Mount.close ⟨w.machine.disk, w.backend⟩).disk.Alike _
        (Mount.close ⟨w'.machine.disk, w'.backend⟩).disk
      rw [← show w.backend = w'.backend from hbackend]
      exact hclose
    · unfold Workplace.close
      rw [hw.2]
  have hopened : InStep (Beside (l.Sessions (Workplace.Over R)))
      (do Session.loggedRestoreAll; Workplace.loggedInstall c)
      (do Session.loggedRestoreAll; Workplace.loggedInstall c) Eq :=
    (Workplace.noting_over hR).loggedRestoreAll.bind fun _ _ _ =>
      Workplace.loggedInstall_inStep hR c
  have hend := hopened ⟨⟨.blank c.policy, ⟨m, b⟩⟩, log⟩ ⟨⟨.blank c.policy, ⟨m', b⟩⟩, log'⟩
    ⟨⟨.blank c.policy, hdisk _ _ halike, hrest⟩, hlog⟩
  unfold loggedOnBackend
  dsimp only
  generalize (do Session.loggedRestoreAll; Workplace.loggedInstall c :
    Act (Logged (Session Workplace)) Unit) ⟨⟨.blank c.policy, ⟨m, b⟩⟩, log⟩ = r at hend ⊢
  generalize (do Session.loggedRestoreAll; Workplace.loggedInstall c :
    Act (Logged (Session Workplace)) Unit) ⟨⟨.blank c.policy, ⟨m', b⟩⟩, log'⟩ = r' at hend ⊢
  cases hend with
  | error e hs => exact .error e ⟨hveiled hs.1.2, hs.2⟩
  | @ok _ _ s s' _ hs =>
    have hused := huse (Workplace.noting_over hR) s s' hs
    dsimp only
    generalize use s = r at hused ⊢
    generalize use s' = r' at hused ⊢
    cases hused with
    | error e hs => exact .error e ⟨hclosed hs.1.2, hs.2⟩
    | ok hab hs => exact .ok hab ⟨hclosed hs.1.2, hs.2⟩

section Uses

variable {l : Likeness} {R : Workplace → Workplace → Prop}

theorem loggedIdentity_inStep (kind : IdentityKind) :
    InStep (Beside (l.Sessions R)) (loggedIdentity kind) (loggedIdentity kind) Eq := by
  have hcell : (Session.identityCell kind).governed = false := by cases kind <;> rfl
  refine (note_inStep fun s t hs => ?_).bind fun _ _ _ =>
    silent_inStep (Likeness.Storages.identity kind)
  unfold Store.readingNotes
  rw [hs.1.cell_eq hcell]

/-- What a session shows of itself depends on no token. -/
theorem statusEntries_inStep :
    InStep (Beside (l.Sessions R)) statusEntries statusEntries Eq :=
  (loggedIdentity_inStep .user).andThen fun _ => (Likeness.loggedGet_inStep rfl).andThen fun _ =>
    Likeness.loggedPolicy_inStep.andThen fun _ =>
      (silent_inStep (.read fun _ _ hs => hs.1.isSome_header)).andThen fun _ =>
        (loggedIdentity_inStep .device).andThen fun _ => .pure rfl

/-- A task in a session finds the same in sessions that correspond, unless it asks for the header.
-/
theorem loggedInSession_inStep (hR : l.NotingStorages R) {task : Task} (htask : task ≠ .header)
    {use : Act (Logged (Session Workplace)) Answer} (huse : task.loggedInSession? = some use) :
    InStep (Beside (l.Sessions R)) use use Eq := by
  cases task with
  | status =>
    obtain rfl := Option.some.inj huse
    exact statusEntries_inStep.mapExcept _
  | header => exact absurd rfl htask
  | clear =>
    obtain rfl := Option.some.inj huse
    exact hR.loggedClearAuthorization.mapExcept _
  | identity kind =>
    obtain rfl := Option.some.inj huse
    exact (loggedIdentity_inStep kind).mapExcept _
  | showPolicy =>
    obtain rfl := Option.some.inj huse
    exact Likeness.loggedPolicy_inStep.mapExcept _
  | setPolicy policy =>
    obtain rfl := Option.some.inj huse
    exact (hR.loggedSetPolicy policy).mapExcept _
  | _ => contradiction

end Uses

/-- What a task finds without a session it finds in step. -/
theorem outside_inStep (o : Overrides) (task : Task) :
    InStep (Machine.Veiled none) (task.outside o) (task.outside o) Eq := by
  cases task with
  | check code raws =>
    simp only [Task.outside]
    cases checkResponse code raws with
    | ok required => exact .pure rfl
    | error e => exact .throw e
  | showConfig => exact (Config.resolve_inStep o).andThen fun _ => .pure rfl
  | configPath => exact Machine.configPath_inStep.andThen fun _ => .pure rfl
  | setConfig key value =>
    exact (Config.overridePath_inStep o).andThen fun path =>
      (Config.set_inStep path key value).andThen fun _ => .pure rfl
  | _ => exact .pure rfl

/-- The session file that a task works on, if there is one. -/
def Task.sessionFile? (o : Overrides) (task : Task) (m : Machine) : Option Path :=
  match task.inSession?, (Config.resolve o >>= Config.openBackend) m with
  | some _, .ok b _ => b.file?
  | _, _ => none

/-- Whatever a task asks for but the header, it finds in step, and the same is said before it. -/
theorem answer_veiled {m m' : Machine} (h : m.Veiled none m') (o : Overrides) (output : Output)
    {task : Task} (htask : task ≠ .header) :
    Outcomes (Machine.Veiled (task.sessionFile? o m)) Eq (task.answer o m) (task.answer o m') ∧
      task.said o output m = task.said o output m' := by
  have hdoes := does_loggedInSession? task
  have hresolve := Config.resolve_inStep o m m' h
  unfold Task.answer Task.said Task.sessionFile?
  generalize hlogged : task.loggedInSession? = logged at hdoes ⊢
  generalize huse : task.inSession? = use at hdoes ⊢
  cases hdoes with
  | none => exact ⟨outside_inStep o task m m' h, rfl⟩
  | @some use use' hdoes =>
    simp only [Act.bind_apply]
    generalize Config.resolve o m = r at hresolve ⊢
    generalize Config.resolve o m' = r' at hresolve ⊢
    cases hresolve with
    | error e h => exact ⟨.error e h, rfl⟩
    | @ok c c' m m' hc h =>
      obtain rfl := hc
      have hbackend := Config.openBackend_inStep c m m' h
      have hforget (b : Backend) (m : Machine) := does_loggedOnBackend c hdoes b ⟨m, []⟩
      simp only [onSession, loggedOnSession, noted, Act.after, Act.bind_apply, Logged.silent]
      generalize c.openBackend m = r at hbackend ⊢
      generalize c.openBackend m' = r' at hbackend ⊢
      cases hbackend with
      | error e h => exact ⟨.error e h, rfl⟩
      | @ok b b' m m' hb h =>
        obtain rfl := hb
        have hstart : Beside (Machine.Veiled none) ⟨m, []⟩ ⟨m', []⟩ := ⟨h, rfl⟩
        have hused := loggedOnBackend_veiled
          (fun hR => loggedInSession_inStep hR htask hlogged) c b hstart
        dsimp only
        rw [← hforget b m, ← hforget b m']
        refine ⟨Logged.forget_outcomes hused, ?_⟩
        generalize loggedOnBackend c use b ⟨m, []⟩ = r at hused ⊢
        generalize loggedOnBackend c use b ⟨m', []⟩ = r' at hused ⊢
        cases hused with
        | ok _ hs => simp only [hs.2]
        | error e hs => simp only [hs.2]

/-- A command line that does not ask for the header runs to the same end on machines of which files
differ in tokens, and leaves such machines. -/
theorem run_veiled {m m' : Machine} (h : m.Veiled none m') {args : List String}
    (hargs : ∀ o wish, Invocation.ofArguments args ≠ .ok (.perform o wish .header))
    (display : Display) :
    (run args display m).1 = (run args display m').1 ∧
      ((run args display m).2.Veiled none (run args display m').2 ∨
        ∃ o wish task, Invocation.ofArguments args = .ok (.perform o wish task) ∧
          (run args display m).2.Veiled (task.sessionFile? o m) (run args display m').2) := by
  cases hinvocation : Invocation.ofArguments args with
  | error e =>
    simp only [run, hinvocation]
    exact ⟨trivial, .inl h⟩
  | ok asked =>
    cases asked with
    | perform o wish task =>
      have htask : task ≠ .header := by
        rintro rfl
        exact hargs o wish hinvocation
      have houtput : Output.ofWish wish display m = Output.ofWish wish display m' := by
        rw [h.rest]
        rfl
      obtain ⟨hanswer, hsaid⟩ := answer_veiled h o (.ofWish wish display m) htask
      rw [run_of_perform hinvocation, run_of_perform hinvocation, ← houtput, ← hsaid]
      refine ⟨?_, .inr ⟨o, wish, task, rfl, ?_⟩⟩
      · generalize task.answer o m = r at hanswer ⊢
        generalize task.answer o m' = r' at hanswer ⊢
        cases hanswer with
        | error e h => rfl
        | @ok a a' _ _ ha h =>
          obtain rfl := ha
          unfold concluded
          dsimp only
          cases a.write (.ofWish wish display m) (task.said o (.ofWish wish display m) m) <;> rfl
      · rw [machine_concluded, machine_concluded]
        generalize task.answer o m = r at hanswer ⊢
        generalize task.answer o m' = r' at hanswer ⊢
        cases hanswer with
        | error e h => exact h
        | ok _ h => exact h
    | _ =>
      simp only [run, hinvocation]
      exact ⟨trivial, .inl h⟩

/-- Whatever machine two session files lie on, at one place and the same but for the tokens: a
command line that does not ask for the header ends in the same way with either, by what it writes to
both streams, the log among it, and by its exit code. The session file that it leaves differs at
most in tokens again, and so does any other file but for a temporary one of the session file that a
failing disk has cut off. -/
theorem run_hidesTokens (m : Machine) (place : List String) (mode : Nat)
    {bytes bytes' : List UInt8} {entries entries' : List (String × Value)}
    (h : SessionFile.DifferInTokens bytes bytes' entries entries') {args : List String}
    (hargs : ∀ o wish, Invocation.ofArguments args ≠ .ok (.perform o wish .header))
    (display : Display) :
    let start := m.withDisk (m.disk.put place (.file bytes mode))
    let start' := m.withDisk (m.disk.put place (.file bytes' mode))
    let r := run args display start
    let r' := run args display start'
    r.1 = r'.1 ∧
      (∀ o wish task, Invocation.ofArguments args = .ok (.perform o wish task) →
        ∀ p ∈ task.sessionFile? o start,
          Option.Rel SessionFile.Veiled (r.2.disk.bytes? p) (r'.2.disk.bytes? p)) ∧
      ∀ q, Option.Rel SessionFile.Veiled (r.2.disk.bytes? q) (r'.2.disk.bytes? q) ∨
        r.2.disk.faults.write.isSome = true ∧
          ∃ o wish task, Invocation.ofArguments args = .ok (.perform o wish task) ∧
            ∃ p ∈ task.sessionFile? o start, ∃ d : Disk, d.IsTemporary p (r.2.disk.locate q) := by
  intro start start' r r'
  have hstart : Disk.Alike (SessionFile.VeiledBeside none) m.disk m.disk :=
    .refl (fun _ _ _ => .inl (.inl rfl)) _
  have hentry : DiskEntry.Alike (SessionFile.VeiledBeside none m.disk.faults place)
      (.file bytes mode) (.file bytes' mode) := .file (.inl h.veiled) mode
  have hdisk := hstart.put hentry
  obtain ⟨hend, hleft⟩ := run_veiled (.withDisk hdisk m) hargs display
  refine ⟨hend, fun o wish task hasked p hp => ?_, fun q => ?_⟩
  · obtain hveiled | ⟨o', wish', task', hasked', hveiled⟩ := hleft
    · exact SessionFile.bytes?_veiled hveiled.disk p
    · cases hasked.symm.trans hasked'
      rw [show task.sessionFile? o start = some p from hp] at hveiled
      exact SessionFile.bytes?_session_veiled hveiled.disk
  · obtain hveiled | ⟨o', wish', task', hasked', hveiled⟩ := hleft
    · exact .inl (SessionFile.bytes?_veiled hveiled.disk q)
    · have hbytes := hveiled.disk.bytes? q
      generalize hb : r.2.disk.bytes? q = b at hbytes ⊢
      generalize hb' : r'.2.disk.bytes? q = b' at hbytes ⊢
      cases hbytes with
      | none => exact .inl .none
      | some hsame =>
        rcases hsame with hsame | ⟨hfault, p, hp, d, htemporary⟩
        · exact .inl (.some hsame)
        · exact .inr ⟨hfault, o', wish', task', hasked', p, hp, d, htemporary⟩

/-- The status of a session is shown the same, whatever its tokens are. -/
theorem status_hidesTokens :
    let m : Machine := ⟨.empty, [("HOME", "/home")], ⟨"Linux", "", ""⟩, 0⟩
    let file (a i : String) : DiskEntry :=
      .file (SessionFile.encode [("access_token", a), ("id_token", i)]) Disk.privateMode
    let asked : List String := ["--storage-path", "/session.json", "status"]
    SessionFile.DifferInTokens
        (SessionFile.encode [("access_token", "a"), ("id_token", "b")])
        (SessionFile.encode [("access_token", "c"), ("id_token", "d")])
        (Value.inOrder [("access_token", "a"), ("id_token", "b")])
        (Value.inOrder [("access_token", "c"), ("id_token", "d")]) ∧
      (∀ o wish, Invocation.ofArguments asked ≠ .ok (.perform o wish .header)) ∧
      (run asked (.plain false) (m.withDisk (m.disk.put ["session.json"] (file "a" "b")))).1 =
        (run asked (.plain false) (m.withDisk (m.disk.put ["session.json"] (file "c" "d")))).1 := by
  intro m file asked
  have hkeyed (a i : String) : Value.Keyed [("access_token", a), ("id_token", i)] := by
    simp [Value.Keyed]
  have hdiffer : SessionFile.DifferInTokens
      (SessionFile.encode [("access_token", "a"), ("id_token", "b")])
      (SessionFile.encode [("access_token", "c"), ("id_token", "d")])
      (Value.inOrder [("access_token", "a"), ("id_token", "b")])
      (Value.inOrder [("access_token", "c"), ("id_token", "d")]) := by
    refine ⟨SessionFile.reads_encode (hkeyed _ _), SessionFile.reads_encode (hkeyed _ _),
      fun key hkey => ?_, fun key hkey => ?_⟩
    · rw [SessionFile.find?_inOrder (hkeyed _ _), SessionFile.find?_inOrder (hkeyed _ _)]
      have haccess : "access_token" ≠ key := fun h => hkey ⟨.accessToken, by decide, h⟩
      have hid : "id_token" ≠ key := fun h => hkey ⟨.idToken, by decide, h⟩
      simp [Value.find?, haccess, hid]
    · rw [SessionFile.find?_inOrder (hkeyed _ _), SessionFile.find?_inOrder (hkeyed _ _)]
      obtain ⟨n, hn, rfl⟩ := hkey
      obtain rfl | rfl := CellName.eq_of_mem_tokens hn
      · exact ⟨"a", "c", rfl, rfl, by decide, by decide⟩
      · exact ⟨"b", "d", rfl, rfl, by decide, by decide⟩
  have hasked : ∀ o wish, Invocation.ofArguments asked ≠ .ok (.perform o wish .header) := by
    intro o wish hheader
    have hstatus : Invocation.ofArguments asked = .ok (.perform
        ⟨none, none, none, some "/session.json"⟩ ⟨none, false, false, false⟩ .status) := rfl
    rw [hstatus] at hheader
    cases hheader
  exact ⟨hdiffer, hasked,
    (run_hidesTokens m ["session.json"] Disk.privateMode hdiffer hasked (.plain false)).1⟩

end Command

end BearerSession
