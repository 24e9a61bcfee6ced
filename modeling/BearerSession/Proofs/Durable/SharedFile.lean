import BearerSession.Durable.Mount
import BearerSession.Proofs.Durable.SessionFile

/-!
# Many storages on one session file

Storages on one path keep nothing of their own, so calls of any of them act on one map, as calls of
a single memory do. What carries this through a run is that the file, as far as it is there, holds
the values of the memory, and can be written again.
-/

namespace BearerSession

/-- A call of a storage. -/
inductive StorageCall where
  /-- Read a key. -/
  | get (key : String)
  /-- Write a key. -/
  | set (key value : String)
  /-- Remove a key. -/
  | remove (key : String)
  deriving DecidableEq, Repr

namespace StorageCall

/-- Make a call. Only reading answers something. -/
def run {σ : Type} [Durable σ] : StorageCall → Act σ (Option String)
  | .get key => Durable.read key
  | .set key value => do
    Durable.set key value
    return none
  | .remove key => do
    Durable.remove key
    return none

/-- Make calls one after the other. -/
def runAll {σ : Type} [Durable σ] (l : List StorageCall) : Act σ (List (Option String)) :=
  l.mapM run

/-- Whether a call changes what is kept under some key: a removal does only where the key is there.
-/
def Changes (m : Memory) : StorageCall → Prop
  | .get _ => False
  | .set .. => True
  | .remove key => (Value.find? m.values key).isSome

end StorageCall

/-- Backends that share a disk. -/
structure Fleet (n : Nat) where
  /-- The disk. -/
  disk : Disk
  /-- The backends. -/
  backends : Fin n → Backend

namespace Fleet

variable {n : Nat}

/-- Session files, all of them at one path. -/
def ofFile (n : Nat) (d : Disk) (p : Path) : Fleet n := ⟨d, fun _ => .file p⟩

/-- Call one of the backends. -/
def call (i : Fin n) (c : StorageCall) : Act (Fleet n) (Option String) := fun f =>
  match c.run (Mount.mk f.disk (f.backends i)) with
  | .ok a m => .ok a ⟨m.disk, Function.update f.backends i m.backend⟩
  | .error e m => .error e ⟨m.disk, Function.update f.backends i m.backend⟩

/-- Call backends one after the other. -/
def calls (l : List (Fin n × StorageCall)) : Act (Fleet n) (List (Option String)) :=
  l.mapM fun c => call c.1 c.2

end Fleet

namespace Memory

/-- A memory that refuses nothing and holds nothing. -/
def empty : Memory := ⟨[], []⟩

variable {m : Memory}

/-- A memory without planned refusals writes. -/
theorem set_eq_ok (h : m.refusals = []) (key value : String) :
    Durable.set key value m = .ok () { m with values := Value.insertEntry key value m.values } := by
  simp only [Durable.set, attempt, h, refuse?]

/-- So does it remove. -/
theorem remove_eq_ok (h : m.refusals = []) (key : String) :
    Durable.remove key m = .ok () { m with values := Value.eraseEntry key m.values } := by
  simp only [Durable.remove, attempt, h, refuse?]

end Memory

/-- A session file that stands for the values of a memory. -/
structure SessionFile.Mirrors (d : Disk) (p : Path) (m : Memory) : Prop where
  /-- The file can be written. -/
  receives : d.Receives p
  /-- The memory refuses nothing. -/
  willing : m.refusals = []
  /-- Its keys are distinct. -/
  keyed : Value.Keyed m.values
  /-- What is read from the file are its values, in any order. -/
  loaded : ∃ values, SessionFile.load d p = .ok values ∧ values.Perm m.values

namespace SessionFile.Mirrors

open Value (find? insertEntry eraseEntry)

variable {d : Disk} {p : Path} {m : Memory}

/-- A missing file stands for an empty memory. -/
theorem missing (hmissing : d.isFile p = false) (h : d.Receives p) :
    Mirrors d p Memory.empty :=
  ⟨h, rfl, List.nodup_nil, [], load_of_not_isFile hmissing, .refl _⟩

/-- Reading a key of the file finds what the memory finds. -/
theorem get (h : Mirrors d p m) (key : String) :
    SessionFile.get p key d = .ok (find? m.values key) := by
  obtain ⟨values, hload, hp⟩ := h.loaded
  simp only [SessionFile.get, hload, Except.map, h.keyed.find?_perm hp.symm]

/-- Giving the file new values stands for giving them to the memory. -/
theorem store (h : Mirrors d p m) {values next : List (String × String)}
    (hkeyed : Value.Keyed next) (hp : values.Perm next) :
    ∃ e, SessionFile.store p values d = .ok () e ∧ Mirrors e p { m with values := next } ∧
      Holds e p next := by
  obtain ⟨e, hstore, hreceives, ⟨bytes, cs, entries, hbytes, hdecode, hread, hentries⟩, loaded,
    hload, hloaded⟩ := store_eq_ok h.receives (hkeyed.perm hp.symm)
  refine ⟨e, hstore, ⟨hreceives, h.willing, hkeyed, loaded, hload, hloaded.trans hp⟩, ?_⟩
  exact ⟨bytes, cs, entries, hbytes, hdecode, hread, hentries.trans (hp.map _)⟩

/-- Writing a key of the file. -/
theorem set (h : Mirrors d p m) (key value : String) :
    ∃ e, SessionFile.set p key value d = .ok () e ∧
      Mirrors e p { m with values := insertEntry key value m.values } ∧
      Holds e p (insertEntry key value m.values) := by
  obtain ⟨values, hload, hp⟩ := h.loaded
  simp only [SessionFile.set, hload]
  exact h.store (h.keyed.insertEntry key value)
    ((h.keyed.perm hp.symm).insertEntry_perm hp key value)

/-- Removing a key that is there. -/
theorem remove (h : Mirrors d p m) {key : String} (hkey : (find? m.values key).isSome) :
    ∃ e, SessionFile.remove p key d = .ok () e ∧
      Mirrors e p { m with values := eraseEntry key m.values } ∧
      Holds e p (eraseEntry key m.values) := by
  obtain ⟨values, hload, hp⟩ := h.loaded
  rw [← h.keyed.find?_perm hp.symm] at hkey
  simp only [SessionFile.remove, hload, hkey, if_true]
  exact h.store (h.keyed.eraseEntry key) (hp.filter _)

/-- Removing a key that is not there does nothing. -/
theorem remove_absent (h : Mirrors d p m) {key : String} (hkey : find? m.values key = none) :
    SessionFile.remove p key d = .ok () d ∧ eraseEntry key m.values = m.values := by
  obtain ⟨values, hload, hp⟩ := h.loaded
  refine ⟨?_, List.filter_eq_self.mpr fun e he => ?_⟩
  · rw [← h.keyed.find?_perm hp.symm] at hkey
    simp only [SessionFile.remove, hload, hkey]
    rfl
  · have hne : e.1 ≠ key := by
      rintro rfl
      rw [h.keyed.find?_eq_some_iff.mpr he] at hkey
      contradiction
    simpa using hne

/-- A call of a backend on the file answers what the memory answers, and the file goes on standing
for the memory. Where the call changes the values, the file holds the new ones, else the disk is as
it was. -/
theorem call (h : Mirrors d p m) (c : StorageCall) :
    ∃ a e m', c.run (Mount.mk d (.file p)) = .ok a ⟨e, .file p⟩ ∧ c.run m = .ok a m' ∧
      Mirrors e p m' ∧ (c.Changes m → Holds e p m'.values) ∧ (¬ c.Changes m → e = d) := by
  cases c with
  | get key =>
    refine ⟨find? m.values key, d, m, ?_, rfl, h, False.elim, fun _ => rfl⟩
    change Durable.read key (Mount.mk d (.file p)) = _
    have hget := h.get key
    simp only [Durable.read, Durable.get, hget]
  | set key value =>
    obtain ⟨e, hset, hmirrors, hholds⟩ := h.set key value
    refine ⟨none, e, _, ?_, ?_, hmirrors, fun _ => hholds, fun hno => absurd trivial hno⟩
    · simp only [StorageCall.run, bind, EStateM.bind, Durable.set, Mount.onDisk, hset]
      rfl
    · simp only [StorageCall.run, bind, EStateM.bind, Memory.set_eq_ok h.willing]
      rfl
  | remove key =>
    have hmemory : (StorageCall.remove key).run m =
        .ok none { m with values := eraseEntry key m.values } := by
      simp only [StorageCall.run, bind, EStateM.bind, Memory.remove_eq_ok h.willing]
      rfl
    cases hkey : find? m.values key with
    | none =>
      obtain ⟨hremove, hsame⟩ := h.remove_absent hkey
      rw [hsame] at hmemory
      refine ⟨none, d, m, ?_, hmemory, h, fun hyes => ?_, fun _ => rfl⟩
      · simp only [StorageCall.run, bind, EStateM.bind, Durable.remove, Mount.onDisk, hremove]
        rfl
      · simp [StorageCall.Changes, hkey] at hyes
    | some value =>
      have hthere : (find? m.values key).isSome := by rw [hkey]; rfl
      obtain ⟨e, hremove, hmirrors, hholds⟩ := h.remove hthere
      refine ⟨none, e, _, ?_, hmemory, hmirrors, fun _ => hholds, fun hno => absurd hthere hno⟩
      simp only [StorageCall.run, bind, EStateM.bind, Durable.remove, Mount.onDisk, hremove]
      rfl

end SessionFile.Mirrors

namespace Fleet

open SessionFile (Mirrors Holds)

variable {n : Nat} {d : Disk} {p : Path} {m : Memory}

/-- A call of one of the session files at a path. -/
theorem call_ofFile (i : Fin n) {c : StorageCall} {a : Option String} {e : Disk}
    (h : c.run (Mount.mk d (.file p)) = .ok a ⟨e, .file p⟩) :
    call i c (ofFile n d p) = .ok a (ofFile n e p) := by
  simp only [call, ofFile, h, Function.update_eq_self]

/-- Calls of session files at one path answer what one memory answers. -/
theorem calls_ofFile (h : Mirrors d p m) (l : List (Fin n × StorageCall)) :
    ∃ answers e m', calls l (ofFile n d p) = .ok answers (ofFile n e p) ∧
      StorageCall.runAll (l.map Prod.snd) m = .ok answers m' ∧ Mirrors e p m' := by
  induction l generalizing d m with
  | nil => exact ⟨[], d, m, rfl, rfl, h⟩
  | cons c rest ih =>
    obtain ⟨a, e, m', hfile, hmemory, hmirrors, -⟩ := h.call c.2
    obtain ⟨answers, e', m'', hfiles, hmemories, hlast⟩ := ih hmirrors
    refine ⟨a :: answers, e', m'', ?_, ?_, hlast⟩
    · rw [calls] at hfiles ⊢
      simp only [List.mapM_cons, bind, EStateM.bind, call_ofFile c.1 hfile, hfiles]
      rfl
    · rw [StorageCall.runAll] at hmemories ⊢
      simp only [List.map_cons, List.mapM_cons, bind, EStateM.bind, hmemory, hmemories]
      rfl

/-- Any number of session files at one path, where no file is at first and one can be written, are
one map: after any calls of them, each further call answers what it answers for one memory that got
the same calls. Where it changes the values, the file reads as one JSON object with the values of
that memory, and otherwise the disk stays as it is. -/
theorem calls_eq_memory (hmissing : d.isFile p = false) (hreceives : d.Receives p)
    (l : List (Fin n × StorageCall)) (i : Fin n) (c : StorageCall) :
    ∃ answers e m, calls l (ofFile n d p) = .ok answers (ofFile n e p) ∧
      StorageCall.runAll (l.map Prod.snd) Memory.empty = .ok answers m ∧
      ∃ a e' m', call i c (ofFile n e p) = .ok a (ofFile n e' p) ∧ c.run m = .ok a m' ∧
        (c.Changes m → Holds e' p m'.values) ∧ (¬ c.Changes m → e' = e) := by
  obtain ⟨answers, e, m, hfiles, hmemories, hmirrors⟩ :=
    calls_ofFile (Mirrors.missing hmissing hreceives) l
  obtain ⟨a, e', m', hfile, hmemory, -, hholds, hsame⟩ := hmirrors.call c
  exact ⟨answers, e, m, hfiles, hmemories, a, e', m', call_ofFile i hfile, hmemory, hholds, hsame⟩

/-- Two session files on a fresh disk: the second one reads what the first one wrote. -/
theorem calls_eq_memory_on_fresh_disk :
    Disk.empty.isFile ⟨"/", ["data", "session.json"]⟩ = false ∧
      Disk.empty.Receives ⟨"/", ["data", "session.json"]⟩ ∧
      ∃ e : Disk,
        calls [(0, .set "token" "\"é\"")] (ofFile 2 .empty ⟨"/", ["data", "session.json"]⟩) =
          .ok [none] (ofFile 2 e ⟨"/", ["data", "session.json"]⟩) ∧
        call 1 (.get "token") (ofFile 2 e ⟨"/", ["data", "session.json"]⟩) =
          .ok (some "\"é\"") (ofFile 2 e ⟨"/", ["data", "session.json"]⟩) := by
  have hmissing : Disk.empty.isFile ⟨"/", ["data", "session.json"]⟩ = false := by decide
  have hreceives : Disk.empty.Receives ⟨"/", ["data", "session.json"]⟩ :=
    ⟨rfl, _, rfl, rfl⟩
  obtain ⟨answers, e, m, hfiles, hmemories, a, e', m', hfile, hmemory, -, hsame⟩ :=
    calls_eq_memory hmissing hreceives [((0 : Fin 2), .set "token" "\"é\"")] 1 (.get "token")
  obtain ⟨rfl, rfl⟩ : [none] = answers ∧ ⟨[("token", "\"é\"")], []⟩ = m := by
    injection hmemories with hanswers hmemory
    exact ⟨hanswers, hmemory⟩
  obtain rfl : some "\"é\"" = a := by
    injection hmemory
  obtain rfl : e' = e := hsame (by simp [StorageCall.Changes])
  exact ⟨hmissing, hreceives, e', hfiles, hfile⟩

end Fleet

end BearerSession
