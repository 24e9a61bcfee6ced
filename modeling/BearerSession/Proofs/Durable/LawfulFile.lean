import BearerSession.Proofs.Durable.Fallible
import BearerSession.Proofs.Durable.FailedWrite

/-!
# Session files as durable storage

At a path that does not lead back, a session file is as good as a map: a call that succeeds changes
one key, and one that fails changes none, whichever operations of the disk have failed. A file that
can be read stays one that can be read. So what holds of every lawful storage holds of session files
that can be read, also where refusals are counted or listed, which can be done beside any lawful
storage; and what holds of every storage that may fail to be read holds of all session files.
-/

namespace BearerSession

open Value (find? insertEntry eraseEntry)

/-- A path to a file that leads to the same place whatever directories there are. -/
structure FilePath where
  /-- The path. -/
  path : Path
  /-- It ends in a name. -/
  named : path.endsInName = true
  /-- It does not lead back. -/
  straight : ".." ∉ path.parts

namespace SessionFile

variable {d f : Disk} {key value : String} {e : Raised}

/-- Whether the file at a path can be read. -/
def IsReadable (d : Disk) (p : Path) : Prop := ∃ values, load d p = .ok values

/-- It can, unless it is there and its bytes are refused. -/
theorem isReadable_iff {p : Path} :
    IsReadable d p ↔ ∀ bytes, d.bytes? p = some bytes → ∀ e, ¬ Refused bytes e := by
  unfold IsReadable load
  cases d.bytes? p with
  | none => exact iff_of_true ⟨[], rfl⟩ nofun
  | some bytes =>
    simp only [Option.some.injEq, forall_eq', ← decode_eq_error_iff]
    cases decode bytes with
    | ok values => exact iff_of_true ⟨values, rfl⟩ nofun
    | error e => exact iff_of_false nofun fun h => h e rfl

/-- It can where one of its keys can. -/
theorem isReadable_iff_get {p : Path} (key : String) :
    IsReadable d p ↔ ∃ value, get p key d = .ok value := by
  unfold IsReadable get
  cases load d p with
  | ok values => exact iff_of_true ⟨values, rfl⟩ ⟨_, rfl⟩
  | error e => exact iff_of_false nofun nofun

/-- Values that have been stored are read. -/
theorem get_of_store_ok {p : Path} {values next : List (String × String)} {c : StorageCall}
    (hload : load d p = .ok values) (hnext : c.written? values = some next)
    (h : store p next d = .ok () f) (other : String) : get p other f = .ok (find? next other) :=
  (written_of_store (StorageCall.keyed_written (keyed_load hload) hnext) h).values other

variable (p : FilePath)

/-- Values that could not be stored make no difference to what is read. -/
theorem get_of_store_error {values next : List (String × String)} {c : StorageCall}
    (hload : load d p.path = .ok values) (hnext : c.written? values = some next)
    (h : store p.path next d = .error e f) (other : String) :
    get p.path other f = get p.path other d := by
  have hcases := store_cases (d := d) p.named (StorageCall.keyed_written (keyed_load hload) hnext)
  rw [h] at hcases
  exact (hcases.values (hcases.place (.inl p.straight))).2 other

/-- A write that succeeds makes a difference at its key and nowhere else. -/
theorem get_of_set_ok (h : set p.path key value d = .ok () f) (other : String) :
    get p.path other f = if key = other then .ok (some value) else get p.path other d := by
  unfold set at h
  split at h
  · contradiction
  · next values hload =>
    rw [get_of_store_ok (c := .set key value) hload rfl h, Value.find?_insertEntry]
    split
    · rfl
    · simp only [get, hload, Except.map]

/-- One that fails makes none. -/
theorem get_of_set_error (h : set p.path key value d = .error e f) (other : String) :
    get p.path other f = get p.path other d := by
  unfold set at h
  split at h
  · cases h
    rfl
  · next values hload => exact get_of_store_error p (c := .set key value) hload rfl h other

/-- A removal that succeeds makes a difference at its key and nowhere else. -/
theorem get_of_remove_ok (h : remove p.path key d = .ok () f) (other : String) :
    get p.path other f = if key = other then .ok none else get p.path other d := by
  unfold remove at h
  split at h
  · contradiction
  · next values hload =>
    split at h
    · next hkey =>
      have hnext : (StorageCall.remove key).written? values = some (eraseEntry key values) :=
        if_pos hkey
      rw [get_of_store_ok hload hnext h, Value.find?_eraseEntry]
      split
      · rfl
      · simp only [get, hload, Except.map]
    · next hkey =>
      cases h
      split
      · next hsame =>
        subst hsame
        simp only [get, hload, Except.map, Option.not_isSome_iff_eq_none.mp hkey]
      · rfl

/-- One that fails makes none. -/
theorem get_of_remove_error (h : remove p.path key d = .error e f) (other : String) :
    get p.path other f = get p.path other d := by
  unfold remove at h
  split at h
  · cases h
    rfl
  · next values hload =>
    split at h
    · next hkey => exact get_of_store_error p (c := .remove key) hload (if_pos hkey) h other
    · cases h

/-- A file that can be read can still be read after a write, whether this fails or not. -/
theorem IsReadable.after_set (h : IsReadable d p.path) :
    IsReadable ((set p.path key value).after d) p.path := by
  rw [isReadable_iff_get key] at h ⊢
  unfold Act.after
  split
  · next f hset =>
    rw [get_of_set_ok p hset, if_pos rfl]
    exact ⟨_, rfl⟩
  · next e f hset =>
    rw [get_of_set_error p hset]
    exact h

/-- So it is after a removal. -/
theorem IsReadable.after_remove (h : IsReadable d p.path) :
    IsReadable ((remove p.path key).after d) p.path := by
  rw [isReadable_iff_get key] at h ⊢
  unfold Act.after
  split
  · next f hremove =>
    rw [get_of_remove_ok p hremove, if_pos rfl]
    exact ⟨_, rfl⟩
  · next e f hremove =>
    rw [get_of_remove_error p hremove]
    exact h

end SessionFile

/-- A session file on a disk, whatever its bytes are. -/
structure AnyFile (p : FilePath) where
  /-- The disk. -/
  disk : Disk

namespace AnyFile

variable {p : FilePath}

/-- Run a computation on the disk. -/
def use (f : Act Disk Unit) : Act (AnyFile p) Unit := fun s =>
  match f s.disk with
  | .ok () d => .ok () ⟨d⟩
  | .error e d => .error e ⟨d⟩

theorem use_ok {f : Act Disk Unit} {s t : AnyFile p} (h : use f s = .ok () t) :
    f s.disk = .ok () t.disk := by
  unfold use at h
  split at h
  · next hf =>
    cases h
    exact hf
  · contradiction

theorem use_error {f : Act Disk Unit} {s t : AnyFile p} {e : Raised} (h : use f s = .error e t) :
    f s.disk = .error e t.disk := by
  unfold use at h
  split at h
  · contradiction
  · next hf =>
    cases h
    exact hf

instance : Durable (AnyFile p) where
  get key s := SessionFile.get p.path key s.disk
  set key value := use (SessionFile.set p.path key value)
  remove key := use (SessionFile.remove p.path key)

/-- The value that is read under a key. -/
def value? (s : AnyFile p) (key : String) : Option String :=
  (SessionFile.get p.path key s.disk).toOption.join

instance : FallibleDurable (AnyFile p) where
  value? := value?
  get_ok s key value h := by
    change SessionFile.get p.path key s.disk = .ok value at h
    rw [value?, h]
    rfl
  set_ok s t key value h other := by
    rw [value?, SessionFile.get_of_set_ok p (use_ok h)]
    split
    · rfl
    · rfl
  set_error s t key value e h other := by
    rw [value?, SessionFile.get_of_set_error p (use_error h)]
    rfl
  remove_ok s t key h other := by
    rw [value?, SessionFile.get_of_remove_ok p (use_ok h)]
    split
    · rfl
    · rfl
  remove_error s t key e h other := by
    rw [value?, SessionFile.get_of_remove_error p (use_error h)]
    rfl

/-- It is the backend that is mounted at the path. -/
theorem run_mount (c : StorageCall) (s : AnyFile p) :
    c.run (Mount.mk s.disk (.file p.path)) =
      match c.run s with
      | .ok a t => .ok a ⟨t.disk, .file p.path⟩
      | .error e t => .error e ⟨t.disk, .file p.path⟩ := by
  cases c with
  | get key =>
    simp only [StorageCall.run, Durable.read, Durable.get]
    cases SessionFile.get p.path key s.disk <;> rfl
  | set key value =>
    simp only [StorageCall.run, bind, EStateM.bind, Durable.set, Mount.onDisk, use]
    cases SessionFile.set p.path key value s.disk <;> rfl
  | remove key =>
    simp only [StorageCall.run, bind, EStateM.bind, Durable.remove, Mount.onDisk, use]
    cases SessionFile.remove p.path key s.disk <;> rfl

end AnyFile

/-- A session file that can be read. -/
structure ReadableFile (p : FilePath) extends AnyFile p where
  /-- It can be read. -/
  readable : SessionFile.IsReadable disk p.path

namespace ReadableFile

variable {p : FilePath}

/-- Run a computation on the disk after which the file can still be read. -/
def use (g : Act Disk Unit)
    (hg : ∀ d, SessionFile.IsReadable d p.path → SessionFile.IsReadable (g.after d) p.path) :
    Act (ReadableFile p) Unit := fun s =>
  match g s.disk with
  | .ok () _ => .ok () ⟨⟨g.after s.disk⟩, hg s.disk s.readable⟩
  | .error e _ => .error e ⟨⟨g.after s.disk⟩, hg s.disk s.readable⟩

instance : Durable (ReadableFile p) where
  get key s := Durable.get key s.toAnyFile
  set key value := use (SessionFile.set p.path key value) fun _ h => h.after_set
  remove key := use (SessionFile.remove p.path key) fun _ h => h.after_remove

variable {g : Act Disk Unit} {s t : ReadableFile p}
  {hg : ∀ d, SessionFile.IsReadable d p.path → SessionFile.IsReadable (g.after d) p.path}

/-- It does to the file what it does to any file. -/
theorem use_toAnyFile
    (hg : ∀ d, SessionFile.IsReadable d p.path → SessionFile.IsReadable (g.after d) p.path)
    (s : ReadableFile p) :
    AnyFile.use g s.toAnyFile =
      match use g hg s with
      | .ok u t => .ok u t.toAnyFile
      | .error e t => .error e t.toAnyFile := by
  unfold use AnyFile.use
  split
  · next d hd => simp only [Act.after, hd]
  · next e d hd => simp only [Act.after, hd]

theorem use_ok (h : use g hg s = .ok () t) :
    AnyFile.use g s.toAnyFile = .ok () t.toAnyFile := by
  rw [use_toAnyFile hg, h]

theorem use_error {e : Raised} (h : use g hg s = .error e t) :
    AnyFile.use g s.toAnyFile = .error e t.toAnyFile := by
  rw [use_toAnyFile hg, h]

instance : LawfulDurable (ReadableFile p) where
  value? s key := s.toAnyFile.value? key
  get_eq s key := by
    obtain ⟨value, hget⟩ := (SessionFile.isReadable_iff_get key).mp s.readable
    rw [AnyFile.value?, hget]
    exact hget
  set_ok s t key value h :=
    FallibleDurable.set_ok s.toAnyFile t.toAnyFile key value (use_ok h)
  set_error s t key value e h :=
    FallibleDurable.set_error s.toAnyFile t.toAnyFile key value e (use_error h)
  remove_ok s t key h := FallibleDurable.remove_ok s.toAnyFile t.toAnyFile key (use_ok h)
  remove_error s t key e h :=
    FallibleDurable.remove_error s.toAnyFile t.toAnyFile key e (use_error h)

/-- So does a call. -/
theorem run_toAnyFile (c : StorageCall) (s : ReadableFile p) :
    c.run s.toAnyFile =
      match c.run s with
      | .ok a t => .ok a t.toAnyFile
      | .error e t => .error e t.toAnyFile := by
  cases c with
  | get key =>
    simp only [StorageCall.run, Durable.read, Durable.get]
    cases SessionFile.get p.path key s.disk <;> rfl
  | set key value =>
    have hset : Durable.set key value s.toAnyFile =
        match Durable.set key value s with
        | .ok u t => .ok u t.toAnyFile
        | .error e t => .error e t.toAnyFile := use_toAnyFile (fun _ h => h.after_set) s
    simp only [StorageCall.run, bind, EStateM.bind, hset]
    cases Durable.set key value s <;> rfl
  | remove key =>
    have hremove : Durable.remove key s.toAnyFile =
        match Durable.remove key s with
        | .ok u t => .ok u t.toAnyFile
        | .error e t => .error e t.toAnyFile := use_toAnyFile (fun _ h => h.after_remove) s
    simp only [StorageCall.run, bind, EStateM.bind, hremove]
    cases Durable.remove key s <;> rfl

end ReadableFile

end BearerSession
