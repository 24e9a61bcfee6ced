import BearerSession.Proofs.Durable.FailedWrite

/-!
# Storage that gives back

What has been written under a key is read from it. Every backend does this: it is one of the laws of
a backend that acts as a map, and session files and cache directories do it too.
-/

namespace BearerSession

/-- Whether a storage gives back what has been written to it. -/
def GivesBack (σ : Type) [Durable σ] : Prop :=
  ∀ (key value : String) (d d' : σ), Durable.set key value d = .ok () d' →
    Durable.get key d' = .ok (some value)

theorem givesBack_of_lawful (σ : Type) [Durable σ] [LawfulDurable σ] : GivesBack σ := by
  intro key value d d' h
  rw [LawfulDurable.get_eq, LawfulDurable.set_ok d d' key value h, if_pos rfl]

/-- A session file gives back what has been written to it. -/
theorem SessionFile.get_of_set {p : Path} {key value : String} {d d' : Disk}
    (h : set p key value d = .ok () d') : get p key d' = .ok (some value) := by
  unfold set at h
  split at h
  · contradiction
  · next values hload =>
    have hwritten := written_of_store ((keyed_load hload).insertEntry key value) h
    rw [hwritten.values, Value.find?_insertEntry, if_pos rfl]

/-- So does a cache directory. -/
theorem CacheDirectory.get?_change (p : Path) (key value : String) (d : Disk) :
    get? p key (change p (Value.insertEntry key value) d) = some value := by
  have hplace : (change p (Value.insertEntry key value) d).locate p = d.locate p := rfl
  rw [get?, hplace]
  simp [contents, change, withContents]

/-- Every backend that can be mounted gives back what has been written to it. -/
theorem Mount.givesBack : GivesBack Mount := by
  intro key value m m' h
  obtain ⟨disk, backend⟩ := m
  cases backend with
  | memory memory =>
    change onMemory memory (Durable.set key value) _ = _ at h
    unfold onMemory at h
    split at h
    · next hset =>
      cases h
      exact givesBack_of_lawful Memory key value _ _ hset
    · contradiction
  | file path =>
    change onDisk (SessionFile.set path key value) _ = _ at h
    unfold onDisk at h
    split at h
    · next hset =>
      cases h
      exact SessionFile.get_of_set hset
    · contradiction
  | cache path isOpen timeouts =>
    simp only [Durable.set] at h
    split at h
    · contradiction
    · obtain ⟨_, m, hconnected, hchange⟩ := Act.bind_eq_ok.mp h
      cases hchange
      have hbackend : m.backend = .cache path true timeouts := by
        cases isOpen with
        | true =>
          cases hconnected
          rfl
        | false =>
          simp only [connected] at hconnected
          split at hconnected
          · cases hconnected
            rfl
          · contradiction
      simp only [Durable.get, hbackend, CacheDirectory.get?_change]

end BearerSession
