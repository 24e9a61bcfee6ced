import Mathlib.Tactic.SplitIfs
import BearerSession.Disk.AtomicWrite

/-!
# Files that can be written stay writable

Where a path leads depends only on where directories stand. Making the directories to a path leaves
a directory at each place on its way, and a file put where no directory stood leads no path
elsewhere. So a file that could be written once can be written again, and is found where it was
written.
-/

namespace BearerSession

/-- A path cut off after some of its parts. -/
def Path.upTo (p : Path) (n : Nat) : Path := { p with parts := p.parts.take n }

namespace Disk

variable {d e : Disk} {p : Path}

/-- Whether a directory stands at a place. -/
def HasDirectory (d : Disk) (place : List String) : Prop := d.entryAt? place = some .directory

/-- The place where a path leads, part by part. -/
theorem locate_upTo_succ {n : Nat} (hn : n < p.parts.length) :
    d.locate (p.upTo (n + 1)) = d.step (d.locate (p.upTo n)) p.parts[n] := by
  have hparts : p.parts.take (n + 1) = p.parts.take n ++ [p.parts[n]] :=
    (List.take_append_getElem hn).symm
  simp only [locate, Path.upTo, hparts, List.foldl_append, List.foldl_cons, List.foldl_nil]
  rfl

/-- A path leads to the same place wherever the same directories stand on its way. -/
theorem locate_congr (hstart : e.workingDirectory = d.workingDirectory)
    {n : Nat} (hn : n ≤ p.parts.length)
    (h : ∀ m < n, e.HasDirectory (d.locate (p.upTo m)) ↔ d.HasDirectory (d.locate (p.upTo m))) :
    e.locate (p.upTo n) = d.locate (p.upTo n) := by
  induction n with
  | zero => simp [locate, Path.upTo, Path.start, hstart]
  | succ n ih =>
    have hlast := h n (Nat.lt_succ_self n)
    unfold HasDirectory at hlast
    rw [locate_upTo_succ hn, locate_upTo_succ hn,
      ih (Nat.le_of_succ_le hn) fun m hm => h m (Nat.lt_succ_of_lt hm)]
    simp only [step, hlast]

/-- A path is not cut off after its last part. -/
theorem upTo_length (p : Path) : p.upTo p.parts.length = p := by
  rw [Path.upTo, List.take_length]

/-- A place without a directory is not the root. -/
theorem ne_nil_of_not_hasDirectory {place : List String} (h : ¬ d.HasDirectory place) :
    place ≠ [] := by
  rintro rfl
  exact h (by simp [HasDirectory, entryAt?])

/-- A file where no directory stood leads no path elsewhere. -/
theorem locate_put_file {place : List String} (hplace : ¬ d.HasDirectory place)
    (bytes : List UInt8) (mode : Nat) (q : Path) :
    (d.put place (.file bytes mode)).locate q = d.locate q := by
  have hway := locate_congr (d := d) (e := d.put place (.file bytes mode)) (p := q) rfl
    (Nat.le_refl _) fun m _ => ?_
  · rwa [upTo_length] at hway
  unfold HasDirectory at hplace ⊢
  rw [entryAt?_put d place _ _ (ne_nil_of_not_hasDirectory hplace)]
  split
  · next heq => simp [heq, hplace]
  · rfl

/-- A disk after some of the directories on the way to a path have been made: each of them stands
where it is looked for, and nothing but directories has changed. -/
structure Reached (d e : Disk) (p : Path) (n : Nat) : Prop where
  /-- Paths start where they did. -/
  start : e.workingDirectory = d.workingDirectory
  /-- The same operations fail. -/
  faults : e.faults = d.faults
  /-- A directory stands at each place on the way. -/
  ways : ∀ m ≤ n, e.HasDirectory (e.locate (p.upTo m))

/-- One more directory on the way. -/
theorem Reached.makeDirectory {n : Nat} (h : Reached d e p n) (hn : n < p.parts.length) {f : Disk}
    (hf : e.makeDirectory (p.upTo (n + 1)) = .ok f) : Reached d f p (n + 1) := by
  unfold Disk.makeDirectory at hf
  split at hf
  · next hentry =>
    cases hf
    refine ⟨h.start, h.faults, fun m hm => ?_⟩
    rcases Nat.lt_or_eq_of_le hm with hlt | rfl
    · exact h.ways m (Nat.le_of_lt_succ hlt)
    · exact hentry
  · cases hf
  · next hentry =>
    cases hf
    have hnew : ¬ e.HasDirectory (e.locate (p.upTo (n + 1))) := by simp [HasDirectory, hentry]
    -- The new directory stands beside the way, so each part leads where it led before.
    have hkeeps (place : List String) (hplace : e.HasDirectory place) :
        (e.put (e.locate (p.upTo (n + 1))) .directory).HasDirectory place := by
      unfold HasDirectory
      rw [entryAt?_put e _ _ _ (ne_nil_of_not_hasDirectory hnew)]
      split
      · rfl
      · exact hplace
    have hlocate (m : Nat) (hm : m ≤ n + 1) :
        (e.put (e.locate (p.upTo (n + 1))) .directory).locate (p.upTo m) =
          e.locate (p.upTo m) :=
      locate_congr (d := e) (e := e.put _ _) rfl (Nat.le_trans hm hn) fun l hl =>
        have hway := h.ways l (Nat.le_of_lt_succ (Nat.lt_of_lt_of_le hl hm))
        ⟨fun _ => hway, fun _ => hkeeps _ hway⟩
    refine ⟨h.start, h.faults, fun m hm => ?_⟩
    rw [hlocate m hm]
    rcases Nat.lt_or_eq_of_le hm with hlt | rfl
    · exact hkeeps _ (h.ways m (Nat.le_of_lt_succ hlt))
    · unfold HasDirectory
      rw [entryAt?_put e _ _ _ (ne_nil_of_not_hasDirectory hnew), if_pos rfl]

/-- The directories on the way to a path, made one after the other. -/
theorem reached_ways (hstart : d.HasDirectory (p.start d.workingDirectory)) {n : Nat}
    (hn : n ≤ p.parts.length)
    (he : ((List.range n).map fun m => p.upTo (m + 1)).foldlM makeDirectory d = .ok e) :
    Reached d e p n := by
  induction n generalizing e with
  | zero =>
    cases he
    refine ⟨rfl, rfl, fun m hm => ?_⟩
    obtain rfl : m = 0 := Nat.le_zero.mp hm
    exact hstart
  | succ n ih =>
    rw [List.range_succ, List.map_append, List.foldlM_append] at he
    cases hbefore : ((List.range n).map fun m => p.upTo (m + 1)).foldlM makeDirectory d with
    | error => rw [hbefore] at he; cases he
    | ok before =>
      rw [hbefore] at he
      refine (ih (Nat.le_of_succ_le hn) hbefore).makeDirectory hn ?_
      cases hlast : before.makeDirectory (p.upTo (n + 1)) with
      | error => simp [hlast, bind, Except.bind] at he
      | ok last => simpa [hlast, bind, Except.bind, pure, Except.pure] using he

/-- Directories that have been made are there. -/
theorem makeDirectories_eq_ok (hstart : d.HasDirectory (p.start d.workingDirectory))
    (he : d.makeDirectories p = .ok e) :
    e.workingDirectory = d.workingDirectory ∧
      e.HasDirectory (p.start d.workingDirectory) ∧ e.HasDirectory (e.locate p) := by
  simp only [makeDirectories] at he
  split at he
  · next hentry =>
    cases he
    exact ⟨rfl, hstart, hentry⟩
  · cases he
  · split at he
    · cases he
    · have hways := reached_ways (p := p) hstart (Nat.le_refl _) he
      have hfirst := hways.ways 0 (Nat.zero_le _)
      have hlast := hways.ways _ (Nat.le_refl _)
      rw [upTo_length] at hlast
      refine ⟨hways.start, ?_, hlast⟩
      rw [← hways.start]
      exact hfirst

/-- Directories that are there need not be made. -/
theorem makeDirectories_of_hasDirectory (h : d.HasDirectory (d.locate p)) :
    d.makeDirectories p = .ok d := by
  unfold HasDirectory at h
  simp only [makeDirectories, h]

/-- A file at a path can be written: the path starts at a directory, the directories on its way can
be made, and then nothing stands against the file. -/
structure Receives (d : Disk) (p : Path) : Prop where
  /-- The path starts at a directory. -/
  start : d.HasDirectory (p.start d.workingDirectory)
  /-- Writing the file fails at no step. -/
  written : ∃ e, d.makeDirectories p.parent = .ok e ∧ e.writeFailure? p (some privateMode) = none

/-- No directory stands where a file can be written. -/
theorem not_hasDirectory_of_writeFailure? {mode : Option Nat}
    (h : d.writeFailure? p mode = none) : ¬ d.HasDirectory (d.locate p) := by
  intro hdirectory
  unfold HasDirectory at hdirectory
  simp only [writeFailure?, hdirectory, if_true] at h
  cases hwrite : d.faults.write with
  | none =>
    simp only [hwrite] at h
    split_ifs at h
  | some fault =>
    simp only [hwrite] at h
    split_ifs at h

/-- The path of a file that can be written ends in a name. -/
theorem endsInName_of_writeFailure? {mode : Option Nat} (h : d.writeFailure? p mode = none) :
    p.endsInName = true := by
  cases hname : p.endsInName with
  | true => rfl
  | false =>
    simp only [writeFailure?, hname, Bool.not_false, if_true] at h
    cases hwrite : d.faults.write with
    | none =>
      simp only [hwrite] at h
      split_ifs at h
    | some fault =>
      simp only [hwrite] at h
      split_ifs at h

theorem Receives.endsInName (h : d.Receives p) : p.endsInName = true :=
  have ⟨_, _, hfree⟩ := h.written
  endsInName_of_writeFailure? hfree

/-- Nothing stands against a file where a file already stands. -/
theorem writeFailure?_of_file {mode : Option Nat} (hfaults : e.faults = d.faults)
    {bytes : List UInt8} {bits : Nat} (hentry : e.entryAt? (e.locate p) = some (.file bytes bits))
    (h : d.writeFailure? p mode = none) : e.writeFailure? p mode = none := by
  unfold writeFailure? at h ⊢
  rw [hfaults]
  cases hwrite : d.faults.write with
  | none =>
    simp only [hwrite] at h ⊢
    split_ifs at h with hcreate hbits hflush hreplace hname
    rw [if_neg hcreate, if_neg hbits, if_neg hflush, if_neg hreplace, if_neg hname, hentry,
      if_neg (by simp)]
  | some fault =>
    simp only [hwrite] at h
    split_ifs at h

/-- A file that can be written is found as it was written, and can be written again. -/
theorem Receives.writeAtomically (h : d.Receives p) (bytes : List UInt8) :
    ∃ e, d.writeAtomically p bytes (some privateMode) = (none, e) ∧ e.bytes? p = some bytes ∧
      e.Receives p := by
  obtain ⟨f, hmade, hfree⟩ := h.written
  obtain ⟨hworking, hstart, hparent⟩ := makeDirectories_eq_ok (p := p.parent) h.start hmade
  have hplace := not_hasDirectory_of_writeFailure? hfree
  let g : Disk := { f with temporaries := f.temporaries + 1 }
  let e := g.put (f.locate p) (.file bytes privateMode)
  have hlocate (q : Path) : e.locate q = f.locate q := locate_put_file (d := g) hplace _ _ q
  have hentry (place : List String) :
      e.entryAt? place =
        if place = f.locate p then some (.file bytes privateMode) else f.entryAt? place :=
    entryAt?_put g _ _ _ (ne_nil_of_not_hasDirectory hplace)
  have hfile : e.entryAt? (e.locate p) = some (.file bytes privateMode) := by
    rw [hlocate, hentry, if_pos rfl]
  have hdirectory {place : List String} (hf : f.HasDirectory place) : e.HasDirectory place := by
    unfold HasDirectory
    rw [hentry, if_neg (by rintro rfl; exact hplace hf)]
    exact hf
  refine ⟨e, ?_, ?_, ⟨?_, e, ?_, writeFailure?_of_file (d := f) rfl hfile hfree⟩⟩
  · simp only [Disk.writeAtomically, hmade, hfree]
    rfl
  · rw [bytes?, if_pos (endsInName_of_writeFailure? hfree), hfile]
  · rw [show e.workingDirectory = d.workingDirectory from hworking]
    exact hdirectory hstart
  · refine makeDirectories_of_hasDirectory ?_
    rw [hlocate]
    exact hdirectory hparent

end Disk

end BearerSession
