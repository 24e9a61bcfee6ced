import BearerSession.Proofs.Credential.Alongside
import BearerSession.Proofs.Credential.Logging

/-!
# Logs side by side

Sessions that correspond note the same, whatever is done in them: what is noted depends on names,
on states and on values outside the tokens, but on the text of no token. So computations that keep
in step do so with their logs, too, over storages that note the same when they are used.
-/

namespace BearerSession

namespace Logged

variable {σ τ α β : Type} {R : σ → τ → Prop} {same : α → β → Prop}

/-- States that correspond, with the same log. -/
def Beside (R : σ → τ → Prop) (s : Logged σ) (t : Logged τ) : Prop :=
  R s.state t.state ∧ s.log = t.log

/-- What keeps in step without a log does so where nothing is noted. -/
theorem silent_inStep {f : Act σ α} {g : Act τ β} (h : InStep R f g same) :
    InStep (Beside R) (silent f) (silent g) same := by
  rintro ⟨s, log⟩ ⟨t, log'⟩ ⟨hs, hlog⟩
  have hend := h s t hs
  unfold silent
  dsimp only
  generalize f s = r at hend ⊢
  generalize g t = r' at hend ⊢
  cases hend with
  | ok hsame hs => exact .ok hsame ⟨hs, hlog⟩
  | error e hs => exact .error e ⟨hs, hlog⟩

/-- So does what is noted the same wherever the states correspond. -/
theorem note_inStep {notes : σ → List LogRecord} {notes' : τ → List LogRecord}
    (h : ∀ s t, R s t → notes s = notes' t) :
    InStep (Beside R) (note notes) (note notes') Eq := by
  rintro ⟨s, log⟩ ⟨t, log'⟩ ⟨hs, hlog⟩
  have hlog : log = log' := hlog
  refine .ok rfl ⟨hs, ?_⟩
  change log ++ notes s = log' ++ notes' t
  rw [h s t hs, hlog]

/-- Outcomes with the same log are outcomes without it. -/
theorem forget_outcomes {r : EStateM.Result Raised (Logged σ) α}
    {r' : EStateM.Result Raised (Logged τ) β} (h : Outcomes (Beside R) same r r') :
    Outcomes R same (forget r) (forget r') := by
  cases h with
  | ok hsame hs => exact .ok hsame hs.1
  | error e hs => exact .error e hs.1

end Logged

namespace Likeness

variable {l : Likeness}

namespace Stores

variable {s s' : Store} (h : l.Stores s s')

include h

/-- That a policy is not known is noted in both. -/
theorem policyNotes_eq : s.policyNotes = s'.policyNotes := by
  unfold Store.policyNotes
  rw [h.cell_eq rfl]

theorem persistsNotes_eq (n : CellName) : s.persistsNotes n = s'.persistsNotes n := by
  have hgoverned : (s'.cell n).governed = (s.cell n).governed := by rw [(h.cell n).rest]
  unfold Store.persistsNotes
  rw [hgoverned, h.policyNotes_eq]

/-- Whether cells are empty is the same in both. -/
theorem raw_isSome (n : CellName) : (s.cell n).raw.isSome = (s'.cell n).raw.isSome := by
  have hraw := (h.cell n).raw
  generalize (s.cell n).raw = v at hraw ⊢
  generalize (s'.cell n).raw = v' at hraw ⊢
  cases hraw <;> rfl

end Stores

/-- Storages that keep in step and note the same when they are used. -/
structure NotingStorages (l : Likeness) {σ τ : Type} [Durable σ] [Durable τ] [Noting σ] [Noting τ]
    (R : σ → τ → Prop) : Prop extends l.Storages R where
  /-- They note the same. -/
  notes : ∀ s t, R s t → Noting.notes s = Noting.notes t

open Logged (Beside silent_inStep note_inStep)
open Session

variable {σ τ : Type} {R : σ → τ → Prop}

/-- Outside the tokens the same is read, and noted. -/
theorem loggedGet_inStep {n : CellName} (hn : n.governed = false) :
    InStep (Beside (l.Sessions R)) (loggedGet n) (loggedGet n) Eq := by
  refine (note_inStep fun s t hs => ?_).bind fun _ _ _ => silent_inStep (Storages.getCell hn)
  unfold Store.readingNotes
  rw [hs.1.cell_eq hn]

theorem loggedPolicy_inStep :
    InStep (Beside (l.Sessions R)) loggedPolicy loggedPolicy Eq :=
  (note_inStep fun _ _ hs => hs.1.policyNotes_eq).bind fun _ _ _ =>
    silent_inStep (.read fun _ _ hs => hs.1.policy_eq)

namespace NotingStorages

variable [Durable σ] [Durable τ] [Noting σ] [Noting τ] (hR : l.NotingStorages R)

include hR

theorem loggedRestore (n : CellName) :
    InStep (Beside (l.Sessions R)) (Session.loggedRestore n) (Session.loggedRestore n) Eq := by
  refine (note_inStep fun s t hs => ?_).bind fun _ _ _ =>
    silent_inStep (Storages.change fun _ _ p hc => hc.restore hR.toStorages p)
  unfold restoreNotes
  rw [hs.1.persistsNotes_eq, hR.notes _ _ hs.2]

theorem loggedSet (n : CellName) (v : Value) :
    InStep (Beside (l.Sessions R)) (Session.loggedSet n v) (Session.loggedSet n v) Eq := by
  refine (note_inStep fun s t hs => ?_).bind fun _ _ _ => silent_inStep (hR.toStorages.setCell n v)
  unfold setNotes
  rw [hR.notes _ _ hs.2, hs.1.persistsNotes_eq, hs.1.policy_eq, (hs.1.cell n).encode_eq,
    (hs.1.cell n).persists_eq]

theorem loggedClear (n : CellName) :
    InStep (Beside (l.Sessions R)) (Session.loggedClear n) (Session.loggedClear n) Eq :=
  (note_inStep fun _ _ hs => hR.notes _ _ hs.2).bind fun _ _ _ =>
    silent_inStep (hR.toStorages.clearCell n)

/-- Whether a value moves is noted in both or in none. -/
theorem loggedMigrate (n : CellName) :
    InStep (Beside (l.Sessions R)) (Session.loggedMigrate n) (Session.loggedMigrate n) Eq := by
  refine (note_inStep fun s t hs => ?_).bind fun _ _ _ =>
    (silent_inStep (hR.toStorages.migrateCell n)).andThen fun moved => ?_
  · have hraw := hs.1.raw_isSome n
    unfold migrateNotes
    rw [hs.1.persistsNotes_eq, hs.1.policy_eq, (hs.1.cell n).persists_eq, (hs.1.cell n).state_eq,
      hR.notes _ _ hs.2]
    generalize (s.store.cell n).raw = v at hraw ⊢
    generalize (t.store.cell n).raw = v' at hraw ⊢
    cases v <;> cases v' <;> first | rfl | contradiction
  · cases moved with
    | false => exact .pure rfl
    | true =>
      refine (note_inStep fun s t hs => ?_).bind fun _ _ _ => .pure rfl
      rw [(hs.1.cell n).rest]

theorem loggedRestoreAll :
    InStep (Beside (l.Sessions R)) Session.loggedRestoreAll Session.loggedRestoreAll Eq :=
  .forM _ fun n => hR.loggedRestore n

theorem loggedSetIfAbsent {n : CellName} (hn : n.governed = false) (v : Value)
    (done : List LogRecord) :
    InStep (Beside (l.Sessions R)) (Session.loggedSetIfAbsent n v done)
      (Session.loggedSetIfAbsent n v done) Eq := by
  refine (loggedGet_inStep hn).andThen fun w => ?_
  split
  · exact (hR.loggedSet n v).bind fun _ _ _ => note_inStep fun _ _ _ => rfl
  · exact .pure rfl

theorem loggedClearAuthorization :
    InStep (Beside (l.Sessions R)) Session.loggedClearAuthorization
      Session.loggedClearAuthorization Eq :=
  (hR.loggedClear _).bind fun _ _ _ => (hR.loggedClear _).bind fun _ _ _ =>
    (hR.loggedClear _).bind fun _ _ _ => note_inStep fun _ _ _ => rfl

theorem loggedMigrateAll (names : List CellName) :
    InStep (Beside (l.Sessions R)) (Session.loggedMigrateAll names)
      (Session.loggedMigrateAll names) Eq := by
  induction names with
  | nil => exact .pure rfl
  | cons n rest ih =>
    exact (hR.loggedMigrate n).andThen fun moved => ih.andThen fun others => .pure rfl

theorem loggedSetPolicy (p : Policy) :
    InStep (Beside (l.Sessions R)) (Session.loggedSetPolicy p) (Session.loggedSetPolicy p) Eq := by
  refine loggedPolicy_inStep.andThen fun q => ?_
  split
  · exact .pure rfl
  · exact (hR.loggedSet _ _).bind fun _ _ _ => (hR.loggedMigrateAll _).andThen fun moved =>
      (note_inStep fun _ _ _ => rfl).bind fun _ _ _ => .pure rfl

end NotingStorages

end Likeness

end BearerSession
