import BearerSession.Credential.Logging
import BearerSession.Proofs.Credential.PolicyChange
import BearerSession.Workplace

/-!
# The log is written beside

A computation that logs leaves the state and the answer that it would leave without a log. So what
is known of sessions without a log is known of those that have one.
-/

namespace BearerSession

/-- What follows a computation whose answer is dropped follows it. -/
theorem Act.discard_bind {σ α β : Type} (f : Act σ α) (k : Unit → Act σ β) :
    (discard f >>= k) = f >>= fun _ => k () := by
  funext s
  rw [Act.bind_apply, Act.bind_apply, show discard f s = EStateM.map (fun _ => ()) f s from rfl]
  unfold EStateM.map
  cases f s <;> rfl

namespace Logged

variable {σ α β : Type}

/-- The outcome of a computation without its log. -/
def forget : EStateM.Result Raised (Logged σ) α → EStateM.Result Raised σ α
  | .ok a s => .ok a s.state
  | .error e s => .error e s.state

/-- Whether a computation does what another one does, and besides that only logs. -/
def Does (f : Act (Logged σ) α) (g : Act σ α) : Prop := ∀ s, forget (f s) = g s.state

namespace Does

variable {f : Act (Logged σ) α} {g : Act σ α} {k : α → Act (Logged σ) β} {l : α → Act σ β}

theorem silent (g : Act σ α) : Does (silent g) g := by
  intro s
  unfold Logged.silent
  cases g s.state <;> rfl

theorem pure (a : α) : Does (Pure.pure a : Act (Logged σ) α) (Pure.pure a) := fun _ => rfl

theorem bind (hf : Does f g) (hk : ∀ a, Does (k a) (l a)) : Does (f >>= k) (g >>= l) := by
  intro s
  rw [Act.bind_apply, Act.bind_apply, ← hf s]
  cases f s with
  | ok a t => exact hk a t
  | error e t => rfl

/-- Notes that are taken first do not matter. -/
theorem noteThen (hf : Does f g) (notes : σ → List LogRecord) :
    Does (note notes >>= fun _ => f) g := fun s => hf ⟨s.state, s.log ++ notes s.state⟩

/-- Nor do those that are taken last. -/
theorem thenNote {f : Act (Logged σ) Unit} {g : Act σ Unit} (hf : Does f g)
    (notes : σ → List LogRecord) : Does (f >>= fun _ => note notes) g := by
  intro s
  rw [Act.bind_apply, ← hf s]
  cases f s <;> rfl

/-- What is done for each of a list may log for each of it. -/
theorem forM {ι : Type} {k : ι → Act (Logged σ) Unit} {l : ι → Act σ Unit}
    (h : ∀ i, Does (k i) (l i)) (names : List ι) : Does (names.forM k) (names.forM l) := by
  induction names with
  | nil => exact .pure ()
  | cons i rest ih => exact (h i).bind fun _ => ih

/-- Where both do the same, they leave the same. -/
theorem after (hf : Does f g) (s : Logged σ) : (f.after s).state = g.after s.state := by
  unfold Act.after
  rw [← hf s]
  cases f s <;> rfl

end Does

end Logged

namespace Session

open Logged (Does)

variable {σ : Type} [Durable σ] [Noting σ]

theorem does_loggedSet (n : CellName) (v : Value) :
    Does (loggedSet n v : Act (Logged (Session σ)) Unit) (set n v) := (Does.silent _).noteThen _

theorem does_loggedClear (n : CellName) :
    Does (loggedClear n : Act (Logged (Session σ)) Unit) (clear n) := (Does.silent _).noteThen _

omit [Durable σ] [Noting σ] in
theorem does_loggedGet (n : CellName) :
    Does (loggedGet n : Act (Logged (Session σ)) Value) (get n) := (Does.silent _).noteThen _

omit [Durable σ] [Noting σ] in
theorem does_loggedPolicy :
    Does (loggedPolicy : Act (Logged (Session σ)) Policy)
      (do return (← MonadState.get).store.policy) := (Does.silent _).noteThen _

theorem does_loggedRestoreAll :
    Does (loggedRestoreAll : Act (Logged (Session σ)) Unit)
      (CellName.all.forM fun n => change n Cell.restore) :=
  .forM (fun _ => (Does.silent _).noteThen _) _

theorem does_loggedSetIfAbsent (n : CellName) (v : Value) (done : List LogRecord) :
    Does (loggedSetIfAbsent n v done : Act (Logged (Session σ)) Unit) (setIfAbsent n v) := by
  refine (does_loggedGet n).bind fun w => ?_
  split
  · exact (does_loggedSet n v).thenNote _
  · exact .pure ()

theorem does_loggedClearAuthorization :
    Does (loggedClearAuthorization : Act (Logged (Session σ)) Unit) clearAuthorization :=
  (does_loggedClear _).bind fun _ => (does_loggedClear _).bind fun _ =>
    (does_loggedClear _).thenNote _

theorem does_loggedMigrate (n : CellName) :
    Does (loggedMigrate n : Act (Logged (Session σ)) Bool) (migrate n) := by
  have hmoved : Does (do
      let moved ← Logged.silent (migrate n)
      if moved then
        Logged.note fun s : Session σ =>
          let c := s.store.cell n
          [⟨.debug, s!"Cell '{c.name}' migrated to {c.state.name}"⟩]
      return moved) (migrate n >>= Pure.pure) := by
    refine (Does.silent _).bind fun moved => ?_
    cases moved with
    | true => exact (Does.pure true).noteThen _
    | false => exact .pure false
  rw [bind_pure] at hmoved
  exact hmoved.noteThen _

/-- Which cells have moved need not be known. -/
theorem does_loggedMigrateAll {α : Type} {k : List CellName → Act (Logged (Session σ)) α}
    {l : Act (Session σ) α} (names : List CellName) (hk : ∀ moved, Does (k moved) l) :
    Does (loggedMigrateAll names >>= k)
      ((names.forM fun n => discard (migrate n)) >>= fun _ => l) := by
  induction names generalizing k with
  | nil => exact hk []
  | cons n rest ih =>
    have hfirst := (does_loggedMigrate n).bind fun moved =>
      ih (k := fun others => k (if moved then n :: others else others)) fun others => hk _
    simp only [loggedMigrateAll, bind_assoc, pure_bind]
    rw [show (n :: rest).forM (fun n => discard (migrate n : Act (Session σ) Bool)) =
      (discard (migrate n) >>= fun _ => rest.forM fun n => discard (migrate n)) from rfl,
      bind_assoc, Act.discard_bind]
    exact hfirst

theorem does_loggedSetPolicy (p : Policy) :
    Does (loggedSetPolicy p : Act (Logged (Session σ)) Bool) (setPolicy p) := by
  have hpolicy : setPolicy p = (do
      let q ← (do return (← MonadState.get).store.policy : Act (Session σ) Policy)
      if q = p then return false
      set .policy (.text p.name)
      CellName.tokens.forM fun n => do discard (migrate n)
      return true) := by
    simp only [setPolicy, bind_assoc, pure_bind]
  rw [hpolicy]
  refine does_loggedPolicy.bind fun q => ?_
  split
  · exact .pure false
  · exact (does_loggedSet _ _).bind fun _ =>
      does_loggedMigrateAll _ fun _ => (Does.pure true).noteThen _

end Session

end BearerSession
