import Mathlib.Algebra.BigOperators.Group.List.Basic
import Mathlib.Algebra.GroupWithZero.Nat
import BearerSession.Proofs.Managed.FirstCompletion
import BearerSession.Proofs.Managed.Membership
import BearerSession.Proofs.Managed.Serial

/-!
# How the worker comes to rest

Each move of the worker is one piece of the work that is left; for an attempt from which it has been
taken away there is none. When the manager is closed this work never grows, and as long as a piece
is left the worker has a possible move; so it comes to rest, and then no other attempt is
outstanding and no listener is left to be told.
-/

namespace BearerSession

/-- The moves of the worker that are left for an attempt in a phase, but for telling its listeners,
where it is not waiting for its turn. -/
def Phase.toDo : Phase → Nat
  | .taken => 3
  | .starting => 2
  | _ => 1

/-- The moves of the worker that are left for an attempt. -/
def Attempt.toDo {L : Type} (a : Attempt L) : Nat :=
  if a.phase = .lost then 0 else a.listeners.length + a.phase.toDo

namespace Manager

variable {L : Type} {m : Manager L}

/-- An outstanding attempt is found under its number. -/
theorem Orderly.attempt?_eq (h : m.Orderly) {a : Attempt L} (ha : a ∈ m.attempts) :
    m.attempt? a.number = some a := by
  have hfound : (m.attempt? a.number).isSome := by
    unfold attempt?
    exact List.find?_isSome.mpr ⟨a, ha, by simp⟩
  obtain ⟨b, hb⟩ := Option.isSome_iff_exists.mp hfound
  obtain ⟨hmem, hn⟩ := attempt?_eq_some hb
  rw [hb, h.eq_of_number_eq hmem ha hn]

/-- The moves of the worker that are left when nothing is taken any more. -/
def toDo (m : Manager (Call L)) : Nat :=
  (m.attempts.map Attempt.toDo).sum + m.untoldCalls.length

variable {m : Manager (Call L)}

end Manager

namespace Managed

/-- Whether a move is one of the worker's: it takes what is next, starts its process, goes on to
wait, finishes what is ready, and tells those who are to be told. -/
def Move.isWorkers {L : Type} : Move L → Bool
  | .take | .start _ | .await .. | .finish _ | .tell .. => true
  | _ => false

variable {σ L : Type} [Durable σ] {s t : Managed σ L} {move : Move L} {e : Event}

/-- The worker has come to rest: none of its moves is possible. -/
def AtRest (s : Managed σ L) : Prop :=
  ∀ move : Move L, move.isWorkers = true → s.step? move = none

/-- When the manager is closed, what is outstanding has been completed. -/
def Decided (s : Managed σ L) : Prop :=
  s.manager.closed = true →
    ∀ number ∈ s.manager.roster.map Prod.fst, completions number s.log ≠ []

/-- Every rule keeps it so. -/
theorem Step.decided (h : Step s move e t) (hd : s.Decided) : (t.record e).Decided := by
  intro hclosed
  have hlog : (t.record e).log = s.log ++ [e] := by rw [log_record, h.log_eq]
  have hkept : ∀ number, completions number s.log ≠ [] →
      completions number (t.record e).log ≠ [] := by
    intro number hne
    rw [hlog, completions_append]
    exact List.append_ne_nil_of_left_ne_nil hne _
  have hroster : t.manager.roster.map Prod.fst ⊆ s.manager.roster.map Prod.fst := by
    obtain ⟨host, params, l, rfl, -, hopen, -⟩ | ⟨a, hmem, o, -, -, -, hm, -⟩ |
      ⟨-, -, -, hsame⟩ := h.roster_cases
    · rcases h.closed_cases with hc | ⟨he, -⟩
      · exact absurd (hclosed.symm.trans (hc.trans hopen)) (by simp)
      · contradiction
    · rw [hm, Manager.roster_remove]
      exact (List.filter_sublist.map _).subset
    · rw [hsame.roster]
      exact List.Subset.refl _
  intro number hn
  rcases h.closed_cases with hc | ⟨rfl, -⟩
  · exact hkept number (hd (hc.symm.trans hclosed) number (hroster hn))
  · by_cases hbefore : s.manager.closed = true
    · exact hkept number (hd hbefore number (hroster hn))
    · -- it was open until now, and closing it completes whatever is outstanding
      have hpending : number ∈ s.manager.pending := by
        rw [Manager.pending, if_neg hbefore, ← Manager.roster_fst]
        exact hroster hn
      rw [hlog, completions_append]
      refine List.append_ne_nil_of_right_ne_nil _ ?_
      simp [completions, completionOf, hpending]

theorem Decided.run (h : s.Decided) (moves : List (Move L)) : (s.run moves).Decided :=
  run_induction h fun _ _ _ _ _ hs hstep => hstep.decided hs

section Possible

/-- The process of an attempt that the worker has taken can be started. -/
theorem step?_start (ho : s.manager.Orderly) {a : Attempt (Call L)} (ha : a ∈ s.manager.attempts)
    (hp : a.phase = .taken) : s.step? (.start a.number) =
      some (.started a.number, { s with manager := s.manager.start a.number }) := by
  have hphase : s.manager.phase? a.number = some .taken := by
    rw [Manager.phase?, ho.attempt?_eq ha, Option.map_some, hp]
  simp only [step?, hphase, if_true]

/-- The process that is being started can raise. -/
theorem step?_raise (ho : s.manager.Orderly) {a : Attempt (Call L)} (ha : a ∈ s.manager.attempts)
    (hp : a.phase = .starting) (e : Raised) : s.step? (.raise a.number e) =
      some (.raised a.number e, { s with manager := s.manager.startRaised a.number e }) := by
  have hphase : s.manager.phase? a.number = some .starting := by
    rw [Manager.phase?, ho.attempt?_eq ha, Option.map_some, hp]
  simp only [step?, hphase, if_true]

/-- Otherwise the worker can wait for it. -/
theorem step?_await (ho : s.manager.Orderly) {a : Attempt (Call L)} (ha : a ∈ s.manager.attempts)
    (hp : a.phase = .starting) (now : Binary64) : s.step? (.await a.number now) =
      some (.awaited a.number, { s with manager := s.manager.await a.number now }) := by
  have hphase : s.manager.phase? a.number = some .starting := by
    rw [Manager.phase?, ho.attempt?_eq ha, Option.map_some, hp]
  simp only [step?, hphase, if_true]

/-- What is ready can be finished. -/
theorem step?_finish (ho : s.manager.Orderly) {a : Attempt (Call L)} (ha : a ∈ s.manager.attempts)
    (hr : a.isReady = true) : ∃ o session, s.step? (.finish a.number) =
      some (.finished a.number a.result o (a.listeners.map Call.number),
        { s with manager := s.manager.remove a o, session }) := by
  simp only [step?, ho.attempt?_eq ha, hr, if_true]
  exact ⟨_, _, rfl⟩

end Possible

section Work

/-- What every run keeps in which only ordinary errors are raised. -/
structure Dependable (s : Managed σ L) : Prop where
  /-- Attempts take turns and tell their listeners. -/
  regular : s.Regular
  /-- Every call belongs to an attempt. -/
  accounted : s.Accounted
  /-- Every call is answered once. -/
  delivered : s.Delivered
  /-- A closed manager has completed what is outstanding. -/
  decided : s.Decided
  /-- The worker is where the record has it. -/
  staffed : s.Staffed

theorem Step.dependable (h : Step s move e t) (hord : move.isOrdinary = true)
    (hs : s.Dependable) : (t.record e).Dependable where
  regular := h.regular hord hs.regular
  accounted := h.accounted hs.regular.sound.orderly hs.accounted
  delivered := h.delivered hord hs.regular.sound.orderly hs.delivered
  decided := h.decided hs.decided
  staffed := h.staffed hs.regular.sound hs.staffed

theorem Dependable.step (h : s.Dependable) (hord : move.isOrdinary = true) :
    (s.step move).Dependable := by
  rcases s.step_cases move with hs | ⟨e, t, hstep, he⟩
  · rw [hs]
    exact h
  · rw [he]
    exact hstep.dependable hord h

theorem Dependable.run (h : s.Dependable) {moves : List (Move L)}
    (hord : ∀ move ∈ moves, move.isOrdinary = true) : (s.run moves).Dependable :=
  run_induction h fun _ _ _ move hm hs hstep => hstep.dependable (hord move hm) hs

omit [Durable σ] in
/-- In a closed manager nothing waits for its turn. -/
theorem Regular.phase_ne_queued (h : s.Regular) (hc : s.manager.closed = true)
    {a : Attempt (Call L)} (ha : a ∈ s.manager.attempts) : a.phase ≠ .queued := by
  intro hq
  obtain ⟨next, hturns⟩ := h.inTurn.turns
  have hopen := (hturns.queued a.number (hq ▸ Manager.mem_standing ha)).2
  exact absurd (hc.symm.trans hopen) (by simp)

omit [Durable σ] in
/-- So the worker of a closed manager takes nothing. -/
theorem Regular.next?_eq_none (h : s.Regular) (hc : s.manager.closed = true) :
    s.manager.next? = none := by
  by_contra hne
  obtain ⟨a, ha⟩ := Option.ne_none_iff_exists'.mp hne
  obtain ⟨hmem, hq⟩ := Manager.mem_of_next? ha
  exact h.phase_ne_queued hc hmem hq

/-- Nothing is left for the worker: it has been taken away from whatever is outstanding, and nobody
is to be told. -/
def WorkDone (s : Managed σ L) : Prop :=
  (∀ a ∈ s.manager.attempts, a.phase = .lost) ∧ s.manager.tellings = []

/-- As long as something else is outstanding or somebody is to be told, the worker of a closed
manager has a possible move. -/
theorem Dependable.exists_work (h : s.Dependable) (hc : s.manager.closed = true)
    (hleft : ¬ s.WorkDone) :
    ∃ move : Move L, move.isWorkers = true ∧ move.isOrdinary = true ∧
      ∃ e t, s.step? move = some (e, t) := by
  have hs := h.regular.sound
  rcases Classical.not_and_iff_not_or_not.mp hleft with hne | hne
  · push Not at hne
    obtain ⟨a, ha, hkept⟩ := hne
    have hfinish : a.isReady = true → ∃ move : Move L, move.isWorkers = true ∧
        move.isOrdinary = true ∧ ∃ e t, s.step? move = some (e, t) := by
      intro hr
      obtain ⟨o, session, hstep⟩ := step?_finish hs.orderly ha hr
      exact ⟨.finish a.number, rfl, rfl, _, _, hstep⟩
    cases hp : a.phase with
    | queued => exact absurd hp (h.regular.phase_ne_queued hc ha)
    | taken => exact ⟨.start a.number, rfl, rfl, _, _, step?_start hs.orderly ha hp⟩
    | starting =>
      exact ⟨.await a.number (.zero false), rfl, rfl, _, _, step?_await hs.orderly ha hp _⟩
    | waiting deadline =>
      refine hfinish ?_
      have hin : a.number ∈ s.manager.roster.map Prod.fst := by
        rw [Manager.roster_fst]
        exact List.mem_map_of_mem ha
      have hsome := hs.isSome_outcome ha (.inl (h.decided hc a.number hin))
      simp only [Attempt.isReady, hp, hsome]
    | abandoned | cancelled => exact hfinish (by simp only [Attempt.isReady, hp])
    | lost => exact absurd hp hkept
  · obtain ⟨u, rest, htellings⟩ := List.exists_cons_of_ne_nil hne
    have hu : u ∈ s.manager.tellings := htellings ▸ List.mem_cons_self
    obtain ⟨c, o, left, hn⟩ := Telling.exists_next? hs.orderly.untold ⟨u, hu, rfl⟩
    refine ⟨.tell u.number none, rfl, rfl, ?_⟩
    simp only [step?, hn, Option.map_some]
    exact ⟨_, _, rfl⟩

/-- The worker of a closed manager comes to rest only when nothing is left for it. -/
theorem Dependable.workDone (h : s.Dependable) (hc : s.manager.closed = true)
    (hrest : s.AtRest) : s.WorkDone := by
  by_contra hleft
  obtain ⟨move, hw, -, e, t, hstep⟩ := h.exists_work hc hleft
  rw [hrest move hw] at hstep
  contradiction

/-- When nothing is left for it, the worker is at rest. -/
theorem WorkDone.atRest (h : s.WorkDone) : s.AtRest := by
  obtain ⟨hlost, htellings⟩ := h
  intro move hw
  by_contra hmove
  obtain ⟨⟨e, t⟩, hsome⟩ := Option.ne_none_iff_exists'.mp hmove
  cases Step.of_step? hsome with
  | take ha =>
    obtain ⟨hmem, hq⟩ := Manager.mem_of_next? ha
    rw [hlost _ hmem] at hq
    contradiction
  | start ha hp | await ha hp =>
    rw [hlost _ ha] at hp
    contradiction
  | finish ha hr => simp [Attempt.isReady, hlost _ ha] at hr
  | tell hn =>
    rw [htellings] at hn
    contradiction
  | _ => contradiction

end Work

end Managed

end BearerSession
