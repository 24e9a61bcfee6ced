import BearerSession.Durable.Memory
import BearerSession.Proofs.Managed.Completion

/-!
# Only the first completion counts

What the listeners of an attempt are told comes from its first completion. Every later completion is
recorded and has no other effect, at once or afterwards. The session changes only when an attempt
whose first completion is a success is finished, or when somebody asks for the change.
-/

namespace BearerSession

namespace Managed

/-- Whether an event completes an attempt from outside the manager. -/
def Event.isCompletion : Event → Bool
  | .reported .. | .raised .. | .expired .. => true
  | _ => false

/-- Whether a move would complete an attempt from outside the manager. -/
def Move.Completes {L : Type} (number : Nat) : Move L → Prop
  | .report n _ | .expire n => n = number
  | .raise n e => n = number ∧ e.isReportable = true
  | _ => False

/-- Completions are no starts. -/
theorem starts_filter_isCompletion (log : List Event) :
    starts (log.filter fun e => !e.isCompletion) = starts log := by
  rw [starts, starts, List.filterMap_filter]
  congr 1
  funext e
  cases e <;> rfl

variable {σ L : Type}

/-- Two states that differ at most in the completions on record. -/
structure Alike (s t : Managed σ L) : Prop where
  /-- The same manager. -/
  manager : s.manager = t.manager
  /-- The same cells and the same durable storage. -/
  session : s.session = t.session
  /-- The same number of calls. -/
  calls : s.calls = t.calls
  /-- The same record of everything else. -/
  log : (s.log.filter fun e => !e.isCompletion) = t.log.filter fun e => !e.isCompletion

theorem Alike.starts_eq {s t : Managed σ L} (h : s.Alike t) : starts s.log = starts t.log := by
  rw [← starts_filter_isCompletion, h.log, starts_filter_isCompletion]

variable [Durable σ]

/-- Where the completions on record differ, the same moves are possible and do the same. -/
theorem Alike.step?_eq {s t : Managed σ L} (h : s.Alike t) (move : Move L) :
    t.step? move = (s.step? move).map fun (e, u) => (e, { u with log := t.log }) := by
  have hstarts := h.starts_eq
  obtain ⟨m, session, calls, log⟩ := s
  obtain ⟨m', session', calls', log'⟩ := t
  obtain ⟨hm, hs, hc, -⟩ := h
  simp only at hm hs hc hstarts
  subst hm hs hc
  cases move with
  | obtain host params listener =>
    simp only [step?]
    split <;> rfl
  | take =>
    simp only [step?]
    cases m.next? <;> rfl
  | start number =>
    simp only [step?]
    split <;> rfl
  | report number o =>
    simp only [step?, hstarts]
    split <;> rfl
  | raise number e =>
    simp only [step?]
    split <;> rfl
  | await number now =>
    simp only [step?]
    split <;> rfl
  | expire number =>
    simp only [step?]
    split <;> rfl
  | finish number =>
    simp only [step?]
    split
    · split <;> rfl
    · rfl
  | tell number raised =>
    simp only [step?]
    cases Telling.next? number m.tellings <;> rfl
  | close | clear | setPolicy => rfl

/-- States that are alike stay so. -/
theorem Alike.step {s t : Managed σ L} (h : s.Alike t) (move : Move L) :
    (s.step move).Alike (t.step move) := by
  unfold Managed.step
  rw [h.step?_eq move]
  cases hm : s.step? move with
  | none => exact h
  | some r =>
    obtain ⟨e, u⟩ := r
    have hlog := (Step.of_step? hm).log_eq
    refine ⟨rfl, rfl, rfl, ?_⟩
    simp only [Option.map_some, log_record, List.filter_append, hlog, h.log]

theorem Alike.run {s t : Managed σ L} (h : s.Alike t) (moves : List (Move L)) :
    (s.run moves).Alike (t.run moves) := by
  induction moves generalizing s t with
  | nil => exact h
  | cons move rest ih => exact ih (h.step move)

omit [Durable σ] in
/-- A further completion on record is the only difference it makes. -/
theorem alike_record (s : Managed σ L) {e : Event} (h : e.isCompletion = true) :
    (s.record e).Alike s :=
  ⟨rfl, rfl, rfl, by simp [log_record, h]⟩

/-- Whether an attempt has been completed or is over. -/
def IsDecided (log : List Event) (number : Nat) : Prop :=
  completions number log ≠ [] ∨ number ∈ finishes log

omit [Durable σ] in
/-- A decided attempt that is outstanding has its outcome. -/
theorem Sound.isSome_outcome {s : Managed σ L} (h : s.Sound) {a : Attempt (Call L)}
    (ha : a ∈ s.manager.attempts) (hd : IsDecided s.log a.number) : a.outcome.isSome = true := by
  rcases hd with hd | hd
  · rw [h.counted.outcome a ha, List.isSome_head?]
    exact hd
  · exact absurd hd (h.recorded.not_mem_finishes ha)

omit [Durable σ] in
/-- Completing a decided attempt changes nothing. -/
theorem Sound.complete_eq {s : Managed σ L} (h : s.Sound) {number : Nat}
    (hd : IsDecided s.log number) (o : Outcome) : s.manager.complete number o = s.manager := by
  have hsame : (s.manager.attempts.map fun a => if a.number = number then a.complete o else a) =
      s.manager.attempts := by
    refine (List.map_congr_left fun a ha => ?_).trans (List.map_id _)
    by_cases hn : a.number = number
    · obtain ⟨p, hp⟩ := Option.isSome_iff_exists.mp (h.isSome_outcome ha (hn ▸ hd))
      obtain ⟨_, _, _, _, _, outcome⟩ := a
      simp only at hp
      simp [Attempt.complete, hp]
    · simp [hn]
  simp only [Manager.complete, Manager.update, hsame]

/-- A late completion is recorded and makes no other difference. -/
theorem Sound.step_late {s : Managed σ L} (h : s.Sound) {number : Nat}
    (hd : IsDecided s.log number) {move : Move L} (hm : move.Completes number) :
    (s.step move).Alike s := by
  rcases s.step_cases move with heq | ⟨e, t, hstep, heq⟩
  · rw [heq]
    exact ⟨rfl, rfl, rfl, rfl⟩
  · rw [heq]
    cases hstep with
    | report =>
      cases hm
      rw [h.complete_eq hd]
      exact alike_record s rfl
    | raise =>
      obtain ⟨rfl, he⟩ := hm
      rw [Manager.startRaised, if_pos he, h.complete_eq hd]
      exact alike_record s rfl
    | @expire a deadline limit _ _ ht =>
      cases hm
      have hexpire : s.manager.expire a.number = s.manager := by
        simp only [Manager.expire, ht, h.complete_eq hd]
      rw [hexpire]
      exact alike_record s rfl
    | _ => exact absurd hm id

omit [Durable σ] in
/-- Closing the manager leaves a decided attempt as it is. -/
theorem Sound.attempt?_close {s : Managed σ L} (h : s.Sound) {number : Nat}
    (hd : IsDecided s.log number) :
    s.manager.close.attempt? number = s.manager.attempt? number := by
  by_cases hc : s.manager.closed = true
  · simp [Manager.close, hc]
  · have hclose : s.manager.close.attempts = s.manager.attempts.map Attempt.close := by
      simp [Manager.close, hc]
    have hfind : s.manager.close.attempt? number =
        (s.manager.attempt? number).map Attempt.close := by
      unfold Manager.attempt?
      rw [hclose, List.find?_map]
      rfl
    rw [hfind]
    cases ha : s.manager.attempt? number with
    | none => rfl
    | some a =>
      obtain ⟨hmem, rfl⟩ := Manager.attempt?_eq_some ha
      have hsome := h.isSome_outcome hmem hd
      have hqueue : a.phase ≠ .queued := by
        intro hq
        rw [(h.counted.queued a hmem hq).1] at hsome
        contradiction
      obtain ⟨p, hp⟩ := Option.isSome_iff_exists.mp hsome
      obtain ⟨_, _, _, _, _, outcome⟩ := a
      simp only at hp hqueue
      simp [Attempt.close, Attempt.complete, hp, hqueue]

/-- The outcome that an attempt is finished with: its first completion, or that it was abandoned,
where no completion came and no wait can be as long as an attempt may last. -/
def Settled (timeout : Option Binary64) (log : List Event) (number : Nat) (accepted : Outcome) :
    Prop :=
  (completions number log).head? = some accepted ∨
    (completions number log = [] ∧ accepted = .failure .abandoned ∧ Overlong timeout)

omit [Durable σ] in
/-- An attempt that is ready is settled. -/
theorem Sound.settled {s : Managed σ L} (h : s.Sound) {a : Attempt (Call L)}
    (ha : a ∈ s.manager.attempts) (hr : a.isReady = true) :
    Settled s.manager.timeout s.log a.number a.result := by
  have hout := h.counted.outcome a ha
  cases ho : a.outcome with
  | some o =>
    left
    rw [← hout, Attempt.result, ho, Option.getD_some]
  | none =>
    right
    refine ⟨List.head?_eq_none_iff.mp (hout.symm.trans ho), by simp [Attempt.result, ho], ?_⟩
    unfold Attempt.isReady at hr
    split at hr
    · simp [ho] at hr
    · next hp => exact h.counted.abandoned a ha hp
    · next hp =>
      obtain ⟨reason, hc⟩ := h.counted.cancelled a ha hp
      simp [ho] at hc
    · contradiction

/-- Only a move that asks for it, or finishing an attempt whose first completion is a success,
touches the session. -/
theorem Sound.session_changes {s : Managed σ L} (h : s.Sound) {move : Move L}
    (hne : (s.step move).session ≠ s.session) :
    move = .clear ∨ (∃ p, move = .setPolicy p) ∨
      ∃ number g, move = .finish number ∧
        (completions number s.log).head? = some (.success g) := by
  rcases s.step_cases move with heq | ⟨e, t, hstep, heq⟩
  · rw [heq] at hne
    exact absurd rfl hne
  · rw [heq] at hne
    cases hstep with
    | clear => exact Or.inl rfl
    | setPolicy => exact Or.inr (Or.inl ⟨_, rfl⟩)
    | @finish a o session ha hr hstore =>
      refine Or.inr (Or.inr ⟨a.number, ?_⟩)
      cases hres : a.result with
      | failure reason =>
        rw [hres] at hstore
        cases hstore
        exact absurd rfl hne
      | success g =>
        rcases h.settled ha hr with hhead | ⟨-, habandoned, -⟩
        · exact ⟨g, rfl, by rw [hhead, hres]⟩
        · rw [hres] at habandoned
          contradiction
    | _ => exact absurd rfl hne

/-- The first completion of an attempt decides what its listeners are told, and nothing but a
success among the first completions touches the session. -/
structure FirstCounts (s₀ : Managed σ L) (moves : List (Move L)) : Prop where
  /-- No attempt is finished twice. -/
  once : (finishes (s₀.run moves).log).Nodup
  /-- What a listener is told comes from the first completion before its attempt was finished. -/
  told : ∀ number call outcome, .told number call outcome ∈ (s₀.run moves).log →
    ∃ earlier later accepted, moves = earlier ++ .finish number :: later ∧
      Settled s₀.manager.timeout (s₀.run earlier).log number accepted ∧
      outcome = (Manager.storeOutcome accepted (s₀.run earlier).session).1
  /-- A late completion makes no difference, whatever happens next. -/
  late : ∀ number, IsDecided (s₀.run moves).log number → ∀ move : Move L,
    move.Completes number → ∀ later : List (Move L),
      (((s₀.run moves).step move).run later).Alike ((s₀.run moves).run later)
  /-- Neither does closing the manager, as far as the attempt and the session are concerned. -/
  lateClose : ∀ number, IsDecided (s₀.run moves).log number →
    ((s₀.run moves).step .close).manager.attempt? number =
        (s₀.run moves).manager.attempt? number ∧
      ((s₀.run moves).step .close).manager.last = (s₀.run moves).manager.last ∧
      ((s₀.run moves).step .close).manager.tellings = (s₀.run moves).manager.tellings ∧
      ((s₀.run moves).step .close).session = (s₀.run moves).session ∧
      toldCalls ((s₀.run moves).step .close).log = toldCalls (s₀.run moves).log
  /-- Cells and durable storage change only when somebody asks for it, or when an attempt whose
  first completion is a success is finished. -/
  changes : ∀ move : Move L, ((s₀.run moves).step move).session ≠ (s₀.run moves).session →
    move = .clear ∨ (∃ p, move = .setPolicy p) ∨
      ∃ number g, move = .finish number ∧
        (completions number (s₀.run moves).log).head? = some (.success g)

/-- What a listener is told was settled when its attempt was finished. -/
theorem settled_of_told {s₀ : Managed σ L} (h₀ : s₀.log = [])
    (hsound : ∀ moves : List (Move L), (s₀.run moves).Sound) {moves : List (Move L)}
    {number call : Nat} {outcome : Outcome}
    (ht : Event.told number call outcome ∈ (s₀.run moves).log) :
    ∃ earlier later accepted, moves = earlier ++ .finish number :: later ∧
      Settled s₀.manager.timeout (s₀.run earlier).log number accepted ∧
      outcome = (Manager.storeOutcome accepted (s₀.run earlier).session).1 := by
  obtain ⟨accepted, collected, hf, -⟩ := (hsound moves).recorded.told number call outcome ht
  obtain ⟨before, after, hlog⟩ := List.append_of_mem hf
  obtain ⟨earlier, later, t, move, -, hmoves, hstep, -⟩ := exists_step_of_log_eq h₀ hlog
  cases hstep with
  | finish ha hr hstore =>
    refine ⟨earlier, later, _, hmoves, ?_, by rw [hstore]⟩
    have hsettled := (hsound earlier).settled ha hr
    rwa [run_timeout] at hsettled

/-- After every run, only first completions count and only successes touch the session. -/
theorem run_firstCounts (share : Bool) (timeout : Option Binary64) (hasProcess : Bool)
    (session : Session σ) (moves : List (Move L)) :
    FirstCounts (new share timeout hasProcess session : Managed σ L) moves where
  once := (run_sound share timeout hasProcess session moves).recorded.once
  told := by
    intro number call outcome ht
    exact settled_of_told rfl (run_sound share timeout hasProcess session) ht
  late := by
    intro number hd move hm later
    exact ((run_sound share timeout hasProcess session moves).step_late hd hm).run later
  lateClose := by
    intro number hd
    have hs := run_sound (L := L) share timeout hasProcess session moves
    refine ⟨hs.attempt?_close hd, ?_, (Manager.quiet_close _).tellings, rfl, ?_⟩
    · change Manager.last (Manager.close _) = _
      unfold Manager.close
      split <;> rfl
    · change toldCalls (_ ++ [_]) = _
      simp [toldCalls]
  changes := by
    intro move hne
    exact (run_sound share timeout hasProcess session moves).session_changes hne

/-- This is where the limit of an attempt slips: when it is longer than anything can be waited for,
the wait is not shortened but fails at once. The process has been started, nothing completes the
attempt, and its listener is told all the same. -/
theorem told_without_completion :
    ¬ ∀ (timeout : Option Binary64) (moves : List (Move String)) (number call : Nat)
      (outcome : Outcome),
      .told number call outcome ∈
          ((new true timeout true ⟨.blank .always, ⟨[], []⟩⟩ : Managed Memory String).run
            moves).log →
        completions number
          ((new true timeout true ⟨.blank .always, ⟨[], []⟩⟩ : Managed Memory String).run
            moves).log ≠ [] := by
  intro h
  refine h (some (.ofInt 9223372037))
    [.obtain .null [] (some "l"), .take, .start 0, .await 0 (.zero false), .finish 0,
      .tell 0 none] 0 0 (.failure .abandoned) ?_ rfl
  exact List.mem_of_getElem? (i := 5) rfl

end Managed

end BearerSession
