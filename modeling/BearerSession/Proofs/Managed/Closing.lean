import BearerSession.Proofs.Managed.Rest

/-!
# Closing the manager

Closing completes whatever is outstanding and accepts nothing more. When the worker has come to rest
after that, every attempt is over and every listener has been told, and nothing that happens
afterwards makes a difference. Only an attempt from which the worker has been taken away, by an
error without a text in its start, stays outstanding, and its listeners are not told.
-/

namespace BearerSession

namespace Manager

variable {L : Type}

/-- What has been completed is completed by nothing else. -/
theorem complete_eq_self {m : Manager L} (h : ∀ a ∈ m.attempts, a.outcome.isSome = true)
    (number : Nat) (o : Outcome) : m.complete number o = m := by
  have hsame : m.attempts.map (fun a => if a.number = number then a.complete o else a) =
      m.attempts := by
    refine (List.map_congr_left fun a ha => ?_).trans (List.map_id _)
    obtain ⟨p, hp⟩ := Option.isSome_iff_exists.mp (h a ha)
    have hcomplete : a.complete o = a := by
      rw [Attempt.complete, hp, Option.some_or, ← hp]
    simp only [hcomplete, ite_self, id]
  simp only [complete, update, hsame]

variable {m : Manager (Call L)}

/-- Whoever waits waits in an outstanding attempt. -/
theorem mem_waitingCalls {call : Nat} :
    call ∈ m.waitingCalls ↔ ∃ a ∈ m.attempts, call ∈ a.listeners.map Call.number := by
  rw [waitingCalls, roster, List.flatMap_map, List.map_flatMap, List.mem_flatMap]

theorem untoldCalls_eq_nil (h : m.tellings = []) : m.untoldCalls = [] := by
  rw [untoldCalls, h]
  rfl

end Manager

namespace Managed

variable {σ L : Type} [Durable σ] {s t : Managed σ L} {move : Move L} {e : Event}

section Fate

/-- An attempt ends with an outcome: this is its first completion, or it was finished with it. A
failure is what its listeners get. -/
def EndsWith (s : Managed σ L) (number : Nat) (accepted : Outcome) : Prop :=
  (number ∈ s.manager.roster.map Prod.fst ∧ (completions number s.log).head? = some accepted) ∨
    ∃ outcome calls, .finished number accepted outcome calls ∈ s.log ∧
      ∀ r, accepted = .failure r → outcome = .failure r

/-- What an attempt ends with it ends with for ever. -/
theorem Step.endsWith (h : Step s move e t) (hs : s.Sound) {number : Nat} {accepted : Outcome}
    (hf : s.EndsWith number accepted) : (t.record e).EndsWith number accepted := by
  have hlog : (t.record e).log = s.log ++ [e] := by rw [log_record, h.log_eq]
  rcases hf with ⟨hin, hhead⟩ | ⟨outcome, calls, hf, hfailure⟩
  · have hhead' : (completions number (t.record e).log).head? = some accepted := by
      rw [hlog, head?_completions_concat, hhead, Option.some_or]
    obtain hin' | ⟨a, hmem, rfl, -, o, hstore, rfl⟩ := h.stays_or_finished hin
    · exact .inl ⟨hin', hhead'⟩
    · have hresult : a.result = accepted := by
        have hout := hs.counted.outcome a hmem
        rw [hhead] at hout
        rw [Attempt.result, hout, Option.getD_some]
      rw [hresult] at hstore
      refine .inr ⟨o, a.listeners.map Call.number, ?_, ?_⟩
      · rw [hlog, hresult]
        exact List.mem_append_right _ List.mem_cons_self
      · rintro r rfl
        exact (Prod.mk.inj hstore).1.symm
  · refine .inr ⟨outcome, calls, ?_, hfailure⟩
    rw [hlog]
    exact List.mem_append_left _ hf

theorem EndsWith.run {number : Nat} {accepted : Outcome} (h : s.EndsWith number accepted)
    (hs : s.Sound) (moves : List (Move L)) : (s.run moves).EndsWith number accepted := by
  refine (run_induction (P := fun s => s.Sound ∧ s.EndsWith number accepted) ⟨hs, h⟩
    fun s e t _ _ h hstep => ?_).2
  exact ⟨hstep.sound h.1, hstep.endsWith h.1 h.2⟩

omit [Durable σ] in
/-- A completed attempt ends with what it was completed with. -/
theorem Sound.endsWith (hs : s.Sound) {a : Attempt (Call L)} (ha : a ∈ s.manager.attempts)
    {accepted : Outcome} (ho : a.outcome = some accepted) : s.EndsWith a.number accepted := by
  refine .inl ⟨?_, ?_⟩
  · rw [Manager.roster_fst]
    exact List.mem_map_of_mem ha
  · rw [← hs.counted.outcome a ha, ho]

end Fate

section Finality

/-- Nothing has been accepted since, and no process has been started but that of the attempt that
the worker had taken. -/
structure Shut (s u : Managed σ L) : Prop where
  /-- The manager is closed. -/
  closed : u.manager.closed = true
  /-- No call has been accepted. -/
  calls : u.calls = s.calls
  /-- As long as the process of an attempt has still to be started, none has been. -/
  taken : ∀ number, (number, .taken) ∈ u.manager.standing →
    (number, .taken) ∈ s.manager.standing ∧ starts u.log = starts s.log
  /-- At most that process has been started. -/
  starts : starts u.log = starts s.log ∨
    ∃ number, (number, .taken) ∈ s.manager.standing ∧ starts u.log = starts s.log ++ [number]

theorem Step.shut {c : Managed σ L} (h : Step s move e t) (hs : s.Regular) (hc : c.Shut s) :
    c.Shut (t.record e) where
  closed := by
    rcases h.closed_cases with hkept | ⟨-, hclosed⟩
    · exact hkept.trans hc.closed
    · exact hclosed
  calls := by
    change t.calls = c.calls
    obtain ⟨-, -, -, -, -, hopen, -⟩ | ⟨-, -, -, -, -, -, -, hcalls⟩ | ⟨-, -, hcalls, -⟩ :=
      h.roster_cases
    · exact absurd (hc.closed.symm.trans hopen) (by simp)
    · exact hcalls.trans hc.calls
    · exact hcalls.trans hc.calls
  taken := by
    intro number hn
    have hstood : (number, .taken) ∈ s.manager.standing := by
      obtain ⟨-, hp, -⟩ | ⟨q, hq, hpass⟩ := h.passes hs.sound.orderly hn
      · contradiction
      · rcases hpass.taken_cases with rfl | rfl
        · exact hq
        · cases h with
          | take ha =>
            rw [hs.next?_eq_none hc.closed] at ha
            contradiction
    obtain ⟨hbefore, hsame⟩ := hc.taken number hstood
    refine ⟨hbefore, ?_⟩
    rw [log_record, h.log_eq, ← hsame]
    cases h with
    | start ha hp =>
      -- it stands as taken no longer, and no other one did
      obtain ⟨next, hturns⟩ := hs.inTurn.turns
      have hone := hturns.taken _ (hp ▸ Manager.mem_standing ha)
      change _ ∈ (s.manager.start _).standing at hn
      rw [Manager.start, hs.sound.orderly.standing_update ha rfl] at hn
      rcases Turns.mem_move hn with ⟨-, hphase⟩ | ⟨hne, -⟩
      · contradiction
      · exact absurd ((hturns.taken number hstood).trans hone.symm) hne
    | _ => exact starts_concat s.log rfl
  starts := by
    rw [log_record, h.log_eq]
    cases h with
    | start ha hp =>
      obtain ⟨hbefore, hsame⟩ := hc.taken _ (hp ▸ Manager.mem_standing ha)
      exact .inr ⟨_, hbefore, by rw [starts_append, hsame]; rfl⟩
    | _ =>
      rw [starts_concat s.log rfl]
      exact hc.starts

theorem Shut.run {c : Managed σ L} (h : c.Shut s) (hs : s.Regular) {moves : List (Move L)}
    (hord : ∀ move ∈ moves, move.isOrdinary = true) : c.Shut (s.run moves) := by
  refine (run_induction (P := fun s => s.Regular ∧ c.Shut s) ⟨hs, h⟩
    fun s e t move hm h hstep => ?_).2
  exact ⟨hstep.regular (hord move hm) h.1, hstep.shut h.1 h.2⟩

/-- All is settled in a closed manager: nothing is left for the worker, and whatever is still
outstanding has been completed. -/
structure AllSettled (s : Managed σ L) : Prop where
  /-- The manager is closed. -/
  closed : s.manager.closed = true
  /-- Nothing is left for the worker. -/
  done : s.WorkDone
  /-- What is outstanding has been completed. -/
  completed : ∀ a ∈ s.manager.attempts, a.outcome.isSome = true

/-- This is so when the worker of a closed manager has come to rest. -/
theorem Dependable.allSettled (h : s.Dependable) (hc : s.manager.closed = true)
    (hrest : s.AtRest) : s.AllSettled where
  closed := hc
  done := h.workDone hc hrest
  completed a ha := by
    refine h.regular.sound.isSome_outcome ha (.inl (h.decided hc a.number ?_))
    rw [Manager.roster_fst]
    exact List.mem_map_of_mem ha

/-- Neither the manager nor anybody who waits notices a difference. -/
structure Unmoved (s u : Managed σ L) : Prop where
  /-- The manager has stayed as it was. -/
  manager : u.manager = s.manager
  /-- No process has been started. -/
  starts : starts u.log = starts s.log
  /-- Nobody has been told anything. -/
  told : toldCalls u.log = toldCalls s.log

/-- When all is settled, no move makes a difference to the manager, and only who asks for it changes
the session. -/
theorem Step.unmoved (h : Step s move e t) (ha : s.AllSettled) :
    s.Unmoved (t.record e) ∧
      (move ≠ .clear → (∀ p, move ≠ .setPolicy p) → t.session = s.session) := by
  have hkeep : t.manager = s.manager → Managed.starts [e] = [] → toldCalls [e] = [] →
      s.Unmoved (t.record e) := by
    intro hm hs htold
    refine ⟨hm, ?_, ?_⟩
    · rw [log_record, h.log_eq, starts_concat _ hs]
    · rw [log_record, h.log_eq, toldCalls_concat _ htold]
  have hlost : ∀ a ∈ s.manager.attempts, a.phase = .lost := ha.done.1
  cases h with
  | accept hm => exact absurd (Manager.obtain_eq_ok hm).1 (by simp [ha.closed])
  | refuse => exact ⟨hkeep rfl rfl rfl, fun _ _ => rfl⟩
  | take hn =>
    obtain ⟨hmem, hq⟩ := Manager.mem_of_next? hn
    rw [hlost _ hmem] at hq
    contradiction
  | report => exact ⟨hkeep (Manager.complete_eq_self ha.completed ..) rfl rfl, fun _ _ => rfl⟩
  | start hmem hp | raise hmem hp | await hmem hp | expire hmem hp =>
    rw [hlost _ hmem] at hp
    contradiction
  | finish hmem hr => simp [Attempt.isReady, hlost _ hmem] at hr
  | tell hn =>
    rw [ha.done.2] at hn
    contradiction
  | close =>
    refine ⟨hkeep ?_ rfl rfl, fun _ _ => rfl⟩
    rw [Manager.close, if_pos ha.closed]
  | clear => exact ⟨hkeep rfl rfl rfl, fun hne => absurd rfl hne⟩
  | setPolicy => exact ⟨hkeep rfl rfl rfl, fun _ hne => absurd rfl (hne _)⟩

omit [Durable σ] in
/-- Whether all is settled is a matter of the manager. -/
theorem AllSettled.of_manager {u : Managed σ L} (h : s.AllSettled) (hm : u.manager = s.manager) :
    u.AllSettled where
  closed := hm ▸ h.closed
  done := ⟨hm ▸ h.done.1, hm ▸ h.done.2⟩
  completed := hm ▸ h.completed

/-- Nothing that happens then changes this. -/
theorem AllSettled.run_unmoved (h : s.AllSettled) (moves : List (Move L)) :
    s.Unmoved (s.run moves) := by
  refine run_induction (P := s.Unmoved) ⟨rfl, rfl, rfl⟩ fun u e t move _ hu hstep => ?_
  have hut := (hstep.unmoved (h.of_manager hu.manager)).1
  exact ⟨hut.manager.trans hu.manager, hut.starts.trans hu.starts, hut.told.trans hu.told⟩

/-- Nor does it change the session, unless somebody asks for it. -/
theorem AllSettled.run_session_eq (h : s.AllSettled) {moves : List (Move L)}
    (hmoves : ∀ move ∈ moves, move ≠ .clear ∧ ∀ p, move ≠ .setPolicy p) :
    (s.run moves).session = s.session := by
  refine (run_induction (P := fun u => u.manager = s.manager ∧ u.session = s.session) ⟨rfl, rfl⟩
    fun u e t move hmem ⟨hm, hsession⟩ hstep => ?_).2
  obtain ⟨hne, hnp⟩ := hmoves move hmem
  obtain ⟨hut, hkept⟩ := hstep.unmoved (h.of_manager hm)
  exact ⟨hut.manager.trans hm, (hkept hne hnp).trans hsession⟩

/-- Closing the manager completes what had not been completed, with the failure that says so. -/
theorem Dependable.endsWith_close (h : s.Dependable) {a : Attempt (Call L)}
    (ha : a ∈ s.manager.attempts) (ho : a.outcome = none) :
    (s.step .close).EndsWith a.number (.failure .closed) := by
  have hs := h.regular.sound
  have hin : a.number ∈ s.manager.roster.map Prod.fst := by
    rw [Manager.roster_fst]
    exact List.mem_map_of_mem ha
  have hhead : (completions a.number s.log).head? = none := by
    rw [← hs.counted.outcome a ha, ho]
  have hopen : s.manager.closed ≠ true := fun hc =>
    h.decided hc a.number hin (List.head?_eq_none_iff.mp hhead)
  have hpending : a.number ∈ s.manager.pending := by
    rw [Manager.pending, if_neg hopen, ← Manager.roster_fst]
    exact hin
  refine .inl ⟨?_, ?_⟩
  · change a.number ∈ s.manager.close.roster.map Prod.fst
    rwa [(Manager.quiet_close s.manager).roster]
  · change (completions a.number (s.log ++ [.closed s.manager.pending])).head? = _
    rw [head?_completions_concat, hhead, Option.none_or, completionOf, if_pos hpending]

omit [Durable σ] in
/-- When nothing is left for the worker, whatever is outstanding is what the worker has been taken
away from. -/
theorem Dependable.mem_crashes_of_workDone (h : s.Dependable) (hdone : s.WorkDone)
    {a : Attempt (Call L)} (ha : a ∈ s.manager.attempts) : a.number ∈ crashes s.log :=
  (h.staffed.lost a.number a.phase (Manager.mem_standing ha)).mp (hdone.1 a ha)

omit [Durable σ] in
/-- Then the calls that wait are those of such attempts. -/
theorem Dependable.mem_waitingCalls_iff (h : s.Dependable) (hdone : s.WorkDone) {call number : Nat}
    (hb : s.Belongs call number) : call ∈ s.manager.waitingCalls ↔ number ∈ crashes s.log := by
  rw [Manager.mem_waitingCalls]
  constructor
  · rintro ⟨a, ha, hcall⟩
    rw [← h.accounted.eq_of_belongs (callsOf_of_mem ha hcall) hb]
    exact h.mem_crashes_of_workDone hdone ha
  · intro hc
    have hin := h.staffed.outstanding number hc
    obtain ⟨entry, hentry, rfl, hcall⟩ | ⟨accepted, outcome, calls, hf, -⟩ := hb
    · obtain ⟨a, ha, rfl⟩ := List.mem_map.mp hentry
      exact ⟨a, ha, hcall⟩
    · have hgone := h.regular.sound.recorded.gone number
        (mem_finishes.mpr ⟨accepted, outcome, calls, hf⟩)
      exact absurd hin hgone

/-- Every other call has been told by then, and only once. -/
theorem Dependable.count_toldCalls (h : s.Dependable) (hdone : s.WorkDone) {call number : Nat}
    (hb : s.Belongs call number) :
    (toldCalls s.log).count call = if number ∈ crashes s.log then 0 else 1 := by
  have hlt : call < s.calls := h.accounted.lt_iff.mpr ⟨number, hb⟩
  have hsound := h.regular.sound
  have hone := (h.delivered.answersOnce hsound.orderly hsound.recorded).place call hlt
  rw [Manager.untoldCalls_eq_nil hdone.2, List.count_nil] at hone
  have hwaits := h.mem_waitingCalls_iff hdone hb
  rw [← List.one_le_count_iff] at hwaits
  split
  · next hc =>
    have := hwaits.mpr hc
    omega
  · next hc =>
    have := hwaits.not.mpr hc
    omega

/-- Whoever waits in an attempt is told, when nothing is left for the worker, what the attempt was
finished with, unless the worker has been taken away from it. -/
theorem Dependable.told_of_endsWith (h : s.Dependable) (hdone : s.WorkDone) {call number : Nat}
    {accepted : Outcome} (hb : s.Belongs call number) (hkept : number ∉ crashes s.log)
    (he : s.EndsWith number accepted) :
    ∃ outcome calls, .finished number accepted outcome calls ∈ s.log ∧
      .told number call outcome ∈ s.log ∧ ∀ r, accepted = .failure r → outcome = .failure r := by
  have hr := h.regular.sound.recorded
  obtain ⟨hin, -⟩ | ⟨outcome, calls, hf, hfailure⟩ := he
  · rw [Manager.roster_fst] at hin
    obtain ⟨a, ha, rfl⟩ := List.mem_map.mp hin
    exact absurd (h.mem_crashes_of_workDone hdone ha) hkept
  · have hcount := h.count_toldCalls hdone hb
    rw [if_neg hkept] at hcount
    have hcall : call ∈ toldCalls s.log := List.one_le_count_iff.mp (Nat.le_of_eq hcount.symm)
    obtain ⟨n, o, htold⟩ := mem_toldCalls.mp hcall
    obtain rfl := h.accounted.number_eq_of_told hr htold hb
    obtain ⟨accepted', collected, hf', -⟩ := hr.told n call o htold
    obtain ⟨-, rfl, -⟩ := hr.finished_inj hf hf'
    exact ⟨outcome, calls, hf, htold, hfailure⟩

/-- What was outstanding in `s` when its manager was closed is over in `u`, but for the attempts in
whose start an error without a text was raised. -/
structure Over (s u : Managed σ L) : Prop where
  /-- No other attempt is outstanding. -/
  outstanding : ∀ a ∈ u.manager.attempts, a.number ∈ crashes u.log
  /-- Where there is no such error, none is outstanding at all, and the manager says so. -/
  idle : crashes u.log = [] → u.manager.attempts = [] ∧ u.manager.state = .idle
  /-- Every listener that had been accepted has been told once, unless its attempt is such a one. -/
  told : ∀ call < s.calls, ∃ number, u.Belongs call number ∧
    (toldCalls u.log).count call = if number ∈ crashes u.log then 0 else 1
  /-- Who waited in an attempt that had not been completed was told that the manager was closed. -/
  failed : ∀ a ∈ s.manager.attempts, a.number ∉ crashes u.log → a.outcome = none →
    ∀ c ∈ a.listeners, .told a.number c.number (.failure .closed) ∈ u.log
  /-- Who waited in one that had been completed was told what this led to. -/
  completed : ∀ a ∈ s.manager.attempts, a.number ∉ crashes u.log → ∀ accepted,
    a.outcome = some accepted → ∀ c ∈ a.listeners, ∃ outcome calls,
      .finished a.number accepted outcome calls ∈ u.log ∧ .told a.number c.number outcome ∈ u.log
  /-- Nothing that happens afterwards changes the manager, starts a process or tells anybody. -/
  unmoved : ∀ more : List (Move L), u.Unmoved (u.run more)
  /-- Nor does it change a cell or the durable storage, unless somebody asks for it. -/
  session : ∀ more : List (Move L),
    (∀ move ∈ more, move ≠ .clear ∧ ∀ p, move ≠ .setPolicy p) → (u.run more).session = u.session

/-- Everything is over when the worker of a closed manager has come to rest. -/
theorem Dependable.ends (h : s.Dependable) {later : List (Move L)}
    (hord : ∀ move ∈ later, move.isOrdinary = true) (hc : s.Shut (s.run (.close :: later)))
    (hrest : (s.run (.close :: later)).AtRest) : s.Over (s.run (.close :: later)) := by
  have hall : ∀ move ∈ Move.close :: later, move.isOrdinary = true := by
    intro move hm
    rcases List.mem_cons.mp hm with rfl | hm
    · rfl
    · exact hord move hm
  have hu := h.run hall
  have ho := h.regular.sound.orderly
  have hclosing : (s.step .close).Sound := h.regular.sound.run [.close]
  have hsettled := hu.allSettled hc.closed hrest
  have hdone := hsettled.done
  have hanswer : ∀ a ∈ s.manager.attempts, a.number ∉ crashes (s.run (.close :: later)).log →
      ∀ c ∈ a.listeners, ∀ accepted, (s.run (.close :: later)).EndsWith a.number accepted →
        ∃ outcome calls, .finished a.number accepted outcome calls ∈
            (s.run (.close :: later)).log ∧
          .told a.number c.number outcome ∈ (s.run (.close :: later)).log ∧
          ∀ r, accepted = .failure r → outcome = .failure r := by
    intro a ha hkept c hcall accepted he
    have hb : s.Belongs c.number a.number := callsOf_of_mem ha (List.mem_map_of_mem hcall)
    exact hu.told_of_endsWith hdone (hb.run ho _) hkept he
  constructor
  · intro a ha
    exact hu.mem_crashes_of_workDone hdone ha
  · intro hnone
    have hattempts : (s.run (.close :: later)).manager.attempts = [] := by
      refine List.eq_nil_iff_forall_not_mem.mpr fun a ha => ?_
      have hc := hu.mem_crashes_of_workDone hdone ha
      rw [hnone] at hc
      contradiction
    exact ⟨hattempts, Manager.state_eq_idle_iff.mpr hattempts⟩
  · intro call hlt
    obtain ⟨number, hb⟩ := hu.accounted.lt_iff.mp (hc.calls ▸ hlt)
    exact ⟨number, hb, hu.count_toldCalls hdone hb⟩
  · intro a ha hkept hnone c hcall
    have he := (h.endsWith_close ha hnone).run hclosing later
    obtain ⟨outcome, calls, -, htold, hfailure⟩ := hanswer a ha hkept c hcall _ he
    rwa [hfailure .closed rfl] at htold
  · intro a ha hkept accepted ho' c hcall
    have he := (h.regular.sound.endsWith ha ho').run h.regular.sound (.close :: later)
    obtain ⟨outcome, calls, hf, htold, -⟩ := hanswer a ha hkept c hcall accepted he
    exact ⟨outcome, calls, hf, htold⟩
  · exact hsettled.run_unmoved
  · intro more hmore
    exact hsettled.run_session_eq hmore

/-- One attempt is over, one has been taken and not yet started, and one waits for its turn. -/
def busy : List (Move String) :=
  [.obtain .null [] (some "a"), .take, .start 0, .report 0 (.failure (.reported "no")),
    .await 0 (.zero false), .finish 0, .tell 0 none, .obtain .null [] (some "b"), .take,
    .obtain .null [] (some "c")]

end Finality

end Managed

end BearerSession
