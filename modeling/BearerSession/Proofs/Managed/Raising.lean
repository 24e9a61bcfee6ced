import BearerSession.Proofs.Managed.Rest
import BearerSession.Proofs.Managed.SingleFlight
import BearerSession.Proofs.Managed.Staff

/-!
# What raising does to the manager

An ordinary error with a text fails the attempt whose process raises it, and no ordinary error stops
a listener from being told. Others do more. An error of which no failure can be made, raised in
starting a process, takes the worker away from the attempt, which stays outstanding for ever; an
error that ends threads, raised by a listener, keeps those behind it from being told. In every other
case the worker lets go of an attempt when it is through with it.
-/

namespace BearerSession

/-- Whether the worker has begun with an attempt and is not through with it. -/
def Attempt.isAtWork {L : Type} (a : Attempt L) : Bool :=
  match a.phase with
  | .taken | .starting | .waiting _ | .abandoned => true
  | _ => false

/-- What the worker is not busy with waits for its turn, has been cancelled, or has lost it. -/
theorem Attempt.phase_of_isAtWork {L : Type} {a : Attempt L} (h : a.isAtWork = false) :
    a.phase = .queued ∨ a.phase = .cancelled ∨ a.phase = .lost := by
  unfold isAtWork at h
  cases hp : a.phase with
  | queued => exact .inl rfl
  | cancelled => exact .inr (.inl rfl)
  | lost => exact .inr (.inr rfl)
  | taken | starting | waiting | abandoned =>
    rw [hp] at h
    contradiction

/-- An outstanding attempt that is changed is outstanding as changed. -/
theorem Manager.mem_update {L : Type} {m : Manager L} {a : Attempt L} (ha : a ∈ m.attempts)
    (f : Attempt L → Attempt L) : f a ∈ (m.update a.number f).attempts :=
  List.mem_map.mpr ⟨a, ha, if_pos rfl⟩

namespace Managed

variable {σ L : Type} {s t : Managed σ L} {move : Move L} {e : Event}

section Release

/-- The worker is through with an attempt: it has started its process, and it is no longer at work
on it and has nobody left to tell. -/
def WorkedOff (s : Managed σ L) (number : Nat) : Prop :=
  number ∈ starts s.log ∧
    (∀ a ∈ s.manager.attempts, a.number = number → a.isAtWork = false) ∧
    ∀ u ∈ s.manager.tellings, u.number ≠ number

instance (s : Managed σ L) (number : Nat) : Decidable (s.WorkedOff number) :=
  inferInstanceAs (Decidable (_ ∧ _ ∧ _))

/-- What the worker is through with is over, unless it was taken away from it. -/
theorem WorkedOff.mem_finishes {number : Nat} (h : s.WorkedOff number) (hs : s.Staffed)
    (hr : s.Recorded) (hc : number ∉ crashes s.log) : number ∈ finishes s.log := by
  obtain ⟨hstart, hidle, -⟩ := h
  rcases hs.ended number (hr.started number hstart) with hin | hover
  · rw [Manager.roster_fst] at hin
    obtain ⟨a, ha, rfl⟩ := List.mem_map.mp hin
    have hstands := Manager.mem_standing ha
    have hpast := (hs.started a.number a.phase hstands).mp hstart
    rcases Attempt.phase_of_isAtWork (hidle a ha rfl) with hp | hp | hp
    · simp [hp, Phase.isPastStart] at hpast
    · simp [hp, Phase.isPastStart] at hpast
    · exact absurd ((hs.lost a.number a.phase hstands).mp hp) hc
  · exact hover

variable [Durable σ]

/-- The manager has let go of an attempt. -/
structure Released (s : Managed σ L) (number : Nat) : Prop where
  /-- It is outstanding no more. -/
  gone : ∀ a ∈ s.manager.attempts, a.number ≠ number
  /-- If nothing else is outstanding, the manager is idle. -/
  idle : (∀ a ∈ s.manager.attempts, a.number = number) → s.manager.state = .idle
  /-- Whoever asks next does not join it. -/
  apart : ∀ host params l,
    ¬ (s.step (.obtain host params (some l))).Belongs s.calls number
  /-- If nothing else is outstanding and nobody is being told, a process that was never started
  before is started for the next call that is accepted. -/
  starts : (∀ a ∈ s.manager.attempts, a.number = number) → s.manager.tellings = [] →
    ∀ host params l,
      (s.step (.obtain host params (some l))).log = s.log ++ [.accepted s.calls] →
        s.manager.created ∉ Managed.starts s.log ∧
          Managed.starts
              (s.run [.obtain host params (some l), .take, .start s.manager.created]).log =
            Managed.starts s.log ++ [s.manager.created]

/-- When nothing is outstanding and nobody is being told, the worker starts an attempt for the next
call that is accepted. -/
theorem starts_next (ho : s.manager.Orderly) (ha : s.manager.attempts = [])
    (ht : s.manager.tellings = []) {host : Value} {params : List Value} {l : L}
    (h : (s.step (.obtain host params (some l))).log = s.log ++ [.accepted s.calls]) :
    starts (s.run [.obtain host params (some l), .take, .start s.manager.created]).log =
      starts s.log ++ [s.manager.created] := by
  obtain ⟨m, hm, hstep⟩ := step_obtain_eq h
  obtain ⟨-, ⟨number, hi, -, -⟩ | ⟨-, rfl⟩⟩ := Manager.obtain_eq_ok hm
  · have hin := ho.inflight number hi
    rw [Manager.roster_fst, ha] at hin
    contradiction
  · have hnext : (s.manager.create host params ⟨s.calls, l⟩).next? =
        some ⟨s.manager.created, host, params, [⟨s.calls, l⟩], .queued, none⟩ := by
      simp [Manager.next?, Manager.create, ha, ht, Attempt.isRunning]
    rw [run_cons, hstep, run_cons, run_cons, run_nil]
    simp only [step, step?, record, hnext, Option.map_some]
    simp [starts, Manager.take, Manager.update, Manager.create, Manager.phase?, Manager.attempt?,
      ha]

/-- Nobody joins a finished attempt. -/
theorem Sound.not_belongs_next (hs : s.Sound) (ha : s.Accounted) {number : Nat}
    (hf : number ∈ finishes s.log) (host : Value) (params : List Value) (l : L) :
    ¬ (s.step (.obtain host params (some l))).Belongs s.calls number := by
  intro hb
  obtain ⟨entry, hentry, rfl, -⟩ | ⟨accepted, outcome, calls, hfin, hcall⟩ := hb
  · have hsound : (s.step (.obtain host params (some l))).Sound :=
      hs.run [.obtain host params (some l)]
    have hlater : entry.1 ∈ finishes (s.step (.obtain host params (some l))).log :=
      mem_finishes_run hf [.obtain host params (some l)]
    exact hsound.recorded.gone entry.1 hlater (List.mem_map_of_mem hentry)
  · -- no call of this number had been accepted when the attempt was finished
    have hbefore : .finished number accepted outcome calls ∈ s.log := by
      rcases s.step_cases (.obtain host params (some l)) with heq | ⟨e, t, hstep, heq⟩
      · rwa [heq] at hfin
      · rw [heq, log_record, hstep.log_eq] at hfin
        cases hstep <;> simpa using hfin
    have hlt := ha.lt_iff.mpr ⟨number, .inr ⟨accepted, outcome, calls, hbefore, hcall⟩⟩
    exact Nat.lt_irrefl s.calls hlt

/-- A finished attempt has been released. -/
theorem Sound.released (hs : s.Sound) (ha : s.Accounted) {number : Nat}
    (hf : number ∈ finishes s.log) : s.Released number := by
  have hgone : ∀ a ∈ s.manager.attempts, a.number ≠ number := by
    rintro a hmem rfl
    exact hs.recorded.not_mem_finishes hmem hf
  have hnone : (∀ a ∈ s.manager.attempts, a.number = number) → s.manager.attempts = [] := by
    intro hall
    by_contra hne
    obtain ⟨a, hmem⟩ := List.exists_mem_of_ne_nil _ hne
    exact hgone a hmem (hall a hmem)
  constructor
  · exact hgone
  · intro hall
    exact Manager.state_eq_idle_iff.mpr (hnone hall)
  · exact hs.not_belongs_next ha hf
  · intro hall ht host params l hlog
    have hfresh : s.manager.created ∉ starts s.log := fun hstart =>
      Nat.lt_irrefl _ (hs.recorded.started _ hstart)
    exact ⟨hfresh, starts_next hs.orderly (hnone hall) ht hlog⟩

end Release

section Working

/-- Where somebody is to be told in every telling, an attempt that has nobody left to tell has no
telling. -/
theorem number_ne_of_untoldOf (ho : s.manager.Orderly) {number : Nat}
    (h : untoldOf number s.manager.tellings = []) :
    ∀ u ∈ s.manager.tellings, u.number ≠ number := by
  rintro u hu rfl
  obtain ⟨c, rest, hrest⟩ := List.exists_cons_of_ne_nil (ho.untold u hu)
  obtain ⟨before, after, hsplit⟩ := List.append_of_mem hu
  rw [hsplit, untoldOf_append, untoldOf_cons, if_pos rfl, hrest] at h
  simp at h

/-- An error that ends threads leaves an attempt nobody to tell. -/
theorem untoldOf_afterTelling_eq_nil (m : Manager (Call L)) (number : Nat) {e : Raised}
    (he : e.isOrdinary = false) :
    untoldOf number (afterTelling m number (some e)).tellings = [] := by
  simp only [afterTelling, Manager.listenerRaised, he, Bool.false_eq_true, if_false]
  refine untoldOf_eq_nil fun u hu => ?_
  simpa using (List.mem_filter.mp hu).2

variable [Durable σ]

/-- An attempt that is to tell its next listener has nobody left to tell, or it does. -/
theorem step_tell_cases (ho : s.manager.Orderly) (number : Nat) (raised : Option Raised) :
    (untoldOf number s.manager.tellings = [] ∧ s.step (.tell number raised) = s) ∨
      ∃ c left, untoldOf number s.manager.tellings = c :: untoldOf number left ∧
        (s.step (.tell number raised)).manager =
          afterTelling { s.manager with tellings := left } number raised := by
  cases hn : Telling.next? number s.manager.tellings with
  | none =>
    refine .inl ⟨untoldOf_eq_nil fun u hu hnumber => ?_, by simp [step, step?, hn]⟩
    obtain ⟨c, o, left, hsome⟩ := Telling.exists_next? ho.untold ⟨u, hu, hnumber⟩
    rw [hn] at hsome
    contradiction
  | some r =>
    obtain ⟨c, o, left⟩ := r
    have hbefore := untoldOf_next? hn number
    rw [if_pos rfl, List.singleton_append] at hbefore
    exact .inr ⟨c.number, left, hbefore, by simp [step, step?, hn, record]⟩

/-- When an attempt tells its next listener, one fewer is left at least, whatever is raised. -/
theorem length_untoldOf_tell (ho : s.manager.Orderly) (number : Nat) (raised : Option Raised) :
    (untoldOf number (s.step (.tell number raised)).manager.tellings).length ≤
      (untoldOf number s.manager.tellings).length - 1 := by
  obtain ⟨hnobody, hsame⟩ | ⟨c, left, hbefore, hafter⟩ := step_tell_cases ho number raised
  · rw [hsame, hnobody]
    exact Nat.le_refl _
  · rw [hafter, hbefore, List.length_cons, Nat.add_sub_cancel]
    by_cases hord : ∀ e ∈ raised, e.isOrdinary = true
    · exact Nat.le_of_eq (by rw [afterTelling_eq _ _ hord])
    · obtain ⟨e, rfl, he⟩ : ∃ e, raised = some e ∧ e.isOrdinary = false := by
        simpa using hord
      rw [untoldOf_afterTelling_eq_nil _ _ he]
      exact Nat.zero_le _

/-- An attempt that tells its listeners one after the other has nobody left to tell in the end,
whatever they raise. -/
theorem untoldOf_run_tell (hs : s.Sound) {number : Nat} {answers : List (Option Raised)}
    (h : (untoldOf number s.manager.tellings).length ≤ answers.length) :
    untoldOf number (s.run (answers.map (.tell number))).manager.tellings = [] := by
  induction answers generalizing s with
  | nil => simpa using h
  | cons raised rest ih =>
    have hnext := length_untoldOf_tell hs.orderly number raised
    rw [List.length_cons] at h
    exact ih (hs.run [.tell number raised]) (by omega)

/-- When an attempt that is ready is finished, exactly its listeners are left to be told. -/
theorem Sound.finish_of_isReady (hs : s.Sound) {a : Attempt (Call L)}
    (ha : a ∈ s.manager.attempts) (hr : a.isReady = true) :
    a.number ∈ finishes (s.step (.finish a.number)).log ∧
      untoldOf a.number (s.step (.finish a.number)).manager.tellings =
        a.listeners.map Call.number := by
  obtain ⟨o, session, hmove⟩ := step?_finish hs.orderly ha hr
  rw [step_eq hmove]
  constructor
  · rw [log_record]
    exact mem_finishes.mpr ⟨_, _, _, List.mem_append_right _ List.mem_cons_self⟩
  · change untoldOf a.number (Manager.untold (s.manager.tellings ++ [_])) = _
    rw [untoldOf_untold, untoldOf_append, hs.recorded.untoldOf_eq_nil ha, untoldOf_cons, if_pos rfl]
    exact List.append_nil _

/-- An ordinary error with a text completes the attempt in whose start it is raised. -/
theorem exists_raised (ho : s.manager.Orderly) {a : Attempt (Call L)}
    (ha : a ∈ s.manager.attempts) (hp : a.phase = .starting) {e : Raised}
    (he : e.isReportable = true) :
    ∃ b ∈ (s.step (.raise a.number e)).manager.attempts, b.number = a.number ∧
      b.listeners = a.listeners ∧ b.phase = .starting ∧ b.outcome.isSome = true := by
  refine ⟨a.complete (.ofRaised e), ?_, rfl, rfl, hp, ?_⟩
  · rw [step_eq (step?_raise ho ha hp e), Manager.startRaised, if_pos he]
    exact Manager.mem_update ha fun b => b.complete (.ofRaised e)
  · simp [Attempt.complete]

/-- When the worker goes on to wait for a completed attempt, it can be finished. -/
theorem exists_awaited (ho : s.manager.Orderly) {a : Attempt (Call L)}
    (ha : a ∈ s.manager.attempts) (hp : a.phase = .starting) (hc : a.outcome.isSome = true)
    (now : Binary64) :
    ∃ b ∈ (s.step (.await a.number now)).manager.attempts, b.number = a.number ∧
      b.listeners = a.listeners ∧ b.isReady = true := by
  refine ⟨{ a with phase := Manager.phaseFrom s.manager.timeout now a.outcome.isSome }, ?_, rfl,
    rfl, ?_⟩
  · rw [step_eq (step?_await ho ha hp now)]
    have hmem := Manager.mem_update ha fun b => if b.phase = .starting then
      { b with phase := Manager.phaseFrom s.manager.timeout now b.outcome.isSome } else b
    rwa [if_pos hp] at hmem
  · rw [hc]
    cases ht : s.manager.timeout <;> simp [Manager.phaseFrom, Attempt.isReady, hc]

/-- When a finished attempt has told its listeners, the worker is through with it. -/
theorem Sound.workedOff_run_tell (hs : s.Sound) {number : Nat} (hstart : number ∈ starts s.log)
    (hover : number ∈ finishes s.log) {answers : List (Option Raised)}
    (hlen : (untoldOf number s.manager.tellings).length ≤ answers.length) :
    (s.run (answers.map (.tell number))).WorkedOff number := by
  have hsound := hs.run (answers.map (.tell number))
  refine ⟨mem_starts_run hstart _, ?_, ?_⟩
  · rintro a ha rfl
    exact absurd (mem_finishes_run hover _) (hsound.recorded.not_mem_finishes ha)
  · exact number_ne_of_untoldOf hsound.orderly (untoldOf_run_tell hs hlen)

/-- When starting a process raises an ordinary error with a text, the worker goes on: it finishes
the attempt and tells its listeners, whatever these raise, and then it is through with it. -/
theorem Sound.workedOff_of_raise (hs : s.Sound) (hst : s.Staffed) {a : Attempt (Call L)}
    (ha : a ∈ s.manager.attempts) (hp : a.phase = .starting) {e : Raised}
    (he : e.isReportable = true) (now : Binary64) {answers : List (Option Raised)}
    (hlen : a.listeners.length ≤ answers.length) :
    (s.run (.raise a.number e :: .await a.number now :: .finish a.number ::
      answers.map (.tell a.number))).WorkedOff a.number := by
  obtain ⟨b, hb, hbn, hbl, hbp, hbo⟩ := exists_raised hs.orderly ha hp he
  have hraised : (s.run [.raise a.number e]).Sound := hs.run _
  obtain ⟨c, hc, hcn, hcl, hcr⟩ := exists_awaited hraised.orderly hb hbp hbo now
  rw [hbn] at hc hcn
  have hawaited : (s.run [.raise a.number e, .await a.number now]).Sound := hs.run _
  obtain ⟨hover, hleft⟩ := hawaited.finish_of_isReady hc hcr
  rw [hcn] at hover hleft
  have hstart : a.number ∈ starts s.log :=
    (hst.started a.number a.phase (Manager.mem_standing ha)).mpr (by rw [hp]; rfl)
  refine (hs.run [.raise a.number e, .await a.number now, .finish a.number]).workedOff_run_tell
    (mem_starts_run hstart _) hover ?_
  rw [run_cons, run_cons, run_cons, run_nil]
  rw [run_cons, run_cons, run_nil] at hleft
  rw [hleft, List.length_map, hcl, hbl]
  exact hlen

end Working

section Ends

variable [Durable σ]

/-- The worker has been taken from an attempt for good. -/
structure Deserted (s : Managed σ L) (number : Nat) : Prop where
  /-- The attempt is outstanding. -/
  outstanding : ∃ a ∈ s.manager.attempts, a.number = number
  /-- So the manager is in progress. -/
  state : s.manager.state = .inProgress
  /-- None of its listeners has been told. -/
  untold : ∀ call outcome, .told number call outcome ∉ s.log

omit [Durable σ] in
theorem Staffed.deserted (hst : s.Staffed) (hr : s.Recorded) {number : Nat}
    (h : number ∈ crashes s.log) : s.Deserted number := by
  have hin := hst.outstanding number h
  have hmem : ∃ a ∈ s.manager.attempts, a.number = number := by
    rwa [Manager.roster_fst, List.mem_map] at hin
  refine ⟨hmem, ?_, fun call outcome ht => ?_⟩
  · obtain ⟨a, ha, -⟩ := hmem
    have hne : s.manager.attempts.isEmpty = false := by
      rw [List.isEmpty_eq_false_iff]
      exact List.ne_nil_of_mem ha
    rw [Manager.state, hne]
    rfl
  · obtain ⟨accepted, calls, hf, -⟩ := hr.told number call outcome ht
    exact hr.gone number (mem_finishes.mpr ⟨accepted, outcome, calls, hf⟩) hin

/-- Where attempts are shared, no rule starts a process while an attempt is deserted. -/
theorem Step.starts_eq_nil (h : Step s move e t) (ha : s.Alone) (hst : s.Staffed) {number : Nat}
    (hc : number ∈ crashes s.log) : starts [e] = [] := by
  cases h with
  | @start a hmem hq =>
    have hin := hst.outstanding number hc
    rw [ha.inflight, ha.inflight_eq hmem] at hin
    have hsame : number = a.number := by simpa using hin
    have hlost := (hst.lost a.number a.phase (Manager.mem_standing hmem)).mpr (hsame ▸ hc)
    rw [hq] at hlost
    contradiction
  | _ => rfl

/-- Where attempts are shared, no process is started any more after the worker has been taken from
an attempt. -/
theorem run_starts_eq (hs : s.Sound) (hst : s.Staffed) (ha : s.Alone)
    (hshare : s.manager.share = true) {number : Nat} (hc : number ∈ crashes s.log)
    (moves : List (Move L)) : starts (s.run moves).log = starts s.log := by
  refine (run_induction (P := fun u => (u.Sound ∧ u.Staffed) ∧ (u.manager.share = true ∧ u.Alone) ∧
    number ∈ crashes u.log ∧ starts u.log = starts s.log) ⟨⟨hs, hst⟩, ⟨hshare, ha⟩, hc, rfl⟩
    fun u e t move _ h hstep => ?_).2.2.2
  obtain ⟨⟨hs, hst⟩, ⟨hshare, ha⟩, hc, hstarts⟩ := h
  refine ⟨⟨hstep.sound hs, hstep.staffed hs hst⟩,
    ⟨hstep.settings_eq.1.trans hshare, hstep.alone hshare ha⟩, ?_, ?_⟩
  · rw [log_record, hstep.log_eq, crashes_append]
    exact List.mem_append_left _ hc
  · rw [log_record, hstep.log_eq, starts_concat _ (hstep.starts_eq_nil ha hst hc), hstarts]

/-- A finished attempt has nobody left to tell. -/
structure Silent (s : Managed σ L) (number : Nat) : Prop where
  /-- It is over. -/
  ended : number ∈ finishes s.log
  /-- None of its listeners is still to be told. -/
  nobody : ∀ u ∈ s.manager.tellings, u.number ≠ number

/-- An attempt that has nobody left to tell stays so, and nobody is told by it. -/
theorem Step.silent (h : Step s move e t) (hr : s.Recorded) {number : Nat} (hs : s.Silent number) :
    (t.record e).Silent number ∧ toldOf number [e] = [] := by
  refine ⟨⟨?_, fun u hu => ?_⟩, ?_⟩
  · rw [log_record, h.log_eq, finishes_append]
    exact List.mem_append_left _ hs.ended
  · obtain ⟨u', hu', hn, -⟩ | ⟨a, ha, -, -, hn, -⟩ := h.telling_cases hu
    · exact hn ▸ hs.nobody u' hu'
    · rw [hn]
      rintro rfl
      exact hr.not_mem_finishes ha hs.ended
  · cases h with
    | @tell n raised c o left hn =>
      obtain ⟨before, u, rest, after, htell, rfl, -⟩ := Telling.next?_eq_some hn
      have hne := hs.nobody u (by rw [htell]; simp)
      simp [toldOf, hne]
    | _ => rfl

theorem Silent.run {number : Nat} (h : s.Silent number) (hs : s.Sound) (moves : List (Move L)) :
    toldOf number (s.run moves).log = toldOf number s.log := by
  refine (run_induction (P := fun u => u.Sound ∧ u.Silent number ∧
    toldOf number u.log = toldOf number s.log) ⟨hs, h, rfl⟩ fun u e t move _ hu hstep => ?_).2.2
  obtain ⟨hs, hsilent, htold⟩ := hu
  obtain ⟨hafter, hnone⟩ := hstep.silent hs.recorded hsilent
  refine ⟨hstep.sound hs, hafter, ?_⟩
  rw [log_record, hstep.log_eq, toldOf_append, hnone, List.append_nil, htold]

/-- When a listener raises an error that ends threads, nobody is left to be told by its attempt. -/
theorem Sound.silent_of_raise (hs : s.Sound) {number : Nat} (hover : number ∈ finishes s.log)
    {e : Raised} (he : e.isOrdinary = false) :
    (s.step (.tell number (some e))).Silent number := by
  have hsound : (s.step (.tell number (some e))).Sound := hs.run [.tell number (some e)]
  refine ⟨mem_finishes_run hover [.tell number (some e)],
    number_ne_of_untoldOf hsound.orderly ?_⟩
  obtain ⟨hnobody, hsame⟩ | ⟨c, left, -, hafter⟩ := step_tell_cases hs.orderly number (some e)
  · rwa [hsame]
  · rw [hafter]
    exact untoldOf_afterTelling_eq_nil _ _ he

end Ends

/-- An attempt has told all its listeners the same. -/
def ToldAll (s : Managed σ L) (number : Nat) : Prop :=
  ∃ outcome, ∀ call, s.Belongs call number → .told number call outcome ∈ s.log

variable [Durable σ]

/-- An attempt is heard from as long as its listeners raise only ordinary errors. -/
theorem run_heardFrom (hs : s.Sound) {number : Nat} (h : s.HeardFrom number)
    {moves : List (Move L)}
    (hord : ∀ e, .tell number (some e) ∈ moves → e.isOrdinary = true) :
    (s.run moves).HeardFrom number := by
  refine (run_induction (P := fun s => s.Sound ∧ s.HeardFrom number) ⟨hs, h⟩
    fun s e t move hm h hstep => ?_).2
  refine ⟨hstep.sound h.1, hstep.heardFrom ?_ h.1 h.2⟩
  rintro e rfl
  exact hord e hm

/-- What raising does in a run, whatever is raised in it. -/
structure Withstands (s₀ : Managed σ L) (moves : List (Move L)) : Prop where
  /-- When starting a process raises an ordinary error with a text, the worker goes on until it is
  through with the attempt, whatever the listeners raise. -/
  goesOn : ∀ a ∈ (s₀.run moves).manager.attempts, a.phase = .starting → ∀ e : Raised,
    e.isReportable = true → ∀ now, ∀ answers : List (Option Raised),
      a.listeners.length ≤ answers.length →
        ((s₀.run moves).run (.raise a.number e :: .await a.number now :: .finish a.number ::
          answers.map (.tell a.number))).WorkedOff a.number
  /-- What the worker is through with has been released, unless its start raised an error that ends
  threads or has no text. -/
  released : ∀ number, (s₀.run moves).WorkedOff number → number ∉ crashes (s₀.run moves).log →
    (s₀.run moves).Released number
  /-- All its listeners have been told, unless one of them raised an error that ends threads. -/
  told : ∀ number, (s₀.run moves).WorkedOff number → number ∉ crashes (s₀.run moves).log →
    (∀ e, .tell number (some e) ∈ moves → e.isOrdinary = true) → (s₀.run moves).ToldAll number
  /-- After an error in the start that ends threads or has no text, the attempt is deserted for
  ever. Where attempts are shared, no process is started any more. -/
  deserted : ∀ number ∈ crashes (s₀.run moves).log, ∀ more : List (Move L),
    ((s₀.run moves).run more).Deserted number ∧ (s₀.manager.share = true →
      starts ((s₀.run moves).run more).log = starts (s₀.run moves).log)
  /-- After a listener has raised an error that ends threads, the attempt has been released, and
  none of those behind is ever told. -/
  cutOff : ∀ number ∈ finishes (s₀.run moves).log, ∀ e : Raised, e.isOrdinary = false →
    ((s₀.run moves).step (.tell number (some e))).Released number ∧ ∀ more : List (Move L),
      toldOf number (((s₀.run moves).step (.tell number (some e))).run more).log =
        toldOf number ((s₀.run moves).step (.tell number (some e))).log

/-- After every run the worker lets go of each attempt that it is through with, unless the start of
its process raised an error that ends threads or has no text. -/
theorem run_withstands (share : Bool) (timeout : Option Binary64) (hasProcess : Bool)
    (session : Session σ) (moves : List (Move L)) :
    Withstands (new share timeout hasProcess session : Managed σ L) moves := by
  have hs := run_sound (L := L) share timeout hasProcess session
  have hst := run_staffed (L := L) share timeout hasProcess session
  have ha := run_accounted (L := L) share timeout hasProcess session
  constructor
  · intro a hmem hp e he now answers hlen
    exact (hs moves).workedOff_of_raise (hst moves) hmem hp he now hlen
  · intro number hw hc
    exact (hs moves).released (ha moves) (hw.mem_finishes (hst moves) (hs moves).recorded hc)
  · intro number hw hc hord
    have hover := hw.mem_finishes (hst moves) (hs moves).recorded hc
    obtain ⟨accepted, outcome, calls, hf⟩ := mem_finishes.mp hover
    have hheard := run_heardFrom (sound_new share timeout hasProcess session)
      (heard_new share timeout hasProcess session number) hord
    exact ⟨outcome, fun call hb => hheard.told_all (hs moves).recorded hf hw.2.2 hb⟩
  · intro number hc more
    refine ⟨?_, ?_⟩
    · have hlater := mem_crashes_run hc more
      rw [← run_append] at hlater ⊢
      exact (hst (moves ++ more)).deserted (hs (moves ++ more)).recorded hlater
    · intro hshare
      obtain rfl : share = true := hshare
      exact run_starts_eq (hs moves) (hst moves) (run_alone timeout hasProcess session moves)
        (run_share _ _) hc more
  · intro number hover e he
    have hsilent := (hs moves).silent_of_raise hover he
    have hafter := hs (moves ++ [.tell number (some e)])
    have hafter' := ha (moves ++ [.tell number (some e)])
    rw [run_append] at hafter hafter'
    exact ⟨hafter.released hafter' hsilent.ended, hsilent.run hafter⟩

/-- Two callers share an attempt whose process raises an ordinary error in its start, and so does
the first of them when it is told. -/
def mishap : List (Move String) :=
  [.obtain .null [] (some "a"), .obtain .null [] (some "b"), .take, .start 0,
    .raise 0 (.host ⟨"RuntimeError", .runtime, some "bug"⟩), .await 0 (.zero false), .finish 0,
    .tell 0 (some (.host ⟨"ValueError", .value, none⟩)), .tell 0 none]

/-- The worker is through with this attempt, both callers have been told, and a process is started
for the next one. -/
theorem mishap_withstands :
    Withstands (new true none true ⟨.blank .always, ⟨[], []⟩⟩ : Managed Memory String) mishap ∧
      ((new true none true ⟨.blank .always, ⟨[], []⟩⟩ : Managed Memory String).run
        mishap).WorkedOff 0 ∧
      crashes ((new true none true ⟨.blank .always, ⟨[], []⟩⟩ : Managed Memory String).run
        mishap).log = [] ∧
      toldCalls ((new true none true ⟨.blank .always, ⟨[], []⟩⟩ : Managed Memory String).run
        mishap).log = [0, 1] ∧
      starts ((new true none true ⟨.blank .always, ⟨[], []⟩⟩ : Managed Memory String).run
        (mishap ++ [.obtain .null [] (some "c"), .take, .start 1])).log = [0, 1] :=
  ⟨run_withstands true none true _ mishap, by decide, by decide, by decide, by decide⟩

/-- Starting the process raises an error that ends threads. -/
def exitAtStart : List (Move String) :=
  [.obtain .null [] (some "a"), .take, .start 0, .raise 0 (.host ⟨"SystemExit", .fatal, some ""⟩)]

/-- Starting the process raises an ordinary error that has no text. -/
def muteAtStart : List (Move String) :=
  [.obtain .null [] (some "a"), .take, .start 0, .raise 0 (.host ⟨"CustomError", .other, none⟩)]

/-- The first of two callers raises such an error when it is told. -/
def exitAtTelling : List (Move String) :=
  [.obtain .null [] (some "a"), .obtain .null [] (some "b"), .take, .start 0,
    .report 0 (.failure (.reported "no")), .await 0 (.zero false), .finish 0,
    .tell 0 (some (.host ⟨"SystemExit", .fatal, some ""⟩))]

/-- Without the exceptions none of it is true: the worker is through with an attempt that has not
been released, also where only ordinary errors are raised, and with one whose second caller is never
told. -/
theorem exits_withoutRelease :
    (¬ ∀ (moves : List (Move String)) (number : Nat),
      ((new true none true ⟨.blank .always, ⟨[], []⟩⟩ : Managed Memory String).run
        moves).WorkedOff number →
      ((new true none true ⟨.blank .always, ⟨[], []⟩⟩ : Managed Memory String).run
        moves).Released number) ∧
    (¬ ∀ (moves : List (Move String)) (number : Nat), (∀ move ∈ moves, move.isOrdinary = true) →
      ((new true none true ⟨.blank .always, ⟨[], []⟩⟩ : Managed Memory String).run
        moves).WorkedOff number →
      ((new true none true ⟨.blank .always, ⟨[], []⟩⟩ : Managed Memory String).run
        moves).Released number) ∧
    ¬ ∀ (moves : List (Move String)) (number : Nat),
      ((new true none true ⟨.blank .always, ⟨[], []⟩⟩ : Managed Memory String).run
        moves).WorkedOff number →
      ((new true none true ⟨.blank .always, ⟨[], []⟩⟩ : Managed Memory String).run
        moves).ToldAll number := by
  refine ⟨fun h => ?_, fun h => ?_, fun h => ?_⟩
  · have hidle := (h exitAtStart 0 (by decide)).idle (by decide)
    exact absurd hidle (by decide)
  · have hidle := (h muteAtStart 0 (by decide) (by decide)).idle (by decide)
    exact absurd hidle (by decide)
  · obtain ⟨outcome, hall⟩ := h exitAtTelling 0 (by decide)
    have hsecond : ((new true none true ⟨.blank .always, ⟨[], []⟩⟩ : Managed Memory String).run
        exitAtTelling).Belongs 1 0 :=
      .inr ⟨_, _, [0, 1], List.mem_of_getElem? (i := 6) rfl, by decide⟩
    have htold := mem_toldCalls.mpr ⟨0, outcome, hall 1 hsecond⟩
    exact absurd htold (by decide)

end Managed

end BearerSession
