import BearerSession.Proofs.Managed.Roster

/-!
# What the record says of finished attempts

An attempt is finished once and is outstanding no more. Who is told an outcome was collected when
the attempt was finished, and is told the outcome that was recorded then.
-/

namespace BearerSession

namespace Managed

/-- The finished attempts, in order. -/
def finishes (log : List Event) : List Nat :=
  log.filterMap fun
    | .finished number _ _ _ => some number
    | _ => none

@[simp] theorem starts_append (log more : List Event) :
    starts (log ++ more) = starts log ++ starts more :=
  List.filterMap_append

@[simp] theorem finishes_append (log more : List Event) :
    finishes (log ++ more) = finishes log ++ finishes more :=
  List.filterMap_append

@[simp] theorem toldCalls_append (log more : List Event) :
    toldCalls (log ++ more) = toldCalls log ++ toldCalls more :=
  List.filterMap_append

theorem starts_concat (log : List Event) {e : Event} (h : starts [e] = []) :
    starts (log ++ [e]) = starts log := by
  rw [starts_append, h, List.append_nil]

theorem finishes_concat (log : List Event) {e : Event} (h : finishes [e] = []) :
    finishes (log ++ [e]) = finishes log := by
  rw [finishes_append, h, List.append_nil]

theorem toldCalls_concat (log : List Event) {e : Event} (h : toldCalls [e] = []) :
    toldCalls (log ++ [e]) = toldCalls log := by
  rw [toldCalls_append, h, List.append_nil]

theorem mem_finishes {log : List Event} {number : Nat} :
    number ∈ finishes log ↔
      ∃ accepted outcome calls, Event.finished number accepted outcome calls ∈ log := by
  simp only [finishes, List.mem_filterMap]
  constructor
  · rintro ⟨e, he, hn⟩
    cases e with
    | finished n accepted outcome calls =>
      cases hn
      exact ⟨accepted, outcome, calls, he⟩
    | _ => contradiction
  · rintro ⟨accepted, outcome, calls, he⟩
    exact ⟨_, he, rfl⟩

theorem mem_toldCalls {log : List Event} {call : Nat} :
    call ∈ toldCalls log ↔ ∃ number outcome, Event.told number call outcome ∈ log := by
  simp only [toldCalls, List.mem_filterMap]
  constructor
  · rintro ⟨e, he, hc⟩
    cases e with
    | told n c o =>
      cases hc
      exact ⟨n, o, he⟩
    | _ => contradiction
  · rintro ⟨number, outcome, he⟩
    exact ⟨_, he, rfl⟩

/-- The calls collected when an attempt was finished with an outcome are all on record. -/
def Collected (log : List Event) (number : Nat) (outcome : Outcome) (calls : List Nat) : Prop :=
  ∃ accepted collected, Event.finished number accepted outcome collected ∈ log ∧
    ∀ call ∈ calls, call ∈ collected

theorem Collected.append {log : List Event} {number : Nat} {outcome : Outcome} {calls : List Nat}
    (h : Collected log number outcome calls) (e : Event) :
    Collected (log ++ [e]) number outcome calls := by
  obtain ⟨accepted, collected, hm, hc⟩ := h
  exact ⟨accepted, collected, List.mem_append_left _ hm, hc⟩

variable {σ L : Type}

/-- The record fits the manager. -/
structure Recorded (s : Managed σ L) : Prop where
  /-- Started attempts have been created. -/
  started : ∀ number ∈ starts s.log, number < s.manager.created
  /-- Finished attempts have been created. -/
  finished : ∀ number ∈ finishes s.log, number < s.manager.created
  /-- Finished attempts are outstanding no more. -/
  gone : ∀ number ∈ finishes s.log, number ∉ s.manager.roster.map Prod.fst
  /-- No attempt is finished twice. -/
  once : (finishes s.log).Nodup
  /-- Those still to be told were collected when their attempt was finished. -/
  telling : ∀ t ∈ s.manager.tellings,
    Collected s.log t.number t.outcome (t.rest.map Call.number)
  /-- So were those who have been told. -/
  told : ∀ number call outcome, Event.told number call outcome ∈ s.log →
    Collected s.log number outcome [call]

/-- An outstanding attempt has not been finished. -/
theorem Recorded.not_mem_finishes {s : Managed σ L} (h : s.Recorded) {a : Attempt (Call L)}
    (ha : a ∈ s.manager.attempts) : a.number ∉ finishes s.log := by
  intro hf
  have hgone := h.gone a.number hf
  rw [Manager.roster_fst] at hgone
  exact hgone (List.mem_map_of_mem ha)

/-- A finished attempt is not among the outstanding ones. -/
theorem Recorded.number_ne {s : Managed σ L} (h : s.Recorded) {number : Nat}
    {accepted outcome : Outcome} {calls : List Nat}
    (hf : Event.finished number accepted outcome calls ∈ s.log) {a : Attempt (Call L)}
    (ha : a ∈ s.manager.attempts) : a.number ≠ number := by
  rintro rfl
  exact h.not_mem_finishes ha (mem_finishes.mpr ⟨accepted, outcome, calls, hf⟩)

theorem recorded_new (share : Bool) (timeout : Option Binary64) (hasProcess : Bool)
    (session : Session σ) : (new share timeout hasProcess session : Managed σ L).Recorded :=
  ⟨by simp [new, starts], by simp [new, finishes], by simp [new, finishes],
    by simp [new, finishes], by simp [new, Manager.new], by simp [new]⟩

/-- Where an event tells nobody, all who have been told were collected before it. -/
theorem Recorded.told_append {s : Managed σ L} (h : s.Recorded) {e : Event}
    (ht : toldCalls [e] = []) (number call : Nat) (outcome : Outcome)
    (hm : Event.told number call outcome ∈ s.log ++ [e]) :
    Collected (s.log ++ [e]) number outcome [call] := by
  rcases List.mem_append.mp hm with hm | hm
  · exact (h.told number call outcome hm).append e
  · have hcall : call ∈ toldCalls [e] := mem_toldCalls.mpr ⟨number, outcome, hm⟩
    rw [ht] at hcall
    contradiction

/-- What concerns neither starts, nor finished attempts, nor listeners keeps the record fitting, as
long as the attempts and those still to be told stay the same. -/
theorem Recorded.keep {s t : Managed σ L} {e : Event} (h : s.Recorded) (hlog : t.log = s.log)
    (hroster : t.manager.roster.map Prod.fst = s.manager.roster.map Prod.fst)
    (hcreated : t.manager.created = s.manager.created)
    (htellings : t.manager.tellings = s.manager.tellings)
    (hs : starts [e] = []) (hf : finishes [e] = []) (ht : toldCalls [e] = []) :
    (t.record e).Recorded := by
  have hstarts := starts_concat s.log hs
  have hfinishes := finishes_concat s.log hf
  have hrec : (t.record e).log = s.log ++ [e] := by rw [log_record, hlog]
  refine ⟨?_, ?_, ?_, ?_, ?_, ?_⟩
  · rw [hrec, hstarts]
    exact hcreated ▸ h.started
  · rw [hrec, hfinishes]
    exact hcreated ▸ h.finished
  · rw [hrec, hfinishes]
    exact hroster ▸ h.gone
  · rw [hrec, hfinishes]
    exact h.once
  · rw [hrec]
    intro u hu
    exact (h.telling u (htellings ▸ hu)).append e
  · rw [hrec]
    exact h.told_append ht

theorem Recorded.quiet {s : Managed σ L} {e : Event} (h : s.Recorded) {m : Manager (Call L)}
    (hq : s.manager.Quiet m) (hs : starts [e] = []) (hf : finishes [e] = [])
    (ht : toldCalls [e] = []) : ({ s with manager := m }.record e).Recorded :=
  h.keep rfl (by rw [hq.roster]) hq.created hq.tellings hs hf ht

/-- A new attempt has a number that no finished attempt has. -/
theorem Recorded.create {s : Managed σ L} (h : s.Recorded) (host : Value) (params : List Value)
    (c : Call L) (calls call : Nat) :
    ({ s with manager := s.manager.create host params c, calls }.record (.accepted call)).Recorded
    where
  started := by
    intro number hn
    rw [log_record, starts_concat _ rfl] at hn
    exact Nat.lt_succ_of_lt (h.started number hn)
  finished := by
    intro number hn
    rw [log_record, finishes_concat _ rfl] at hn
    exact Nat.lt_succ_of_lt (h.finished number hn)
  gone := by
    intro number hn
    rw [log_record, finishes_concat _ rfl] at hn
    have hlt := h.finished number hn
    change number ∉ (s.manager.create host params c).roster.map Prod.fst
    rw [Manager.roster_create, List.map_append, List.mem_append]
    rintro (hm | hm)
    · exact h.gone number hn hm
    · have he : number = s.manager.created := by simpa using hm
      omega
  once := by
    rw [log_record, finishes_concat _ rfl]
    exact h.once
  telling t ht := (h.telling t ht).append _
  told := h.told_append rfl

/-- Starting an outstanding attempt adds it to the starts. -/
theorem Recorded.start {s : Managed σ L} (h : s.Recorded) (ho : s.manager.Orderly)
    {a : Attempt (Call L)} (ha : a ∈ s.manager.attempts) :
    ({ s with manager := s.manager.start a.number }.record (.started a.number)).Recorded := by
  have hq := s.manager.quiet_start a.number
  have hfinishes := finishes_concat s.log (e := .started a.number) rfl
  refine ⟨?_, ?_, ?_, ?_, fun t ht => (h.telling t ht).append _, ?_⟩
  · intro number hn
    have hn' : number ∈ starts s.log ∨ number = a.number := by
      simpa [record, starts, or_comm, eq_comm] using hn
    rcases hn' with hn' | rfl
    · exact h.started number hn'
    · exact ho.number_lt ha
  · change ∀ number ∈ finishes (s.log ++ [.started a.number]), _
    rw [hfinishes]
    exact h.finished
  · change ∀ number ∈ finishes (s.log ++ [.started a.number]),
      number ∉ (s.manager.start a.number).roster.map Prod.fst
    rw [hfinishes, hq.roster]
    exact h.gone
  · change (finishes (s.log ++ [.started a.number])).Nodup
    exact hfinishes ▸ h.once
  · exact h.told_append rfl

/-- Finishing an outstanding attempt puts down its listeners and takes it off the roster. -/
theorem Recorded.finish {s : Managed σ L} (h : s.Recorded) (ho : s.manager.Orderly)
    {a : Attempt (Call L)} (ha : a ∈ s.manager.attempts) (accepted o : Outcome)
    (session : Session σ) :
    ({ s with manager := s.manager.remove a o, session }.record
      (.finished a.number accepted o (a.listeners.map Call.number))).Recorded := by
  have hfinishes : finishes (s.log ++ [.finished a.number accepted o
      (a.listeners.map Call.number)]) = finishes s.log ++ [a.number] := by simp [finishes]
  refine ⟨?_, ?_, ?_, ?_, ?_, ?_⟩
  · intro number hn
    rw [log_record, starts_concat _ rfl] at hn
    exact h.started number hn
  · change ∀ number ∈ finishes (s.log ++ _), number < s.manager.created
    rw [hfinishes]
    intro number hn
    rcases List.mem_append.mp hn with hn | hn
    · exact h.finished number hn
    · rw [List.mem_singleton.mp hn]
      exact ho.number_lt ha
  · change ∀ number ∈ finishes (s.log ++ _), number ∉ (s.manager.remove a o).roster.map Prod.fst
    rw [hfinishes, Manager.roster_remove]
    intro number hn hm
    obtain ⟨entry, he, rfl⟩ := List.mem_map.mp hm
    obtain ⟨hin, hne⟩ := List.mem_filter.mp he
    rcases List.mem_append.mp hn with hn | hn
    · exact h.gone _ hn (List.mem_map_of_mem hin)
    · rw [List.mem_singleton.mp hn] at hne
      simp at hne
  · change (finishes (s.log ++ _)).Nodup
    rw [hfinishes, List.nodup_append]
    refine ⟨h.once, by simp, fun x hx y hy he => ?_⟩
    rw [List.mem_singleton.mp hy] at he
    exact h.not_mem_finishes ha (he ▸ hx)
  · intro t ht
    obtain ⟨ht, -⟩ := Manager.mem_untold.mp ht
    rcases List.mem_append.mp ht with ht | ht
    · exact (h.telling t ht).append _
    · rw [List.mem_singleton.mp ht]
      exact ⟨accepted, _, by simp [record], fun call hc => hc⟩
  · exact h.told_append rfl

/-- Whoever is told was collected, and so is everybody who is told later. -/
theorem Recorded.tell {s : Managed σ L} (h : s.Recorded) {number : Nat} {c : Call L} {o : Outcome}
    {left : List (Telling (Call L))} {m : Manager (Call L)}
    (hn : Telling.next? number s.manager.tellings = some (c, o, left))
    (hm : ∃ rest, m = { s.manager with tellings := rest } ∧ ∀ t ∈ rest, t ∈ left) :
    ({ s with manager := m }.record (.told number c.number o)).Recorded := by
  obtain ⟨still, rfl, htellings⟩ := hm
  obtain ⟨before, u, rest, after, htell, hu, ho, hr, -, rfl⟩ := Telling.next?_eq_some hn
  have hfinishes := finishes_concat s.log (e := .told number c.number o) rfl
  have hcollected : Collected s.log u.number u.outcome (u.rest.map Call.number) :=
    h.telling u (by rw [htell]; simp)
  refine ⟨?_, ?_, ?_, ?_, ?_, ?_⟩
  · intro n hm
    rw [log_record, starts_concat _ rfl] at hm
    exact h.started n hm
  · change ∀ n ∈ finishes (s.log ++ _), n < s.manager.created
    rw [hfinishes]
    exact h.finished
  · change ∀ n ∈ finishes (s.log ++ _), n ∉ s.manager.roster.map Prod.fst
    rw [hfinishes]
    exact h.gone
  · change (finishes (s.log ++ _)).Nodup
    exact hfinishes ▸ h.once
  · intro t ht
    rcases List.mem_append.mp (htellings t ht) with ht | ht
    · exact (h.telling t (by rw [htell]; exact List.mem_append_left _ ht)).append _
    · obtain ⟨ht, -⟩ := Manager.mem_untold.mp ht
      rcases List.mem_cons.mp ht with rfl | ht
      · obtain ⟨accepted, collected, hm, hc⟩ := hcollected
        rw [hr] at hc
        exact Collected.append
          ⟨accepted, collected, hm, fun call hin => hc call (List.mem_cons_of_mem _ hin)⟩ _
      · exact (h.telling t (by rw [htell]; simp [ht])).append _
  · intro n call outcome hm
    rcases List.mem_append.mp hm with hm | hm
    · exact (h.told n call outcome hm).append _
    · cases List.mem_singleton.mp hm
      obtain ⟨accepted, collected, hm, hc⟩ := hcollected
      rw [hu, ho] at hm
      refine Collected.append ⟨accepted, collected, hm, fun call hin => ?_⟩ _
      rw [List.mem_singleton.mp hin]
      exact hc _ (by simp [hr])

variable [Durable σ]

/-- Every rule keeps the record fitting. -/
theorem Step.recorded {s t : Managed σ L} {move : Move L} {e : Event} (h : Step s move e t)
    (ho : s.manager.Orderly) (hr : s.Recorded) : (t.record e).Recorded := by
  cases h with
  | accept hm =>
    obtain ⟨-, ⟨number, -, -, rfl⟩ | ⟨-, rfl⟩⟩ := Manager.obtain_eq_ok hm
    · exact hr.keep rfl (by rw [Manager.roster_join_fst]) rfl rfl rfl rfl rfl
    · exact hr.create ..
  | refuse | clear | setPolicy => exact hr.keep rfl rfl rfl rfl rfl rfl rfl
  | take => exact hr.quiet (Manager.quiet_take ..) rfl rfl rfl
  | start ha => exact hr.start ho ha
  | report => exact hr.quiet (Manager.quiet_complete ..) rfl rfl rfl
  | raise => exact hr.quiet (Manager.quiet_startRaised ..) rfl rfl rfl
  | await => exact hr.quiet (Manager.quiet_await ..) rfl rfl rfl
  | expire => exact hr.quiet (Manager.quiet_expire ..) rfl rfl rfl
  | finish ha => exact hr.finish ho ha ..
  | @tell number raised c o left hn => exact hr.tell hn (exists_afterTelling _ number raised)
  | close => exact hr.quiet (Manager.quiet_close _) rfl rfl rfl

/-- The record fits the manager after every run. -/
theorem run_recorded (share : Bool) (timeout : Option Binary64) (hasProcess : Bool)
    (session : Session σ) (moves : List (Move L)) :
    ((new share timeout hasProcess session : Managed σ L).run moves).Recorded := by
  refine (run_induction (P := fun s => s.manager.Orderly ∧ s.Recorded)
    ⟨Manager.orderly_new share timeout hasProcess, recorded_new share timeout hasProcess session⟩
    fun s e t _ _ h hstep => ?_).2
  exact ⟨hstep.orderly h.1, hstep.recorded h.1 h.2⟩

end Managed

end BearerSession
