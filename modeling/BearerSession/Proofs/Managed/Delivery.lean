import BearerSession.Durable.Memory
import BearerSession.Proofs.Managed.Record

/-!
# Every call is answered once

An accepted call waits in an outstanding attempt, is still to be told, or has been told. The three
lists together are a permutation of all accepted calls, whatever moves are made and in whatever
order, as long as nothing but ordinary errors is raised; so no listener is lost and none is told
twice.
-/

namespace BearerSession

namespace Manager

variable {L : Type} {m : Manager (Call L)}

/-- The calls that wait in outstanding attempts. -/
def waitingCalls (m : Manager (Call L)) : List Nat := (m.roster.flatMap Prod.snd).map Call.number

/-- The calls of finished attempts whose listeners are still to be told. -/
def untoldCalls (m : Manager (Call L)) : List Nat :=
  (m.tellings.flatMap Telling.rest).map Call.number

/-- The attempt of a number on the roster stands before all others. -/
theorem Orderly.roster_perm (h : m.Orderly) {entry : Nat × List (Call L)} (he : entry ∈ m.roster) :
    m.roster.Perm (entry :: m.roster.filter fun e => e.1 ≠ entry.1) :=
  perm_cons_filter_ne Prod.fst (h.increasing.imp fun hlt => Nat.ne_of_lt hlt) he

/-- A call that joins the attempt in flight waits there, besides those who wait already. -/
theorem Orderly.waitingCalls_join (h : m.Orderly) {number : Nat} (hi : m.inflight = some number)
    (c : Call L) : (m.join number c).waitingCalls.Perm (m.waitingCalls ++ [c.number]) := by
  obtain ⟨entry, he, rfl⟩ := List.mem_map.mp (h.inflight number hi)
  have hothers : (m.roster.filter fun e => e.1 ≠ entry.1).map
      (fun e => if e.1 = entry.1 then (e.1, e.2 ++ [c]) else e) =
        m.roster.filter fun e => e.1 ≠ entry.1 := by
    refine (List.map_congr_left fun e hmem => ?_).trans (List.map_id _)
    have hne : e.1 ≠ entry.1 := by simpa using (List.mem_filter.mp hmem).2
    simp [hne]
  have hjoined : (m.join entry.1 c).roster.Perm
      ((entry.1, entry.2 ++ [c]) :: m.roster.filter fun e => e.1 ≠ entry.1) := by
    rw [roster_join]
    have hp := (h.roster_perm he).map fun e => if e.1 = entry.1 then (e.1, e.2 ++ [c]) else e
    rwa [List.map_cons, if_pos rfl, hothers] at hp
  unfold waitingCalls
  have hleft := (hjoined.flatMap_right Prod.snd).map Call.number
  have hright := ((h.roster_perm he).flatMap_right Prod.snd).map Call.number
  refine hleft.trans (.trans ?_ (hright.symm.append_right [c.number]))
  simp only [List.flatMap_cons, List.map_append, List.map_cons, List.map_nil, List.append_assoc]
  exact .append_left _ List.perm_append_comm

theorem waitingCalls_create (m : Manager (Call L)) (host : Value) (params : List Value)
    (c : Call L) : (m.create host params c).waitingCalls = m.waitingCalls ++ [c.number] := by
  simp [waitingCalls]

theorem Quiet.waitingCalls {m' : Manager (Call L)} (h : m.Quiet m') :
    m'.waitingCalls = m.waitingCalls := by
  unfold Manager.waitingCalls
  rw [h.roster]

theorem Quiet.untoldCalls {m' : Manager (Call L)} (h : m.Quiet m') :
    m'.untoldCalls = m.untoldCalls := by
  unfold Manager.untoldCalls
  rw [h.tellings]

/-- The listeners of a finished attempt wait no more. -/
theorem Orderly.waitingCalls_remove (h : m.Orderly) {a : Attempt (Call L)} (ha : a ∈ m.attempts)
    (o : Outcome) : m.waitingCalls.Perm
      (a.listeners.map Call.number ++ (m.remove a o).waitingCalls) := by
  have he : (a.number, a.listeners) ∈ m.roster := List.mem_map.mpr ⟨a, ha, rfl⟩
  have hp := ((h.roster_perm he).flatMap_right Prod.snd).map Call.number
  unfold waitingCalls
  rw [roster_remove]
  simpa using hp

/-- They are the last to be told. -/
theorem untoldCalls_remove (m : Manager (Call L)) (a : Attempt (Call L)) (o : Outcome) :
    (m.remove a o).untoldCalls = m.untoldCalls ++ a.listeners.map Call.number := by
  simp [untoldCalls, remove, flatMap_untold]

/-- One listener fewer is to be told after each telling. -/
theorem untoldCalls_tell {number : Nat} {c : Call L} {o : Outcome} {left : List (Telling (Call L))}
    (h : Telling.next? number m.tellings = some (c, o, left)) :
    m.untoldCalls.Perm (c.number :: ({ m with tellings := left } : Manager _).untoldCalls) := by
  obtain ⟨before, t, rest, after, ht, -, -, hr, -, rfl⟩ := Telling.next?_eq_some h
  have hleft : (untold ({ t with rest } :: after)).flatMap Telling.rest =
      rest ++ after.flatMap Telling.rest := by
    rw [flatMap_untold, List.flatMap_cons]
  unfold untoldCalls
  simp only [ht, List.flatMap_append, List.flatMap_cons, hr, hleft, List.map_append, List.map_cons,
    List.cons_append]
  exact List.perm_middle

end Manager

namespace Managed

variable {σ L : Type}

/-- Every accepted call waits, is still to be told, or has been told, and only one of these. -/
def Delivered (s : Managed σ L) : Prop :=
  (s.manager.waitingCalls ++ s.manager.untoldCalls ++ toldCalls s.log).Perm (List.range s.calls)

theorem delivered_new (share : Bool) (timeout : Option Binary64) (hasProcess : Bool)
    (session : Session σ) : (new share timeout hasProcess session : Managed σ L).Delivered := by
  simp [Delivered, new, Manager.new, Manager.waitingCalls, Manager.roster, Manager.untoldCalls,
    toldCalls]

/-- Events other than tellings change nobody's situation. -/
theorem Delivered.keep {s t : Managed σ L} {e : Event} (h : s.Delivered) (hlog : t.log = s.log)
    (hw : t.manager.waitingCalls = s.manager.waitingCalls)
    (hu : t.manager.untoldCalls = s.manager.untoldCalls) (hc : t.calls = s.calls)
    (ht : toldCalls [e] = []) : (t.record e).Delivered := by
  have htold := toldCalls_concat s.log ht
  change (t.manager.waitingCalls ++ t.manager.untoldCalls ++ toldCalls (t.log ++ [e])).Perm
    (List.range t.calls)
  rw [hw, hu, hlog, htold, hc]
  exact h

theorem Delivered.quiet {s : Managed σ L} {e : Event} (h : s.Delivered) {m : Manager (Call L)}
    (hq : s.manager.Quiet m) (ht : toldCalls [e] = []) :
    ({ s with manager := m }.record e).Delivered :=
  h.keep rfl hq.waitingCalls hq.untoldCalls rfl ht

/-- A new call waits. -/
theorem Delivered.accept {s : Managed σ L} (h : s.Delivered) {m : Manager (Call L)}
    (hw : m.waitingCalls.Perm (s.manager.waitingCalls ++ [s.calls]))
    (hu : m.untoldCalls = s.manager.untoldCalls) :
    ({ s with manager := m, calls := s.calls + 1 }.record (.accepted s.calls)).Delivered := by
  have htold := toldCalls_concat s.log (e := .accepted s.calls) rfl
  change (m.waitingCalls ++ m.untoldCalls ++ toldCalls (s.log ++ [.accepted s.calls])).Perm
    (List.range (s.calls + 1))
  rw [hu, htold, List.range_succ, List.append_assoc]
  refine (hw.append_right _).trans (List.Perm.trans ?_ (h.append_right [s.calls]))
  simp only [List.append_assoc]
  refine List.Perm.append_left _ ?_
  rw [← List.append_assoc s.manager.untoldCalls]
  exact List.perm_append_comm

/-- The listeners of a finished attempt are told next. -/
theorem Delivered.finish {s : Managed σ L} (h : s.Delivered) (ho : s.manager.Orderly)
    {a : Attempt (Call L)} (ha : a ∈ s.manager.attempts) (accepted o : Outcome)
    (session : Session σ) :
    ({ s with manager := s.manager.remove a o, session }.record
      (.finished a.number accepted o (a.listeners.map Call.number))).Delivered := by
  have htold := toldCalls_concat s.log
    (e := .finished a.number accepted o (a.listeners.map Call.number)) rfl
  have hw := ho.waitingCalls_remove ha o
  change ((s.manager.remove a o).waitingCalls ++ (s.manager.remove a o).untoldCalls ++
    toldCalls (s.log ++ _)).Perm (List.range s.calls)
  rw [htold, Manager.untoldCalls_remove]
  refine List.Perm.trans ?_ h
  refine List.Perm.append_right _ ?_
  refine List.Perm.trans ?_ (hw.symm.append_right _)
  rw [← List.append_assoc, List.append_assoc (a.listeners.map Call.number)]
  exact List.perm_append_comm

/-- Whoever is told is to be told no more. -/
theorem Delivered.tell {s : Managed σ L} (h : s.Delivered) {number : Nat} {c : Call L}
    {o : Outcome} {left : List (Telling (Call L))}
    (hn : Telling.next? number s.manager.tellings = some (c, o, left)) :
    ({ s with manager := { s.manager with tellings := left } }.record
      (.told number c.number o)).Delivered := by
  have htold : toldCalls (s.log ++ [.told number c.number o]) = toldCalls s.log ++ [c.number] := by
    simp [toldCalls]
  have hu := Manager.untoldCalls_tell hn
  change (s.manager.waitingCalls ++ ({ s.manager with tellings := left } : Manager _).untoldCalls ++
    toldCalls (s.log ++ _)).Perm (List.range s.calls)
  rw [htold]
  refine List.Perm.trans ?_ h
  simp only [List.append_assoc]
  refine List.Perm.append_left _ ?_
  refine List.Perm.trans ?_ (hu.symm.append_right _)
  rw [← List.append_assoc]
  exact List.perm_append_comm

variable [Durable σ]

/-- Every rule keeps the calls delivered, as long as only ordinary errors are raised. -/
theorem Step.delivered {s t : Managed σ L} {move : Move L} {e : Event} (h : Step s move e t)
    (hord : move.isOrdinary = true) (ho : s.manager.Orderly) (hd : s.Delivered) :
    (t.record e).Delivered := by
  cases h with
  | accept hm =>
    obtain ⟨-, ⟨number, hi, -, rfl⟩ | ⟨-, rfl⟩⟩ := Manager.obtain_eq_ok hm
    · exact hd.accept (ho.waitingCalls_join hi _) rfl
    · exact hd.accept (by rw [Manager.waitingCalls_create]) rfl
  | refuse | clear | setPolicy => exact hd.keep rfl rfl rfl rfl rfl
  | take => exact hd.quiet (Manager.quiet_take ..) rfl
  | start => exact hd.quiet (Manager.quiet_start ..) rfl
  | report => exact hd.quiet (Manager.quiet_complete ..) rfl
  | raise => exact hd.quiet (Manager.quiet_startRaised ..) rfl
  | await => exact hd.quiet (Manager.quiet_await ..) rfl
  | expire => exact hd.quiet (Manager.quiet_expire ..) rfl
  | finish ha => exact hd.finish ho ha ..
  | tell hn =>
    rw [afterTelling_eq _ _ (Move.isOrdinary_tell hord)]
    exact hd.tell hn
  | close => exact hd.quiet (Manager.quiet_close _) rfl

/-- The calls are delivered after every run in which only ordinary errors are raised. -/
theorem run_delivered (share : Bool) (timeout : Option Binary64) (hasProcess : Bool)
    (session : Session σ) {moves : List (Move L)} (hord : ∀ move ∈ moves, move.isOrdinary = true) :
    ((new share timeout hasProcess session : Managed σ L).run moves).Delivered := by
  refine (run_induction (P := fun s => s.manager.Orderly ∧ s.Delivered)
    ⟨Manager.orderly_new share timeout hasProcess, delivered_new share timeout hasProcess session⟩
    fun s e t move hm h hstep => ?_).2
  exact ⟨hstep.orderly h.1, hstep.delivered (hord move hm) h.1 h.2⟩

/-- A call waits in the listener list of exactly one outstanding attempt, and only once. -/
def WaitsOnce (s : Managed σ L) (call : Nat) : Prop :=
  ∃ before a after, s.manager.attempts = before ++ a :: after ∧
    (a.listeners.map Call.number).count call = 1 ∧
    ∀ b ∈ before ++ after, call ∉ b.listeners.map Call.number

omit [Durable σ] in
/-- Waiting once among all attempts is waiting in one of them. -/
theorem waitsOnce_of_count {s : Managed σ L} {call : Nat}
    (h : s.manager.waitingCalls.count call = 1) : s.WaitsOnce call := by
  have hcalls : s.manager.waitingCalls =
      s.manager.attempts.flatMap fun a => a.listeners.map Call.number := by
    simp [Manager.waitingCalls, Manager.roster, List.flatMap_map, List.map_flatMap]
  rw [hcalls] at h
  have hmem : call ∈ s.manager.attempts.flatMap fun a => a.listeners.map Call.number :=
    List.count_pos_iff.mp (by omega)
  obtain ⟨a, ha, hin⟩ := List.mem_flatMap.mp hmem
  obtain ⟨before, after, hsplit⟩ := List.append_of_mem ha
  have hpos : 0 < (a.listeners.map Call.number).count call := List.count_pos_iff.mpr hin
  rw [hsplit, List.flatMap_append, List.flatMap_cons, List.count_append, List.count_append] at h
  refine ⟨before, a, after, hsplit, by omega, fun b hb hcall => ?_⟩
  have hother : 0 < (before.flatMap fun a => a.listeners.map Call.number).count call ∨
      0 < (after.flatMap fun a => a.listeners.map Call.number).count call := by
    rcases List.mem_append.mp hb with hb | hb
    · exact Or.inl (List.count_pos_iff.mpr (List.mem_flatMap.mpr ⟨b, hb, hcall⟩))
    · exact Or.inr (List.count_pos_iff.mpr (List.mem_flatMap.mpr ⟨b, hb, hcall⟩))
  omega

/-- No accepted call is lost and none is answered twice. -/
structure AnswersOnce (s : Managed σ L) : Prop where
  /-- Each call waits, is still to be told, or has been told, and this once. -/
  place : ∀ call < s.calls, s.manager.waitingCalls.count call +
    s.manager.untoldCalls.count call + (toldCalls s.log).count call = 1
  /-- Where no listeners are being told, each call waits in exactly one outstanding attempt or has
  been told exactly one outcome. -/
  atRest : s.manager.tellings = [] → ∀ call < s.calls,
    (s.WaitsOnce call ∧ call ∉ toldCalls s.log) ∨
      (call ∉ s.manager.waitingCalls ∧ (toldCalls s.log).count call = 1)
  /-- An attempt whose listeners have been collected takes no more of them. -/
  gone : ∀ number accepted outcome calls, .finished number accepted outcome calls ∈ s.log →
    ∀ a ∈ s.manager.attempts, a.number ≠ number
  /-- Who is told was collected, and is told the outcome that was settled then. -/
  collected : ∀ number call outcome, .told number call outcome ∈ s.log →
    Collected s.log number outcome [call]
  /-- Those still to be told are told one by one, whether listeners raise or not. -/
  goesOn : ∀ t ∈ s.manager.tellings, ∀ raised : Option Raised, (∀ e ∈ raised, e.isOrdinary) →
    ∃ call outcome,
      (s.step (.tell t.number raised)).log = s.log ++ [.told t.number call outcome] ∧
      (s.step (.tell t.number raised)).manager.untoldCalls.length + 1 =
        s.manager.untoldCalls.length

/-- A telling goes on with its next listener, whatever ordinary error the last one raised. -/
theorem step_tell {s : Managed σ L} (ho : s.manager.Orderly) {t : Telling (Call L)}
    (ht : t ∈ s.manager.tellings) {raised : Option Raised} (hr : ∀ e ∈ raised, e.isOrdinary) :
    ∃ call outcome,
      (s.step (.tell t.number raised)).log = s.log ++ [.told t.number call outcome] ∧
      (s.step (.tell t.number raised)).manager.untoldCalls.length + 1 =
        s.manager.untoldCalls.length := by
  obtain ⟨c, o, left, hn⟩ := Telling.exists_next? ho.untold ⟨t, ht, rfl⟩
  have hafter := afterTelling_eq { s.manager with tellings := left } t.number hr
  have hstep : s.step (.tell t.number raised) =
      ({ s with manager := { s.manager with tellings := left } } : Managed σ L).record
        (.told t.number c.number o) := by
    simp only [step, step?, hn, Option.map_some, hafter]
  rw [hstep]
  exact ⟨c.number, o, rfl, (Manager.untoldCalls_tell hn).length_eq.symm⟩

/-- What is kept by every rule says where each call is. -/
theorem Delivered.answersOnce {s : Managed σ L} (hd : s.Delivered) (ho : s.manager.Orderly)
    (hr : s.Recorded) : s.AnswersOnce := by
  have hplace : ∀ call < s.calls, s.manager.waitingCalls.count call +
      s.manager.untoldCalls.count call + (toldCalls s.log).count call = 1 := by
    intro call hc
    have hcount := hd.count_eq call
    rw [List.count_append, List.count_append] at hcount
    rw [hcount]
    exact List.count_eq_one_of_mem List.nodup_range (List.mem_range.mpr hc)
  refine ⟨hplace, fun hrest call hc => ?_, fun number accepted outcome calls hf a ha =>
    hr.number_ne hf ha, hr.told, fun t ht raised hraised => step_tell ho ht hraised⟩
  have hone := hplace call hc
  have hnone : s.manager.untoldCalls = [] := by simp [Manager.untoldCalls, hrest]
  rw [hnone, List.count_nil] at hone
  rcases Nat.eq_zero_or_pos ((toldCalls s.log).count call) with hz | hp
  · exact Or.inl ⟨waitsOnce_of_count (by omega), List.count_eq_zero.mp hz⟩
  · exact Or.inr ⟨List.count_eq_zero.mp (by omega), by omega⟩

/-- After every run in which processes and listeners raise only ordinary errors, each accepted call
waits in exactly one outstanding attempt or has been answered exactly once. -/
theorem run_answersOnce (share : Bool) (timeout : Option Binary64) (hasProcess : Bool)
    (session : Session σ) (moves : List (Move L)) (hord : ∀ move ∈ moves, move.isOrdinary = true) :
    ((new share timeout hasProcess session : Managed σ L).run moves).AnswersOnce :=
  (run_delivered share timeout hasProcess session hord).answersOnce
    (run_orderly share timeout hasProcess session moves)
    (run_recorded share timeout hasProcess session moves)

/-- Two callers share an attempt whose process raises. The first listener raises when it is told,
the second asks again, and the manager is closed while that attempt waits for its turn. -/
def quarrel : List (Move String) :=
  [.obtain .null [] (some "a"), .obtain .null [] (some "b"), .take, .start 0,
    .raise 0 (.host ⟨"RuntimeError", .runtime, some "bug"⟩), .await 0 (.zero false),
    .report 0 (.failure (.reported "late")), .finish 0,
    .tell 0 (some (.host ⟨"ValueError", .value, none⟩)), .tell 0 none,
    .obtain .null [] (some "b"), .close, .finish 1, .tell 1 none, .obtain .null [] (some "c")]

/-- All three accepted calls of the quarrel are answered. -/
theorem quarrel_answersOnce :
    (∀ move ∈ quarrel, move.isOrdinary = true) ∧
      ((new true none true ⟨.blank .always, ⟨[], []⟩⟩ : Managed Memory String).run
        quarrel).AnswersOnce ∧
      toldCalls ((new true none true ⟨.blank .always, ⟨[], []⟩⟩ : Managed Memory String).run
        quarrel).log = [0, 1, 2] :=
  ⟨by decide, run_answersOnce true none true _ quarrel (by decide), by decide⟩

end Managed

end BearerSession
