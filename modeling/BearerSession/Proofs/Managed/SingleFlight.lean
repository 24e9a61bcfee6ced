import BearerSession.Proofs.Managed.Membership
import BearerSession.Proofs.Managed.Serial

/-!
# Single flight

Where attempts are shared, at most one is outstanding and it is in flight until it is finished.
Whoever asks before that joins it and is told what its first listener is told; whoever asks after
that gets a new attempt, also while listeners of the finished one are still to be told. Where
attempts are not shared, every call has an attempt of its own, and the one in flight is the
outstanding one that was created last.
-/

namespace BearerSession

namespace Managed

theorem mem_toldOf {number call : Nat} {log : List Event} :
    call ∈ toldOf number log ↔ ∃ outcome, Event.told number call outcome ∈ log := by
  simp only [toldOf, List.mem_filterMap]
  constructor
  · rintro ⟨e, he, hc⟩
    cases e with
    | told n c o =>
      obtain ⟨hn, hcall⟩ := Option.ite_none_right_eq_some.mp hc
      rw [← hn, ← Option.some.inj hcall]
      exact ⟨o, he⟩
    | _ => contradiction
  · rintro ⟨outcome, he⟩
    exact ⟨_, he, if_pos rfl⟩

variable {σ L : Type} {s t : Managed σ L} {move : Move L} {e : Event}

/-- Whoever is told by an attempt is told what its first listener has been told. -/
theorem Attentive.told_first (h : s.Attentive) {number first call : Nat} {outcome : Outcome}
    (hl : s.Leads first number) (ht : .told number call outcome ∈ s.log) :
    .told number first outcome ∈ s.log := by
  obtain ⟨accepted, calls, hf, -⟩ := h.sound.recorded.told number call outcome ht
  have hfirst : calls.head? = some first := CallsOf.of_finished hl h.sound.recorded hf
  have hheard := h.heard number accepted outcome calls hf
  obtain ⟨c, told, htold⟩ := List.exists_cons_of_ne_nil
    (List.ne_nil_of_mem (mem_toldOf.mpr ⟨outcome, ht⟩))
  rw [htold, List.cons_append] at hheard
  obtain rfl : c = first := by
    rw [← hheard] at hfirst
    exact Option.some.inj hfirst
  obtain ⟨outcome', ht'⟩ := mem_toldOf.mp (htold ▸ List.mem_cons_self)
  rwa [h.sound.recorded.told_inj ht ht']

/-- When a finished attempt has nobody left to tell, it has told all its listeners its outcome. -/
theorem HeardFrom.told_all {number : Nat} (h : s.HeardFrom number) (hr : s.Recorded)
    {accepted outcome : Outcome} {calls : List Nat}
    (hf : .finished number accepted outcome calls ∈ s.log)
    (hrest : ∀ t ∈ s.manager.tellings, t.number ≠ number) {call : Nat}
    (hb : s.Belongs call number) : .told number call outcome ∈ s.log := by
  have hcall : call ∈ calls := CallsOf.of_finished hb hr hf
  have hheard := h accepted outcome calls hf
  rw [untoldOf_eq_nil hrest, List.append_nil] at hheard
  obtain ⟨outcome', ht⟩ := mem_toldOf.mp (hheard ▸ hcall)
  obtain ⟨accepted', calls', hf', -⟩ := hr.told number call outcome' ht
  rwa [(hr.finished_inj hf hf').2.1]

/-- So it has if it has told somebody and has nobody left to tell. -/
theorem Attentive.told_all (h : s.Attentive) {number first call : Nat} {outcome : Outcome}
    (hb : s.Belongs call number) (ht : .told number first outcome ∈ s.log)
    (hrest : ∀ t ∈ s.manager.tellings, t.number ≠ number) :
    .told number call outcome ∈ s.log := by
  obtain ⟨accepted, calls, hf, -⟩ := h.sound.recorded.told number first outcome ht
  exact (h.heard number).told_all h.sound.recorded hf hrest hb

variable [Durable σ]

theorem run_share (s : Managed σ L) (moves : List (Move L)) :
    (s.run moves).manager.share = s.manager.share :=
  run_induction (P := fun t => t.manager.share = s.manager.share) rfl
    fun _ _ _ _ _ ht h => h.settings_eq.1.trans ht

/-- A call that is accepted is added to the manager and counted. -/
theorem step_obtain_eq {host : Value} {params : List Value} {l : L}
    (h : (s.step (.obtain host params (some l))).log = s.log ++ [.accepted s.calls]) :
    ∃ m, s.manager.obtain host params (some ⟨s.calls, l⟩) = .ok m ∧
      s.step (.obtain host params (some l)) =
        ({ s with manager := m, calls := s.calls + 1 } : Managed σ L).record
          (.accepted s.calls) := by
  rcases s.step_cases (.obtain host params (some l)) with hs | ⟨e, t, hstep, he⟩
  · rw [hs] at h
    simp at h
  · have hevent : e = .accepted s.calls := by
      rw [he, log_record, hstep.log_eq] at h
      simpa using h
    cases hstep with
    | accept hm => exact ⟨_, hm, he⟩
    | refuse => contradiction

section Shared

/-- What is outstanding is the attempt in flight, and somebody waits for it. -/
structure Alone (s : Managed σ L) : Prop where
  /-- Nothing else is outstanding. -/
  inflight : s.manager.roster.map Prod.fst = s.manager.inflight.toList
  /-- It has a listener. -/
  manned : ∀ entry ∈ s.manager.roster, entry.2 ≠ []

omit [Durable σ] in
theorem alone_new (share : Bool) (timeout : Option Binary64) (hasProcess : Bool)
    (session : Session σ) : (new share timeout hasProcess session : Managed σ L).Alone :=
  ⟨rfl, by simp [new, Manager.new, Manager.roster]⟩

omit [Durable σ] in
/-- Where nothing is in flight, nothing is outstanding. -/
theorem Alone.roster_eq_nil (h : s.Alone) (hi : s.manager.inflight = none) :
    s.manager.roster = [] := by
  have hnumbers := h.inflight
  rw [hi] at hnumbers
  exact List.map_eq_nil_iff.mp hnumbers

omit [Durable σ] in
/-- What is outstanding is in flight. -/
theorem Alone.inflight_eq (h : s.Alone) {a : Attempt (Call L)} (ha : a ∈ s.manager.attempts) :
    s.manager.inflight = some a.number := by
  have hmem := List.mem_map_of_mem (f := Prod.fst) (Manager.mem_roster ha)
  rw [h.inflight] at hmem
  exact Option.mem_toList.mp hmem

/-- Where attempts are shared, every rule keeps the one in flight alone. -/
theorem Step.alone (h : Step s move e t) (hshare : s.manager.share = true) (ha : s.Alone) :
    (t.record e).Alone := by
  obtain ⟨host, params, l, -, -, -, ⟨number, -, -, hm⟩ | ⟨hnone, hm⟩⟩ |
    ⟨a, hmem, o, -, -, -, hm, -⟩ | ⟨-, -, -, hsame⟩ := h.roster_cases
  · constructor
    · change t.manager.roster.map Prod.fst = t.manager.inflight.toList
      rw [hm, Manager.roster_join_fst]
      exact ha.inflight
    · intro entry hentry
      change entry ∈ t.manager.roster at hentry
      rw [hm, Manager.roster_join] at hentry
      obtain ⟨before, hbefore, rfl⟩ := List.mem_map.mp hentry
      split
      · simp
      · exact ha.manned before hbefore
  · have hinflight := hnone.resolve_right (by simp [hshare])
    have hroster : t.manager.roster = [(s.manager.created, [⟨s.calls, l⟩])] := by
      rw [hm, Manager.roster_create, ha.roster_eq_nil hinflight, List.nil_append]
    constructor
    · change t.manager.roster.map Prod.fst = t.manager.inflight.toList
      rw [hroster, hm]
      rfl
    · intro entry hentry
      change entry ∈ t.manager.roster at hentry
      rw [hroster, List.mem_singleton] at hentry
      simp [hentry]
  · have hinflight := ha.inflight_eq hmem
    have hroster : t.manager.roster = [] := by
      rw [hm, Manager.roster_remove, List.filter_eq_nil_iff]
      intro entry hentry
      have hnumber := List.mem_map_of_mem (f := Prod.fst) hentry
      rw [ha.inflight, hinflight] at hnumber
      simpa using hnumber
    constructor
    · change t.manager.roster.map Prod.fst = t.manager.inflight.toList
      rw [hroster, hm, Manager.remove, if_pos hinflight]
      rfl
    · intro entry hentry
      change entry ∈ t.manager.roster at hentry
      simp [hroster] at hentry
  · constructor
    · change t.manager.roster.map Prod.fst = t.manager.inflight.toList
      rw [hsame.roster, hsame.inflight]
      exact ha.inflight
    · change ∀ entry ∈ t.manager.roster, entry.2 ≠ []
      rw [hsame.roster]
      exact ha.manned

/-- The one in flight is alone after every run in which attempts are shared. -/
theorem run_alone (timeout : Option Binary64) (hasProcess : Bool) (session : Session σ)
    (moves : List (Move L)) :
    ((new true timeout hasProcess session : Managed σ L).run moves).Alone := by
  refine (run_induction (P := fun s => s.manager.share = true ∧ s.Alone)
    ⟨rfl, alone_new true timeout hasProcess session⟩ fun s e t _ _ h hstep => ?_).2
  exact ⟨hstep.settings_eq.1.trans h.1, hstep.alone h.1 h.2⟩

end Shared

section Separate

/-- Every call has an attempt of its own. -/
structure Apart (s : Managed σ L) : Prop where
  /-- There are as many attempts as calls. -/
  created : s.manager.created = s.calls
  /-- In each outstanding attempt waits the call of its number. -/
  waiting : ∀ entry ∈ s.manager.roster, entry.2.map Call.number = [entry.1]
  /-- So it was in those that are finished. -/
  collected : ∀ number accepted outcome calls,
    .finished number accepted outcome calls ∈ s.log → calls = [number]

omit [Durable σ] in
theorem apart_new (share : Bool) (timeout : Option Binary64) (hasProcess : Bool)
    (session : Session σ) : (new share timeout hasProcess session : Managed σ L).Apart :=
  ⟨rfl, by simp [new, Manager.new, Manager.roster], by simp [new]⟩

omit [Durable σ] in
theorem Apart.eq_of_belongs (h : s.Apart) {call number : Nat} (hb : s.Belongs call number) :
    number = call := by
  obtain ⟨entry, hentry, rfl, hcall⟩ | ⟨accepted, outcome, calls, hf, hcall⟩ := hb
  · rw [h.waiting entry hentry] at hcall
    exact (List.mem_singleton.mp hcall).symm
  · rw [h.collected number accepted outcome calls hf] at hcall
    exact (List.mem_singleton.mp hcall).symm

omit [Durable σ] in
/-- What finishes nothing keeps the calls of finished attempts apart. -/
theorem Apart.collected_append (h : s.Apart) (hf : finishes [e] = []) (number : Nat)
    (accepted outcome : Outcome) (calls : List Nat)
    (hm : .finished number accepted outcome calls ∈ s.log ++ [e]) : calls = [number] := by
  rcases List.mem_append.mp hm with hm | hm
  · exact h.collected number accepted outcome calls hm
  · have hin : number ∈ finishes [e] := mem_finishes.mpr ⟨accepted, outcome, calls, hm⟩
    rw [hf] at hin
    contradiction

/-- Where attempts are not shared, every rule keeps the calls apart. -/
theorem Step.apart (h : Step s move e t) (hshare : s.manager.share = false) (ha : s.Apart) :
    (t.record e).Apart := by
  have hlog : (t.record e).log = s.log ++ [e] := by rw [log_record, h.log_eq]
  obtain ⟨host, params, l, rfl, hcalls, -, ⟨number, -, hjoined, -⟩ | ⟨-, hm⟩⟩ |
    ⟨a, hmem, o, -, -, rfl, hm, hcalls⟩ | ⟨-, hf, hcalls, hsame⟩ := h.roster_cases
  · rw [hshare] at hjoined
    contradiction
  · constructor
    · change t.manager.created = t.calls
      rw [hm, hcalls, ← ha.created]
      rfl
    · intro entry hentry
      change entry ∈ t.manager.roster at hentry
      rw [hm, Manager.roster_create, List.mem_append, List.mem_singleton] at hentry
      rcases hentry with hentry | rfl
      · exact ha.waiting entry hentry
      · simp [ha.created]
    · rw [hlog]
      exact ha.collected_append rfl
  · constructor
    · change t.manager.created = t.calls
      rw [hm, hcalls]
      exact ha.created
    · intro entry hentry
      change entry ∈ t.manager.roster at hentry
      rw [hm, Manager.roster_remove] at hentry
      exact ha.waiting entry (List.mem_filter.mp hentry).1
    · intro number accepted outcome calls hm'
      rw [hlog] at hm'
      rcases List.mem_append.mp hm' with hm' | hm'
      · exact ha.collected number accepted outcome calls hm'
      · cases List.mem_singleton.mp hm'
        exact ha.waiting _ (Manager.mem_roster hmem)
  · constructor
    · change t.manager.created = t.calls
      rw [hsame.created, hcalls]
      exact ha.created
    · change ∀ entry ∈ t.manager.roster, _
      rw [hsame.roster]
      exact ha.waiting
    · rw [hlog]
      exact ha.collected_append hf

/-- The calls are apart after every run in which attempts are not shared. -/
theorem run_apart (timeout : Option Binary64) (hasProcess : Bool) (session : Session σ)
    (moves : List (Move L)) :
    ((new false timeout hasProcess session : Managed σ L).run moves).Apart := by
  refine (run_induction (P := fun s => s.manager.share = false ∧ s.Apart)
    ⟨rfl, apart_new false timeout hasProcess session⟩ fun s e t _ _ h hstep => ?_).2
  exact ⟨hstep.settings_eq.1.trans h.1, hstep.apart h.1 h.2⟩

end Separate

section Latest

/-- The attempt in flight is the outstanding one that was created last. -/
def InflightLast (s : Managed σ L) : Prop :=
  s.manager.inflight = (s.manager.roster.map Prod.fst).max?

omit [Durable σ] in
/-- As long as the manager is open and none has been lost, what can be finished is older than all
that are outstanding. -/
theorem Regular.number_lt_of_isReady (h : s.Regular) (hnone : s.NoneLost)
    (hopen : s.manager.closed = false) {a b : Attempt (Call L)} (ha : a ∈ s.manager.attempts)
    (hr : a.isReady = true) (hb : b ∈ s.manager.attempts) (hne : b.number ≠ a.number) :
    a.number < b.number := by
  obtain ⟨next, hturns⟩ := h.inTurn.turns
  have hopened : s.manager.closed ≠ true := by simp [hopen]
  have hcurrent : a.number + 1 = next := by
    refine hturns.current a.number a.phase (Manager.mem_standing ha) ?_ ?_ ?_
    · intro hq
      simp [Attempt.isReady, hq] at hr
    · intro hc
      exact hopened (hturns.cancelled a.number (hc ▸ Manager.mem_standing ha)).2
    · intro hl
      exact hnone a.number (hl ▸ Manager.mem_standing ha)
  by_cases hq : b.phase = .queued
  · have hqueued := (hturns.queued b.number (hq ▸ Manager.mem_standing hb)).1
    omega
  · have hnot : b.phase ≠ .cancelled := fun hc =>
      hopened (hturns.cancelled b.number (hc ▸ Manager.mem_standing hb)).2
    have hkept : b.phase ≠ .lost := fun hl => hnone b.number (hl ▸ Manager.mem_standing hb)
    have hboth := hturns.current b.number b.phase (Manager.mem_standing hb) hq hnot hkept
    omega

omit [Durable σ] in
/-- As long as the manager is open and no attempt has been lost, finishing one keeps the last one in
flight. -/
theorem InflightLast.remove (hl : s.InflightLast) (hreg : s.Regular) (hnone : s.NoneLost)
    (hopen : s.manager.closed = false) {a : Attempt (Call L)} (ha : a ∈ s.manager.attempts)
    (hr : a.isReady = true) (o : Outcome) :
    (s.manager.remove a o).inflight = ((s.manager.remove a o).roster.map Prod.fst).max? := by
  have hin : a.number ∈ s.manager.roster.map Prod.fst := by
    rw [Manager.roster_fst]
    exact List.mem_map_of_mem ha
  obtain ⟨last, hlast⟩ := Option.isSome_iff_exists.mp (List.isSome_max?_of_mem hin)
  obtain ⟨hlastin, hbound⟩ := List.max?_eq_some_iff.mp hlast
  have hinflight : s.manager.inflight = some last := hl.trans hlast
  have hyounger : ∀ number ∈ s.manager.roster.map Prod.fst, number ≠ a.number →
      a.number < number := by
    intro number hn hne
    rw [Manager.roster_fst] at hn
    obtain ⟨b, hb, rfl⟩ := List.mem_map.mp hn
    exact hreg.number_lt_of_isReady hnone hopen ha hr hb hne
  rw [Manager.roster_remove]
  by_cases hsame : last = a.number
  · -- nothing is younger than the one that is finished, and nothing older is outstanding
    have hempty : (s.manager.roster.filter fun entry => entry.1 ≠ a.number) = [] := by
      refine List.filter_eq_nil_iff.mpr fun entry hentry => ?_
      have hnumber := List.mem_map_of_mem (f := Prod.fst) hentry
      have hle := hbound entry.1 hnumber
      have hlt := hyounger entry.1 hnumber
      rw [decide_eq_true_eq]
      intro hne
      have := hlt hne
      omega
    rw [hempty, Manager.remove, if_pos (hsame ▸ hinflight)]
    rfl
  · have hkept : s.manager.inflight ≠ some a.number := by
      rw [hinflight]
      exact fun he => hsame (Option.some.inj he)
    rw [Manager.remove, if_neg hkept, hinflight]
    refine (List.max?_eq_some_iff.mpr ⟨?_, fun number hn => ?_⟩).symm
    · obtain ⟨entry, hentry, rfl⟩ := List.mem_map.mp hlastin
      exact List.mem_map_of_mem (List.mem_filter.mpr ⟨hentry, by simpa using hsame⟩)
    · exact hbound number ((List.filter_sublist.map _).subset hn)

/-- As long as the manager is open and no attempt has been lost, every rule keeps the last one in
flight. -/
theorem Step.inflightLast (h : Step s move e t) (hreg : s.Regular) (hnone : s.NoneLost)
    (hopen : s.manager.closed = false) (hl : s.InflightLast) : (t.record e).InflightLast := by
  change t.manager.inflight = (t.manager.roster.map Prod.fst).max?
  obtain ⟨host, params, l, -, -, -, ⟨number, -, -, hm⟩ | ⟨-, hm⟩⟩ |
    ⟨a, hmem, o, hr, -, -, hm, -⟩ | ⟨-, -, -, hsame⟩ := h.roster_cases
  · rw [hm, Manager.roster_join_fst]
    exact hl
  · have hlast : (t.manager.roster.map Prod.fst).max? = some s.manager.created := by
      rw [hm, Manager.roster_create, List.map_append]
      refine List.max?_eq_some_iff.mpr ⟨by simp, fun number hn => ?_⟩
      rcases List.mem_append.mp hn with hn | hn
      · exact Nat.le_of_lt (hreg.sound.orderly.bound number hn)
      · exact Nat.le_of_eq (by simpa using hn)
    rw [hlast, hm]
    rfl
  · rw [hm]
    exact hl.remove hreg hnone hopen hmem hr o
  · rw [hsame.roster, hsame.inflight]
    exact hl

/-- As long as a manager is open, the attempt created last is in flight. -/
theorem run_inflightLast (share : Bool) (timeout : Option Binary64) (hasProcess : Bool)
    (session : Session σ) {moves : List (Move L)}
    (hcaught : ∀ move ∈ moves, move.isCaught = true)
    (hopen : ((new share timeout hasProcess session : Managed σ L).run moves).manager.closed =
      false) :
    ((new share timeout hasProcess session : Managed σ L).run moves).InflightLast := by
  refine (run_induction (P := fun s => (s.Regular ∧ s.NoneLost) ∧
    (s.manager.closed = false → s.InflightLast)) ⟨⟨?_, fun _ => List.not_mem_nil⟩, fun _ => ?_⟩
    fun s e t move hm h hstep => ⟨⟨?_, ?_⟩, fun hafter => ?_⟩).2 hopen
  · exact regular_new share timeout hasProcess session
  · rfl
  · exact hstep.regular (Move.isOrdinary_of_isCaught (hcaught move hm)) h.1.1
  · exact hstep.noneLost (hcaught move hm) h.1.1.sound.orderly h.1.2
  · rcases hstep.closed_cases with hkept | ⟨-, hclosed⟩
    · have hbefore := hkept.symm.trans hafter
      exact hstep.inflightLast h.1.1 h.1.2 hbefore (h.2 hbefore)
    · exact absurd (hafter.symm.trans hclosed) Bool.false_ne_true

end Latest

section Callers

/-- Two calls of one attempt, the first of which is its first call, are answered alike. -/
structure AnsweredAlike (s : Managed σ L) (number first call : Nat) : Prop where
  /-- Whoever is told for the second is told by that attempt what was told for the first. -/
  told : ∀ n outcome, .told n call outcome ∈ s.log →
    n = number ∧ .told number first outcome ∈ s.log
  /-- What was told for the first is told for the second, unless somebody is still to be told. -/
  all : (∀ t ∈ s.manager.tellings, t.number ≠ number) → ∀ n outcome,
    .told n first outcome ∈ s.log → n = number ∧ .told number call outcome ∈ s.log

omit [Durable σ] in
theorem Attentive.answeredAlike (h : s.Attentive) (ha : s.Accounted) {number first call : Nat}
    (hf : s.Belongs first number) (hl : s.Leads first number) (hc : s.Belongs call number) :
    s.AnsweredAlike number first call where
  told := by
    intro n outcome ht
    obtain rfl := ha.number_eq_of_told h.sound.recorded ht hc
    exact ⟨rfl, h.told_first hl ht⟩
  all := by
    intro hrest n outcome ht
    obtain rfl := ha.number_eq_of_told h.sound.recorded ht hf
    exact ⟨rfl, h.told_all hc ht hrest⟩

/-- What callers can rely on where attempts are shared. -/
structure Joining (s : Managed σ L) : Prop where
  /-- At most one attempt is outstanding. -/
  alone : s.manager.attempts.length ≤ 1
  /-- That one is in flight. -/
  inflight : s.manager.inflight = s.manager.attempts.head?.map Attempt.number
  /-- A call that is accepted while an attempt is outstanding creates no other one and starts no
  process. It is answered as the first call of that attempt is. -/
  joins : ∀ a ∈ s.manager.attempts, ∀ host params l,
    (s.step (.obtain host params (some l))).log = s.log ++ [.accepted s.calls] →
      (s.step (.obtain host params (some l))).manager.created = s.manager.created ∧
      starts (s.step (.obtain host params (some l))).log = starts s.log ∧
      ∃ first rest, a.listeners = first :: rest ∧
        ∀ later : List (Move L), (∀ move ∈ later, move.isOrdinary = true) →
          (s.run (.obtain host params (some l) :: later)).AnsweredAlike a.number first.number
            s.calls
  /-- A call that is accepted while none is outstanding gets an attempt that was never there before,
  and nobody else tells its listener anything. -/
  renews : s.manager.attempts = [] → ∀ host params l,
    (s.step (.obtain host params (some l))).log = s.log ++ [.accepted s.calls] →
      (∀ number ∈ finishes s.log, number < s.manager.created) ∧
      (s.step (.obtain host params (some l))).manager.inflight = some s.manager.created ∧
      (s.step (.obtain host params (some l))).manager.roster =
        [(s.manager.created, [⟨s.calls, l⟩])] ∧
      ∀ (later : List (Move L)) (n : Nat) (outcome : Outcome),
        .told n s.calls outcome ∈ (s.run (.obtain host params (some l) :: later)).log →
          n = s.manager.created

/-- A call that joins the one attempt in flight is answered as the first call of that attempt is. -/
theorem Alone.joined (h : s.Alone) (hs : s.Attentive) (ha : s.Accounted)
    (hshare : s.manager.share = true) {a : Attempt (Call L)} (hmem : a ∈ s.manager.attempts)
    {host : Value} {params : List Value} {l : L}
    (hlog : (s.step (.obtain host params (some l))).log = s.log ++ [.accepted s.calls]) :
    (s.step (.obtain host params (some l))).manager.created = s.manager.created ∧
      starts (s.step (.obtain host params (some l))).log = starts s.log ∧
      ∃ first rest, a.listeners = first :: rest ∧
        ∀ later : List (Move L), (∀ move ∈ later, move.isOrdinary = true) →
          (s.run (.obtain host params (some l) :: later)).AnsweredAlike a.number first.number
            s.calls := by
  obtain ⟨m, hm, hstep⟩ := step_obtain_eq hlog
  have hi := h.inflight_eq hmem
  obtain ⟨-, ⟨number, hnumber, -, rfl⟩ | ⟨hnone | hsep, -⟩⟩ := Manager.obtain_eq_ok hm
  · obtain rfl : a.number = number := Option.some.inj (hi.symm.trans hnumber)
    obtain ⟨first, rest, hl⟩ : ∃ first rest, a.listeners = first :: rest :=
      List.exists_cons_of_ne_nil (h.manned _ (Manager.mem_roster hmem))
    refine ⟨by rw [hstep]; rfl, by rw [hlog, starts_concat s.log rfl], first, rest, hl, ?_⟩
    intro later hord
    have hjoined : { a with listeners := a.listeners ++ [⟨s.calls, l⟩] } ∈
        (s.step (.obtain host params (some l))).manager.attempts := by
      rw [hstep]
      exact List.mem_map.mpr ⟨a, hmem, if_pos rfl⟩
    have hs' : (s.run [.obtain host params (some l)]).Attentive :=
      hs.run (by simp [Move.isOrdinary])
    rw [run_cons, run_nil] at hs'
    have hord' := hs'.sound.orderly
    have haccounted := ha.run hs.sound.orderly (.obtain host params (some l) :: later)
    refine (hs'.run hord).answeredAlike haccounted (Belongs.run ?_ hord' later)
      (Leads.run ?_ hord' later) (Belongs.run ?_ hord' later)
    · exact callsOf_of_mem hjoined (by simp [hl])
    · exact callsOf_of_mem hjoined (by simp [hl])
    · exact callsOf_of_mem hjoined (by simp)
  · rw [hi] at hnone
    contradiction
  · rw [hshare] at hsep
    contradiction

/-- A call that finds nothing outstanding gets a new attempt. -/
theorem Alone.renewed (h : s.Alone) (hs : s.Sound) (ha : s.Accounted)
    (hnone : s.manager.attempts = []) {host : Value} {params : List Value} {l : L}
    (hlog : (s.step (.obtain host params (some l))).log = s.log ++ [.accepted s.calls]) :
    (s.step (.obtain host params (some l))).manager.inflight = some s.manager.created ∧
      (s.step (.obtain host params (some l))).manager.roster =
        [(s.manager.created, [⟨s.calls, l⟩])] ∧
      ∀ (later : List (Move L)) (n : Nat) (outcome : Outcome),
        .told n s.calls outcome ∈ (s.run (.obtain host params (some l) :: later)).log →
          n = s.manager.created := by
  obtain ⟨m, hm, hstep⟩ := step_obtain_eq hlog
  have hroster : s.manager.roster = [] := by rw [Manager.roster, hnone, List.map_nil]
  have hidle : s.manager.inflight = none := by
    have hnumbers := h.inflight
    rw [hroster] at hnumbers
    exact Option.toList_eq_nil_iff.mp hnumbers.symm
  obtain ⟨-, ⟨number, hnumber, -, -⟩ | ⟨-, rfl⟩⟩ := Manager.obtain_eq_ok hm
  · rw [hidle] at hnumber
    contradiction
  · have hnew : (s.step (.obtain host params (some l))).manager.roster =
        [(s.manager.created, [⟨s.calls, l⟩])] := by
      rw [hstep]
      change (s.manager.create host params ⟨s.calls, l⟩).roster = _
      rw [Manager.roster_create, hroster, List.nil_append]
    refine ⟨by rw [hstep]; rfl, hnew, fun later n outcome ht => ?_⟩
    have hb : (s.step (.obtain host params (some l))).Belongs s.calls s.manager.created :=
      .inl ⟨_, by rw [hnew]; exact List.mem_cons_self, rfl, by simp⟩
    have hs' : (s.step (.obtain host params (some l))).Sound :=
      hs.run [.obtain host params (some l)]
    have haccounted := ha.run hs.orderly (.obtain host params (some l) :: later)
    exact haccounted.number_eq_of_told (hs'.run later).recorded ht (hb.run hs'.orderly later)

/-- What callers can rely on where attempts are not shared. -/
structure Separate (s : Managed σ L) : Prop where
  /-- As long as the manager is open, the outstanding attempt that was created last is in flight,
  and none when nothing is outstanding. -/
  latest : s.manager.closed = false →
    s.manager.inflight = (s.manager.attempts.map Attempt.number).max?
  /-- Every accepted call has an attempt of its own, to which no other call belongs. -/
  own : ∀ call number, s.Belongs call number ↔ call < s.calls ∧ number = call
  /-- Whoever is told is told the outcome of that attempt. -/
  told : ∀ number call outcome, .told number call outcome ∈ s.log →
    number = call ∧ ∃ accepted, .finished call accepted outcome [call] ∈ s.log

/-- What is kept where attempts are shared is what callers rely on there. -/
theorem Alone.joining (h : s.Alone) (hs : s.Attentive) (ha : s.Accounted)
    (hshare : s.manager.share = true) : s.Joining := by
  have hnumbers : s.manager.attempts.map Attempt.number = s.manager.inflight.toList := by
    rw [← Manager.roster_fst]
    exact h.inflight
  refine ⟨?_, ?_, fun a hmem host params l hlog => h.joined hs ha hshare hmem hlog,
    fun hnone host params l hlog =>
      ⟨hs.sound.recorded.finished, h.renewed hs.sound ha hnone hlog⟩⟩
  · have hlength := congrArg List.length hnumbers
    rw [List.length_map] at hlength
    rw [hlength]
    cases s.manager.inflight <;> simp
  · rw [← List.head?_map, hnumbers]
    cases s.manager.inflight <;> rfl

omit [Durable σ] in
/-- What is kept where attempts are not shared is what callers rely on there. -/
theorem Apart.separate (h : s.Apart) (hr : s.Recorded) (ha : s.Accounted)
    (hl : s.manager.closed = false → s.InflightLast) : s.Separate where
  latest := by
    intro hopen
    rw [← Manager.roster_fst]
    exact hl hopen
  own := by
    intro call number
    constructor
    · intro hb
      exact ⟨ha.lt_iff.mpr ⟨number, hb⟩, h.eq_of_belongs hb⟩
    · rintro ⟨hlt, rfl⟩
      obtain ⟨n, hb⟩ := ha.lt_iff.mp hlt
      rwa [h.eq_of_belongs hb] at hb
  told := by
    intro number call outcome ht
    obtain ⟨accepted, calls, hf, hcall⟩ := hr.told number call outcome ht
    have hcalls := h.collected number accepted outcome calls hf
    obtain rfl : call = number := by simpa [hcalls] using hcall
    exact ⟨rfl, accepted, hcalls ▸ hf⟩

/-- After every run in which processes and listeners raise only ordinary errors, callers of shared
attempts join the one in flight, and others have attempts of their own. Where attempts are not
shared, the errors that processes raise have a text. -/
theorem run_singleFlight (share : Bool) (timeout : Option Binary64) (hasProcess : Bool)
    (session : Session σ) (moves : List (Move L)) (hord : ∀ move ∈ moves, move.isOrdinary = true)
    (hcaught : share = false → ∀ move ∈ moves, move.isCaught = true) :
    if share then ((new share timeout hasProcess session : Managed σ L).run moves).Joining
    else ((new share timeout hasProcess session : Managed σ L).run moves).Separate := by
  have ha := run_accounted (L := L) share timeout hasProcess session moves
  have hs := run_attentive share timeout hasProcess session hord
  cases share with
  | true =>
    rw [if_pos rfl]
    exact (run_alone timeout hasProcess session moves).joining hs ha (run_share _ moves)
  | false =>
    rw [if_neg Bool.false_ne_true]
    exact (run_apart timeout hasProcess session moves).separate hs.sound.recorded ha
      (run_inflightLast false timeout hasProcess session (hcaught rfl))

/-- Somebody asks during an attempt, somebody asks again while its listeners are told, and somebody
asks during the attempt after that. -/
def relay : List (Move String) :=
  [.obtain .null [] (some "a"), .take, .start 0, .obtain .null [] (some "b"),
    .report 0 (.failure (.reported "no")), .await 0 (.zero false), .finish 0, .tell 0 none,
    .obtain .null [] (some "a"), .tell 0 none, .take, .start 1, .await 1 (.zero false),
    .obtain .null [] (some "c")]

/-- Two attempts are enough for this run where they are shared, and each of the four calls has its
own otherwise. -/
theorem relay_singleFlight :
    (∀ move ∈ relay, move.isOrdinary = true) ∧ (∀ move ∈ relay, move.isCaught = true) ∧
      ((new true none true ⟨.blank .always, ⟨[], []⟩⟩ : Managed Memory String).run
        relay).Joining ∧
      ((new true none true ⟨.blank .always, ⟨[], []⟩⟩ : Managed Memory String).run
        relay).manager.created = 2 ∧
      ((new false none true ⟨.blank .always, ⟨[], []⟩⟩ : Managed Memory String).run
        relay).Separate ∧
      ((new false none true ⟨.blank .always, ⟨[], []⟩⟩ : Managed Memory String).run
        relay).manager.inflight = some 3 :=
  ⟨by decide, by decide, run_singleFlight true none true _ relay (by decide) (by simp), by decide,
    run_singleFlight false none true _ relay (by decide) fun _ => by decide, by decide⟩

end Callers

end Managed

end BearerSession
