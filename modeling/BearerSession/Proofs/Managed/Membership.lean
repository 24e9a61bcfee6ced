import Mathlib.Data.List.Pairwise
import BearerSession.Proofs.Managed.Delivery

/-!
# The attempt of a call

A call that is accepted waits in an attempt, and is collected from it when the attempt is finished.
It belongs to that attempt for ever and to no other one, so whoever is told for the call is told by
that attempt.
-/

namespace BearerSession

/-- An element of a joined list without duplicates is in one of the parts only. -/
theorem eq_of_mem_flatMap {α β : Type} {f : α → List β} {l : List α} (h : (l.flatMap f).Nodup)
    {a b : α} (ha : a ∈ l) (hb : b ∈ l) {x : β} (hxa : x ∈ f a) (hxb : x ∈ f b) : a = b := by
  by_contra hne
  have : Std.Symm (Function.onFun List.Disjoint f) := ⟨fun _ _ hd _ hx hy => hd hy hx⟩
  exact (List.nodup_flatMap.mp h).2.forall ha hb hne hxa hxb

namespace Manager

variable {L : Type}

/-- A change that leaves the roster alone; listeners of finished attempts may have been told. -/
structure SameRoster (m m' : Manager L) : Prop where
  /-- The same attempts with the same listeners. -/
  roster : m'.roster = m.roster
  /-- The same attempt in flight. -/
  inflight : m'.inflight = m.inflight
  /-- No new attempt. -/
  created : m'.created = m.created

theorem Quiet.sameRoster {m m' : Manager L} (h : m.Quiet m') : m.SameRoster m' :=
  ⟨h.roster, h.inflight, h.created⟩

/-- A manager without outstanding attempts is idle, and no other is. -/
theorem state_eq_idle_iff {m : Manager L} : m.state = .idle ↔ m.attempts = [] := by
  unfold state
  cases m.attempts <;> simp

theorem mem_roster {m : Manager L} {a : Attempt L} (ha : a ∈ m.attempts) :
    (a.number, a.listeners) ∈ m.roster :=
  List.mem_map.mpr ⟨a, ha, rfl⟩

end Manager

namespace Managed

/-- The calls that an event collects from a finished attempt. -/
def Event.collected : Event → List Nat
  | .finished _ _ _ calls => calls
  | _ => []

/-- The calls that have been collected from finished attempts. -/
def collectedCalls (log : List Event) : List Nat := log.flatMap Event.collected

@[simp] theorem collectedCalls_append (log more : List Event) :
    collectedCalls (log ++ more) = collectedCalls log ++ collectedCalls more :=
  List.flatMap_append

theorem collectedCalls_singleton (e : Event) : collectedCalls [e] = e.collected := by
  simp [collectedCalls]

variable {σ L : Type} [Durable σ] {s t : Managed σ L} {move : Move L} {e : Event}

/-- A rule accepts a call, finishes an attempt, or leaves the roster alone. -/
theorem Step.roster_cases (h : Step s move e t) :
    (∃ host params l, e = .accepted s.calls ∧ t.calls = s.calls + 1 ∧ s.manager.closed = false ∧
      ((∃ number, s.manager.inflight = some number ∧ s.manager.share = true ∧
          t.manager = s.manager.join number ⟨s.calls, l⟩) ∨
        ((s.manager.inflight = none ∨ s.manager.share = false) ∧
          t.manager = s.manager.create host params ⟨s.calls, l⟩))) ∨
    (∃ a ∈ s.manager.attempts, ∃ o, a.isReady = true ∧
      Manager.storeOutcome a.result s.session = (o, t.session) ∧
      e = .finished a.number a.result o (a.listeners.map Call.number) ∧
      t.manager = s.manager.remove a o ∧ t.calls = s.calls) ∨
    (e.collected = [] ∧ finishes [e] = [] ∧ t.calls = s.calls ∧
      s.manager.SameRoster t.manager) := by
  cases h with
  | @accept host params l m hm =>
    obtain ⟨hopen, hcases⟩ := Manager.obtain_eq_ok hm
    exact .inl ⟨host, params, l, rfl, rfl, hopen, hcases⟩
  | @finish a o session ha hr hstore =>
    exact .inr (.inl ⟨a, ha, o, hr, hstore, rfl, rfl, rfl⟩)
  | refuse | clear | setPolicy => exact .inr (.inr ⟨rfl, rfl, rfl, rfl, rfl, rfl⟩)
  | take => exact .inr (.inr ⟨rfl, rfl, rfl, (Manager.quiet_take ..).sameRoster⟩)
  | start => exact .inr (.inr ⟨rfl, rfl, rfl, (Manager.quiet_start ..).sameRoster⟩)
  | report => exact .inr (.inr ⟨rfl, rfl, rfl, (Manager.quiet_complete ..).sameRoster⟩)
  | raise => exact .inr (.inr ⟨rfl, rfl, rfl, (Manager.quiet_startRaised ..).sameRoster⟩)
  | await => exact .inr (.inr ⟨rfl, rfl, rfl, (Manager.quiet_await ..).sameRoster⟩)
  | expire => exact .inr (.inr ⟨rfl, rfl, rfl, (Manager.quiet_expire ..).sameRoster⟩)
  | close => exact .inr (.inr ⟨rfl, rfl, rfl, (Manager.quiet_close _).sameRoster⟩)
  | @tell number raised c o left hn =>
    obtain ⟨rest, hafter, -⟩ := exists_afterTelling { s.manager with tellings := left } number
      raised
    refine .inr (.inr ⟨rfl, rfl, rfl, ?_⟩)
    rw [hafter]
    exact ⟨rfl, rfl, rfl⟩

/-- What is outstanding stays so until it is finished. -/
theorem Step.stays_or_finished (h : Step s move e t) {number : Nat}
    (hin : number ∈ s.manager.roster.map Prod.fst) :
    number ∈ t.manager.roster.map Prod.fst ∨ ∃ a ∈ s.manager.attempts, a.number = number ∧
      a.isReady = true ∧ ∃ o, Manager.storeOutcome a.result s.session = (o, t.session) ∧
        e = .finished a.number a.result o (a.listeners.map Call.number) := by
  obtain ⟨host, params, l, -, -, -, ⟨joined, -, -, hm⟩ | ⟨-, hm⟩⟩ |
    ⟨a, hmem, o, hr, hstore, he, hm, -⟩ | ⟨-, -, -, hsame⟩ := h.roster_cases
  · left
    rwa [hm, Manager.roster_join_fst]
  · left
    rw [hm, Manager.roster_create, List.map_append]
    exact List.mem_append_left _ hin
  · by_cases hn : a.number = number
    · exact .inr ⟨a, hmem, hn, hr, o, hstore, he⟩
    · left
      obtain ⟨entry, hentry, rfl⟩ := List.mem_map.mp hin
      rw [hm, Manager.roster_remove]
      exact List.mem_map_of_mem (List.mem_filter.mpr ⟨hentry, by simpa using Ne.symm hn⟩)
  · left
    rwa [hsame.roster]

/-- Listeners that are still to be told were so before, or their attempt has just been finished. -/
theorem Step.telling_cases (h : Step s move e t) {u : Telling (Call L)}
    (hu : u ∈ t.manager.tellings) :
    (∃ u' ∈ s.manager.tellings, u'.number = u.number ∧ u'.outcome = u.outcome) ∨
      ∃ a ∈ s.manager.attempts, a.isReady = true ∧ move = .finish a.number ∧
        u.number = a.number ∧ Manager.storeOutcome a.result s.session = (u.outcome, t.session) ∧
        t.manager.last = u.outcome.finalState := by
  have hkept : t.manager.tellings = s.manager.tellings →
      ∃ u' ∈ s.manager.tellings, u'.number = u.number ∧ u'.outcome = u.outcome :=
    fun he => ⟨u, he ▸ hu, rfl, rfl⟩
  cases h with
  | accept hm =>
    obtain ⟨-, ⟨number, -, -, rfl⟩ | ⟨-, rfl⟩⟩ := Manager.obtain_eq_ok hm
    · exact .inl (hkept rfl)
    · exact .inl (hkept rfl)
  | refuse | clear | setPolicy | take | start | report | await => exact .inl (hkept rfl)
  | raise => exact .inl (hkept (Manager.quiet_startRaised ..).tellings)
  | expire => exact .inl (hkept (Manager.quiet_expire ..).tellings)
  | close => exact .inl (hkept (Manager.quiet_close _).tellings)
  | @finish a o session ha hr hstore =>
    obtain ⟨hu, -⟩ := Manager.mem_untold.mp hu
    rcases List.mem_append.mp hu with hu | hu
    · exact .inl ⟨u, hu, rfl, rfl⟩
    · rw [List.mem_singleton] at hu
      subst hu
      exact .inr ⟨a, ha, hr, rfl, rfl, hstore, rfl⟩
  | @tell number raised c o left hn =>
    obtain ⟨rest, hafter, hrest⟩ := exists_afterTelling { s.manager with tellings := left } number
      raised
    rw [hafter] at hu
    obtain ⟨before, v, others, after, htell, -, -, -, -, rfl⟩ := Telling.next?_eq_some hn
    rw [htell]
    rcases List.mem_append.mp (hrest u hu) with hin | hin
    · exact .inl ⟨u, List.mem_append_left _ hin, rfl, rfl⟩
    · obtain ⟨hin, -⟩ := Manager.mem_untold.mp hin
      rcases List.mem_cons.mp hin with rfl | hin
      · exact .inl ⟨v, by simp, rfl, rfl⟩
      · exact .inl ⟨u, by simp [hin], rfl, rfl⟩

/-- Only closing the manager closes it, and nothing opens it again. -/
theorem Step.closed_cases (h : Step s move e t) :
    t.manager.closed = s.manager.closed ∨
      (e = .closed s.manager.pending ∧ t.manager.closed = true) := by
  cases h with
  | accept hm =>
    obtain ⟨-, ⟨number, -, -, rfl⟩ | ⟨-, rfl⟩⟩ := Manager.obtain_eq_ok hm
    · exact .inl rfl
    · exact .inl rfl
  | raise | expire =>
    left
    simp only [Manager.startRaised, Manager.expire]
    split <;> rfl
  | @tell number raised c o left =>
    obtain ⟨rest, hafter, -⟩ := exists_afterTelling { s.manager with tellings := left } number
      raised
    rw [hafter]
    exact .inl rfl
  | close =>
    refine .inr ⟨rfl, ?_⟩
    cases hc : s.manager.closed <;> simp [Manager.close, hc]
  | _ => exact .inl rfl

section Accounts

/-- Every accepted call waits in an outstanding attempt or has been collected from a finished one,
and only one of these. -/
def Accounted (s : Managed σ L) : Prop :=
  (s.manager.waitingCalls ++ collectedCalls s.log).Perm (List.range s.calls)

omit [Durable σ] in
theorem accounted_new (share : Bool) (timeout : Option Binary64) (hasProcess : Bool)
    (session : Session σ) : (new share timeout hasProcess session : Managed σ L).Accounted := by
  simp [Accounted, new, Manager.new, Manager.waitingCalls, Manager.roster, collectedCalls]

omit [Durable σ] in
/-- A new call waits. -/
theorem Accounted.accept (h : s.Accounted) (hlog : t.log = s.log) (hcalls : t.calls = s.calls + 1)
    (hw : t.manager.waitingCalls.Perm (s.manager.waitingCalls ++ [s.calls])) :
    (t.record (.accepted s.calls)).Accounted := by
  have hcollected : collectedCalls (t.log ++ [.accepted s.calls]) = collectedCalls s.log := by
    rw [hlog, collectedCalls_append]
    exact List.append_nil _
  change (t.manager.waitingCalls ++ collectedCalls (t.log ++ [.accepted s.calls])).Perm
    (List.range t.calls)
  rw [hcollected, hcalls, List.range_succ]
  refine (hw.append_right _).trans (.trans ?_ (h.append_right [s.calls]))
  rw [List.append_assoc, List.append_assoc]
  exact .append_left _ List.perm_append_comm

/-- Every rule keeps the calls accounted for, whatever is raised. -/
theorem Step.accounted (h : Step s move e t) (ho : s.manager.Orderly) (ha : s.Accounted) :
    (t.record e).Accounted := by
  have hlog := h.log_eq
  obtain ⟨host, params, l, rfl, hcalls, -, ⟨number, hi, -, hm⟩ | ⟨-, hm⟩⟩ |
    ⟨a, hmem, o, -, -, rfl, hm, hcalls⟩ | ⟨hnone, -, hcalls, hsame⟩ := h.roster_cases
  · exact ha.accept hlog hcalls (hm ▸ ho.waitingCalls_join hi _)
  · refine ha.accept hlog hcalls ?_
    rw [hm, Manager.waitingCalls_create]
  · have hw := ho.waitingCalls_remove hmem o
    change (t.manager.waitingCalls ++ collectedCalls (t.log ++ [_])).Perm (List.range t.calls)
    rw [hm, hlog, hcalls, collectedCalls_append, collectedCalls_singleton, Event.collected]
    refine List.Perm.trans ?_ ((hw.symm.append_right _).trans ha)
    rw [← List.append_assoc, List.append_assoc (a.listeners.map Call.number)]
    exact List.perm_append_comm
  · have hw : t.manager.waitingCalls = s.manager.waitingCalls := by
      rw [Manager.waitingCalls, Manager.waitingCalls, hsame.roster]
    change (t.manager.waitingCalls ++ collectedCalls (t.log ++ [e])).Perm (List.range t.calls)
    rw [hw, hlog, hcalls, collectedCalls_append, collectedCalls_singleton, hnone, List.append_nil]
    exact ha

/-- They stay so, whatever happens. -/
theorem Accounted.run (h : s.Accounted) (ho : s.manager.Orderly) (moves : List (Move L)) :
    (s.run moves).Accounted := by
  refine (run_induction (P := fun s => s.manager.Orderly ∧ s.Accounted) ⟨ho, h⟩
    fun s e t _ _ h hstep => ?_).2
  exact ⟨hstep.orderly h.1, hstep.accounted h.1 h.2⟩

/-- The calls are accounted for after every run. -/
theorem run_accounted (share : Bool) (timeout : Option Binary64) (hasProcess : Bool)
    (session : Session σ) (moves : List (Move L)) :
    ((new share timeout hasProcess session : Managed σ L).run moves).Accounted :=
  (accounted_new share timeout hasProcess session).run
    (Manager.orderly_new share timeout hasProcess) moves

end Accounts

section Ends

theorem finishes_eq_flatMap (log : List Event) :
    finishes log = log.flatMap fun e => finishes [e] := by
  induction log with
  | nil => rfl
  | cons e rest ih =>
    rw [List.flatMap_cons, ← ih, ← List.singleton_append, finishes_append]

omit [Durable σ] in
/-- What is on record of the end of an attempt is there once. -/
theorem Recorded.finished_inj (hr : s.Recorded) {number : Nat} {a a' o o' : Outcome}
    {calls calls' : List Nat} (h : .finished number a o calls ∈ s.log)
    (h' : .finished number a' o' calls' ∈ s.log) : a = a' ∧ o = o' ∧ calls = calls' := by
  have hnodup := hr.once
  rw [finishes_eq_flatMap] at hnodup
  have hsame := eq_of_mem_flatMap hnodup h h' (x := number) List.mem_cons_self List.mem_cons_self
  exact ⟨(Event.finished.inj hsame).2.1, (Event.finished.inj hsame).2.2⟩

omit [Durable σ] in
/-- All who are told by one attempt are told the same. -/
theorem Recorded.told_inj (hr : s.Recorded) {number call call' : Nat} {o o' : Outcome}
    (h : .told number call o ∈ s.log) (h' : .told number call' o' ∈ s.log) : o = o' := by
  obtain ⟨a, calls, hf, -⟩ := hr.told number call o h
  obtain ⟨a', calls', hf', -⟩ := hr.told number call' o' h'
  exact (hr.finished_inj hf hf').2.1

end Ends

section Belonging

/-- What holds of the calls of an attempt, whether they wait in it or were collected from it. -/
def CallsOf (s : Managed σ L) (number : Nat) (P : List Nat → Prop) : Prop :=
  (∃ entry ∈ s.manager.roster, entry.1 = number ∧ P (entry.2.map Call.number)) ∨
    ∃ accepted outcome calls, .finished number accepted outcome calls ∈ s.log ∧ P calls

/-- A call belongs to the attempt in which it waits or from which it was collected. -/
def Belongs (s : Managed σ L) (call number : Nat) : Prop :=
  s.CallsOf number fun calls => call ∈ calls

/-- The first call of an attempt leads it. -/
def Leads (s : Managed σ L) (call number : Nat) : Prop :=
  s.CallsOf number fun calls => calls.head? = some call

omit [Durable σ] in
theorem callsOf_of_mem {a : Attempt (Call L)} (ha : a ∈ s.manager.attempts) {P : List Nat → Prop}
    (hP : P (a.listeners.map Call.number)) : s.CallsOf a.number P :=
  .inl ⟨_, Manager.mem_roster ha, rfl, hP⟩

omit [Durable σ] in
/-- The calls of a finished attempt are those that were collected from it. -/
theorem CallsOf.of_finished {number : Nat} {P : List Nat → Prop} (h : s.CallsOf number P)
    (hr : s.Recorded) {accepted outcome : Outcome} {calls : List Nat}
    (hf : .finished number accepted outcome calls ∈ s.log) : P calls := by
  obtain ⟨entry, hentry, rfl, -⟩ | ⟨accepted', outcome', calls', hf', hP⟩ := h
  · have hgone := hr.gone entry.1 (mem_finishes.mpr ⟨accepted, outcome, calls, hf⟩)
    exact absurd (List.mem_map_of_mem hentry) hgone
  · rwa [(hr.finished_inj hf hf').2.2]

/-- Calls are only added to an attempt, behind those that it has. -/
theorem Step.callsOf (h : Step s move e t) (ho : s.manager.Orderly) {number : Nat}
    {P : List Nat → Prop} (hP : ∀ calls call, P calls → P (calls ++ [call]))
    (hb : s.CallsOf number P) : (t.record e).CallsOf number P := by
  have hlog : (t.record e).log = s.log ++ [e] := by rw [log_record, h.log_eq]
  obtain ⟨⟨n, listeners⟩, hentry, rfl, hcalls⟩ | ⟨accepted, outcome, calls, hf, hcalls⟩ := hb
  · obtain ⟨host, params, l, -, -, -, ⟨joined, -, -, hm⟩ | ⟨-, hm⟩⟩ |
      ⟨a, hmem, o, -, -, rfl, hm, -⟩ | ⟨-, -, -, hsame⟩ := h.roster_cases
    · have hjoin := List.mem_map_of_mem
        (f := fun e => if e.1 = joined then (e.1, e.2 ++ [⟨s.calls, l⟩]) else e) hentry
      rw [← Manager.roster_join, ← hm] at hjoin
      refine .inl ⟨_, hjoin, ?_⟩
      by_cases hn : n = joined
      · rw [if_pos hn]
        refine ⟨rfl, ?_⟩
        rw [List.map_append]
        exact hP _ _ hcalls
      · rw [if_neg hn]
        exact ⟨rfl, hcalls⟩
    · refine .inl ⟨(n, listeners), ?_, rfl, hcalls⟩
      change _ ∈ t.manager.roster
      rw [hm, Manager.roster_create]
      exact List.mem_append_left _ hentry
    · by_cases hn : n = a.number
      · obtain ⟨b, hb, he⟩ := List.mem_map.mp hentry
        obtain ⟨rfl, rfl⟩ := Prod.mk.inj he
        obtain rfl := ho.eq_of_number_eq hb hmem hn
        exact .inr ⟨_, o, _, by rw [hlog]; exact List.mem_append_right _ List.mem_cons_self, hcalls⟩
      · refine .inl ⟨(n, listeners), ?_, rfl, hcalls⟩
        change _ ∈ t.manager.roster
        rw [hm, Manager.roster_remove]
        exact List.mem_filter.mpr ⟨hentry, by simpa using hn⟩
    · refine .inl ⟨(n, listeners), ?_, rfl, hcalls⟩
      change _ ∈ t.manager.roster
      rw [hsame.roster]
      exact hentry
  · refine .inr ⟨accepted, outcome, calls, ?_, hcalls⟩
    rw [hlog]
    exact List.mem_append_left _ hf

/-- So it is in the course of a run. -/
theorem CallsOf.run {number : Nat} {P : List Nat → Prop} (hb : s.CallsOf number P)
    (ho : s.manager.Orderly) (hP : ∀ calls call, P calls → P (calls ++ [call]))
    (moves : List (Move L)) : (s.run moves).CallsOf number P := by
  refine (run_induction (P := fun t => t.manager.Orderly ∧ t.CallsOf number P) ⟨ho, hb⟩
    fun s e t _ _ h hstep => ?_).2
  exact ⟨hstep.orderly h.1, hstep.callsOf h.1 hP h.2⟩

/-- What a call belongs to it belongs to for ever. -/
theorem Belongs.run {call number : Nat} (hb : s.Belongs call number) (ho : s.manager.Orderly)
    (moves : List (Move L)) : (s.run moves).Belongs call number :=
  CallsOf.run hb ho (fun _ _ h => List.mem_append_left _ h) moves

/-- The first call of an attempt stays the first. -/
theorem Leads.run {call number : Nat} (hl : s.Leads call number) (ho : s.manager.Orderly)
    (moves : List (Move L)) : (s.run moves).Leads call number := by
  refine CallsOf.run hl ho (fun calls c h => ?_) moves
  rw [List.head?_append, h, Option.some_or]

omit [Durable σ] in
/-- What has been accepted belongs to an attempt, and nothing else does. -/
theorem Accounted.lt_iff (h : s.Accounted) {call : Nat} :
    call < s.calls ↔ ∃ number, s.Belongs call number := by
  rw [← List.mem_range, ← h.mem_iff, List.mem_append]
  constructor
  · rintro (hw | hc)
    · rw [Manager.waitingCalls, List.map_flatMap] at hw
      obtain ⟨entry, hentry, hcall⟩ := List.mem_flatMap.mp hw
      exact ⟨entry.1, .inl ⟨entry, hentry, rfl, hcall⟩⟩
    · obtain ⟨e, he, hcall⟩ := List.mem_flatMap.mp hc
      cases e with
      | finished number accepted outcome calls =>
        exact ⟨number, .inr ⟨accepted, outcome, calls, he, hcall⟩⟩
      | _ => contradiction
  · rintro ⟨number, ⟨entry, hentry, -, hcall⟩ | ⟨accepted, outcome, calls, hf, hcall⟩⟩
    · left
      rw [Manager.waitingCalls, List.map_flatMap]
      exact List.mem_flatMap.mpr ⟨entry, hentry, hcall⟩
    · exact Or.inr (List.mem_flatMap.mpr ⟨_, hf, hcall⟩)

omit [Durable σ] in
/-- A call belongs to one attempt only. -/
theorem Accounted.eq_of_belongs (h : s.Accounted) {call m n : Nat} (hm : s.Belongs call m)
    (hn : s.Belongs call n) : m = n := by
  have hnodup : (s.manager.waitingCalls ++ collectedCalls s.log).Nodup :=
    h.nodup_iff.mpr List.nodup_range
  obtain ⟨hwaiting, hcollected, hapart⟩ := List.nodup_append'.mp hnodup
  have hroster : (s.manager.roster.flatMap fun e => e.2.map Call.number).Nodup := by
    rwa [Manager.waitingCalls, List.map_flatMap] at hwaiting
  have hwaits : ∀ {entry : Nat × List (Call L)}, entry ∈ s.manager.roster →
      call ∈ entry.2.map Call.number → call ∈ s.manager.waitingCalls := by
    intro entry hentry hcall
    rw [Manager.waitingCalls, List.map_flatMap]
    exact List.mem_flatMap.mpr ⟨entry, hentry, hcall⟩
  have hgone : ∀ {n accepted outcome calls}, Event.finished n accepted outcome calls ∈ s.log →
      call ∈ calls → call ∈ collectedCalls s.log := fun hf hcall =>
    List.mem_flatMap.mpr ⟨_, hf, hcall⟩
  obtain ⟨x, hx, rfl, hcx⟩ | ⟨a, o, calls, hfm, hcm⟩ := hm
  · obtain ⟨y, hy, rfl, hcy⟩ | ⟨a, o, calls, hfn, hcn⟩ := hn
    · rw [eq_of_mem_flatMap hroster hx hy hcx hcy]
    · exact absurd (hgone hfn hcn) (hapart (hwaits hx hcx))
  · obtain ⟨y, hy, rfl, hcy⟩ | ⟨a', o', calls', hfn, hcn⟩ := hn
    · exact absurd (hgone hfm hcm) (hapart (hwaits hy hcy))
    · have hsame := eq_of_mem_flatMap (f := Event.collected) hcollected hfm hfn hcm hcn
      cases hsame
      rfl

omit [Durable σ] in
/-- Whoever is told is told by the attempt to which the call belongs. -/
theorem Accounted.number_eq_of_told (h : s.Accounted) (hr : s.Recorded) {call m n : Nat}
    {outcome : Outcome} (ht : .told m call outcome ∈ s.log) (hn : s.Belongs call n) : m = n := by
  obtain ⟨accepted, calls, hf, hcall⟩ := hr.told m call outcome ht
  exact h.eq_of_belongs (.inr ⟨accepted, outcome, calls, hf, hcall call List.mem_cons_self⟩) hn

end Belonging

end Managed

end BearerSession
