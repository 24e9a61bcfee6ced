import BearerSession.Durable.Memory
import BearerSession.Proofs.Credential.Effect
import BearerSession.Proofs.Managed.Staff

/-!
# Attempts are serial

An attempt is started only after the one before it was finished and its listeners were told. So the
session is what a plain sequence of writes, clearings and settings of the policy makes of it: the
grants of the successful attempts are written in the order in which their processes were started.
-/

namespace BearerSession

namespace Managed

/-- What an event asks of the session: a finished attempt whose accepted outcome was a success has
its grant written. -/
def Event.effect? : Event → Option Effect
  | .finished _ (.success g) _ _ => some (.write g)
  | .cleared => some .clear
  | .policySet p => some (.setPolicy p)
  | _ => none

/-- What was asked of the session, in order. -/
def effects (log : List Event) : List Effect := log.filterMap Event.effect?

/-- The grant of an attempt, if an event finishes it with a success. -/
def Event.grantFor? (number : Nat) : Event → Option Grant
  | .finished n (.success g) _ _ => if n = number then some g else none
  | _ => none

/-- The grant of a finished attempt whose accepted outcome was a success. -/
def grantOf? (log : List Event) (number : Nat) : Option Grant :=
  log.findSome? (Event.grantFor? number)

/-- The calls of an attempt whose listeners were told, in order. -/
def toldOf (number : Nat) (log : List Event) : List Nat :=
  log.filterMap fun
    | .told n call _ => if n = number then some call else none
    | _ => none

/-- The calls of a finished attempt whose listeners are still to be told. -/
def untoldOf {L : Type} (number : Nat) (tellings : List (Telling (Call L))) : List Nat :=
  ((tellings.filter fun t => t.number = number).flatMap Telling.rest).map Call.number

@[simp] theorem effects_append (log more : List Event) :
    effects (log ++ more) = effects log ++ effects more :=
  List.filterMap_append

@[simp] theorem toldOf_append (number : Nat) (log more : List Event) :
    toldOf number (log ++ more) = toldOf number log ++ toldOf number more :=
  List.filterMap_append

variable {σ L : Type}

/-- The listeners of an attempt that is finished have been told, except for those that still are to
be told, and this in the order of their arrival. -/
def HeardFrom (s : Managed σ L) (number : Nat) : Prop :=
  ∀ accepted outcome calls, .finished number accepted outcome calls ∈ s.log →
    toldOf number s.log ++ untoldOf number s.manager.tellings = calls

/-- So it is with every attempt. -/
def Heard (s : Managed σ L) : Prop := ∀ number, s.HeardFrom number

/-- Nobody is still to be told by an attempt created before the one that the worker has taken. -/
def ToldBefore (s : Managed σ L) : Prop :=
  ∀ number, (number, .taken) ∈ s.manager.standing → ∀ t ∈ s.manager.tellings, number < t.number

/-- The grants of the attempts stand in the order in which their processes were started. -/
def InStartOrder (log : List Event) : Prop :=
  (effects log).filterMap Effect.grant? = (starts log).filterMap (grantOf? log)

section Hearing

@[simp] theorem untoldOf_append (number : Nat) (tellings more : List (Telling (Call L))) :
    untoldOf number (tellings ++ more) = untoldOf number tellings ++ untoldOf number more := by
  simp [untoldOf]

theorem untoldOf_cons (number : Nat) (t : Telling (Call L)) (more : List (Telling (Call L))) :
    untoldOf number (t :: more) =
      (if t.number = number then t.rest.map Call.number else []) ++ untoldOf number more := by
  by_cases h : t.number = number <;> simp [untoldOf, h]

/-- Telling nobody is no telling. -/
theorem untoldOf_untold (number : Nat) (tellings : List (Telling (Call L))) :
    untoldOf number (Manager.untold tellings) = untoldOf number tellings := by
  induction tellings with
  | nil => rfl
  | cons t more ih =>
    rw [untoldOf_cons, ← ih]
    unfold Manager.untold
    cases hr : t.rest with
    | nil => simp [hr]
    | cons c rest => simp [hr, untoldOf_cons]

/-- Nobody is to be told by an attempt that tells nobody. -/
theorem untoldOf_eq_nil {number : Nat} {tellings : List (Telling (Call L))}
    (h : ∀ t ∈ tellings, t.number ≠ number) : untoldOf number tellings = [] := by
  have hfilter : (tellings.filter fun t => t.number = number) = [] := by
    refine List.filter_eq_nil_iff.mpr fun t ht => ?_
    simpa using h t ht
  rw [untoldOf, hfilter, List.flatMap_nil, List.map_nil]

/-- An outstanding attempt has told nobody. -/
theorem Recorded.toldOf_eq_nil {s : Managed σ L} (h : s.Recorded) {a : Attempt (Call L)}
    (ha : a ∈ s.manager.attempts) : toldOf a.number s.log = [] := by
  refine List.filterMap_eq_nil_iff.mpr fun e he => ?_
  cases e with
  | told n call outcome =>
    obtain ⟨accepted, collected, hf, -⟩ := h.told n call outcome he
    exact if_neg (h.number_ne hf ha).symm
  | _ => rfl

/-- Nor does it still have to tell anybody. -/
theorem Recorded.untoldOf_eq_nil {s : Managed σ L} (h : s.Recorded) {a : Attempt (Call L)}
    (ha : a ∈ s.manager.attempts) : untoldOf a.number s.manager.tellings = [] := by
  refine Managed.untoldOf_eq_nil fun t ht => ?_
  obtain ⟨accepted, collected, hf, -⟩ := h.telling t ht
  exact (h.number_ne hf ha).symm

theorem heard_new (share : Bool) (timeout : Option Binary64) (hasProcess : Bool)
    (session : Session σ) : (new share timeout hasProcess session : Managed σ L).Heard := by
  simp [Heard, HeardFrom, new]

theorem HeardFrom.keep {s t : Managed σ L} {e : Event} {number : Nat} (h : s.HeardFrom number)
    (hlog : t.log = s.log) (htellings : t.manager.tellings = s.manager.tellings)
    (hf : finishes [e] = []) (ht : toldOf number [e] = []) : (t.record e).HeardFrom number := by
  intro accepted outcome calls hm
  rw [log_record, hlog] at hm ⊢
  rcases List.mem_append.mp hm with hm | hm
  · change _ ++ untoldOf number t.manager.tellings = _
    rw [toldOf_append, ht, List.append_nil, htellings]
    exact h accepted outcome calls hm
  · have hin : number ∈ finishes [e] := mem_finishes.mpr ⟨accepted, outcome, calls, hm⟩
    simp [hf] at hin

/-- Those collected from a finished attempt are all still to be told. -/
theorem HeardFrom.finish {s : Managed σ L} {number : Nat} (h : s.HeardFrom number)
    (hr : s.Recorded) {a : Attempt (Call L)} (ha : a ∈ s.manager.attempts) (accepted o : Outcome)
    (session : Session σ) :
    ({ s with manager := s.manager.remove a o, session }.record
      (.finished a.number accepted o (a.listeners.map Call.number))).HeardFrom number := by
  intro accepted' outcome calls hm
  have htold : toldOf number [.finished a.number accepted o (a.listeners.map Call.number)] = [] :=
    rfl
  change _ ++ untoldOf number (Manager.untold (s.manager.tellings ++ [_])) = _
  rw [log_record, toldOf_append, htold, List.append_nil, untoldOf_untold, untoldOf_append,
    untoldOf_cons]
  rcases List.mem_append.mp hm with hm | hm
  · rw [if_neg (hr.number_ne hm ha)]
    simpa [untoldOf] using h accepted' outcome calls hm
  · cases List.mem_singleton.mp hm
    rw [if_pos rfl, hr.toldOf_eq_nil ha, hr.untoldOf_eq_nil ha]
    simp [untoldOf]

/-- Whoever is told next by an attempt is the first of those whom it still has to tell. -/
theorem untoldOf_next? {n : Nat} {tellings left : List (Telling (Call L))} {c : Call L}
    {o : Outcome} (h : Telling.next? n tellings = some (c, o, left)) (number : Nat) :
    untoldOf number tellings =
      (if n = number then [c.number] else []) ++ untoldOf number left := by
  obtain ⟨before, t, rest, after, rfl, hnumber, -, hrest, hbefore, rfl⟩ :=
    Telling.next?_eq_some h
  rw [untoldOf_append, untoldOf_append, untoldOf_untold, untoldOf_cons, untoldOf_cons, hnumber,
    hrest]
  by_cases hsame : n = number
  · subst hsame
    simp [untoldOf_eq_nil hbefore]
  · simp [hsame]

/-- The one who is told was the next of those to be told. -/
theorem HeardFrom.tell {s : Managed σ L} {number : Nat} (h : s.HeardFrom number) {n : Nat}
    {c : Call L} {o : Outcome} {left : List (Telling (Call L))} {m : Manager (Call L)}
    (hn : Telling.next? n s.manager.tellings = some (c, o, left))
    (hm : untoldOf number m.tellings = untoldOf number left) :
    ({ s with manager := m }.record (.told n c.number o)).HeardFrom number := by
  intro accepted outcome calls hf
  have hf' : Event.finished number accepted outcome calls ∈ s.log := by
    simpa [log_record] using hf
  have htold : toldOf number [.told n c.number o] = if n = number then [c.number] else [] := by
    by_cases hsame : n = number <;> simp [toldOf, hsame]
  change _ ++ untoldOf number m.tellings = _
  rw [← h accepted outcome calls hf', log_record, toldOf_append, htold, hm, untoldOf_next? hn,
    List.append_assoc]

/-- A listener that raises keeps nobody from being told by another attempt, and nobody at all when
the error is an ordinary one. -/
theorem untoldOf_afterTelling (m : Manager (Call L)) {number n : Nat} {raised : Option Raised}
    (h : n = number → ∀ e ∈ raised, e.isOrdinary = true) :
    untoldOf number (afterTelling m n raised).tellings = untoldOf number m.tellings := by
  by_cases hn : n = number
  · rw [afterTelling_eq m n (h hn)]
  · cases raised with
    | none => rfl
    | some e =>
      rw [afterTelling, Manager.listenerRaised]
      split
      · rfl
      · have hothers : ((m.tellings.filter fun t => t.number ≠ n).filter
            fun t => t.number = number) = m.tellings.filter fun t => t.number = number := by
          rw [List.filter_filter]
          refine List.filter_congr fun t _ => ?_
          by_cases ht : t.number = number
          · simp [ht, Ne.symm hn]
          · simp [ht]
        simp only [untoldOf, hothers]

variable [Durable σ]

/-- Every rule keeps an attempt heard from whose listeners raise only ordinary errors. -/
theorem Step.heardFrom {s t : Managed σ L} {move : Move L} {e : Event} (h : Step s move e t)
    {number : Nat} (hord : ∀ e, move = .tell number (some e) → e.isOrdinary = true) (hs : s.Sound)
    (hh : s.HeardFrom number) : (t.record e).HeardFrom number := by
  cases h with
  | accept hm =>
    obtain ⟨-, ⟨number, -, -, rfl⟩ | ⟨-, rfl⟩⟩ := Manager.obtain_eq_ok hm
    · exact hh.keep rfl rfl rfl rfl
    · exact hh.keep rfl rfl rfl rfl
  | refuse | clear | setPolicy | take | start | report | await => exact hh.keep rfl rfl rfl rfl
  | raise => exact hh.keep rfl (Manager.quiet_startRaised ..).tellings rfl rfl
  | expire => exact hh.keep rfl (Manager.quiet_expire ..).tellings rfl rfl
  | finish ha => exact hh.finish hs.recorded ha _ _ _
  | @tell n raised c o left hn =>
    refine hh.tell hn (untoldOf_afterTelling _ ?_)
    rintro rfl e rfl
    exact hord e rfl
  | close => exact hh.keep rfl (Manager.quiet_close _).tellings rfl rfl

theorem Step.heard {s t : Managed σ L} {move : Move L} {e : Event} (h : Step s move e t)
    (hord : move.isOrdinary = true) (hs : s.Sound) (hh : s.Heard) : (t.record e).Heard := by
  intro number
  refine h.heardFrom ?_ hs (hh number)
  rintro e rfl
  exact hord

/-- Every rule keeps it so that the worker takes an attempt only when everybody has been told. -/
theorem Step.toldBefore {s t : Managed σ L} {move : Move L} {e : Event} (h : Step s move e t)
    (hs : s.Sound) (ht : s.InTurn) (hb : s.ToldBefore) : (t.record e).ToldBefore := by
  intro number hn u hu
  have hstood : (number, .taken) ∈ s.manager.standing ∨ e = .taken number := by
    obtain ⟨-, hp, -⟩ | ⟨q, hq, hpass⟩ := h.passes hs.orderly hn
    · contradiction
    · exact hpass.taken_cases.imp_left fun (hp : q = .taken) => hp ▸ hq
  rcases hstood with hstood | rfl
  · obtain ⟨u', hu', hnumber, -⟩ | ⟨a, ha, hr, -, hnumber, -⟩ := h.telling_cases hu
    · exact hnumber ▸ hb number hstood u' hu'
    · -- what can be finished meanwhile has been cancelled, and was created later
      obtain ⟨next, hturns⟩ := ht.turns
      have hnext := hturns.current number .taken hstood nofun nofun nofun
      have hstands := Manager.mem_standing ha
      rw [hnumber]
      by_cases hc : a.phase = .cancelled
      · have hle := (hturns.cancelled a.number (hc ▸ hstands)).1
        omega
      · have hq : a.phase ≠ .queued := by
          intro hq
          simp [Attempt.isReady, hq] at hr
        have hl : a.phase ≠ .lost := by
          intro hl
          simp [Attempt.isReady, hl] at hr
        have hsame := hturns.current a.number a.phase hstands hq hc hl
        obtain rfl : a.number = number := by omega
        rw [Attempt.isReady, ← hs.orderly.phase_eq ha hstood] at hr
        contradiction
  · cases h with
    | take ha =>
      have hnobody : u ∈ s.manager.tellings := hu
      rw [(Manager.next?_eq_some ha).1] at hnobody
      contradiction

end Hearing

section Order

theorem grantOf?_concat (log : List Event) (e : Event) (number : Nat) :
    grantOf? (log ++ [e]) number = (grantOf? log number).or (e.grantFor? number) := by
  rw [grantOf?, List.findSome?_append]
  cases h : e.grantFor? number <;> simp [grantOf?, h]

/-- What is not finished has no grant. -/
theorem grantOf?_eq_none {log : List Event} {number : Nat} (h : number ∉ finishes log) :
    grantOf? log number = none := by
  refine List.findSome?_eq_none_iff.mpr fun e he => ?_
  cases e with
  | finished n accepted outcome calls =>
    cases accepted with
    | success g =>
      refine if_neg fun hn => h ?_
      exact mem_finishes.mpr ⟨.success g, outcome, calls, hn ▸ he⟩
    | failure => rfl
  | _ => rfl

/-- What neither starts an attempt nor finishes one with a success keeps the order. -/
theorem InStartOrder.keep {log : List Event} (h : InStartOrder log) {e : Event}
    (hs : starts [e] = []) (hg : ∀ number, e.grantFor? number = none)
    (he : (effects [e]).filterMap Effect.grant? = []) : InStartOrder (log ++ [e]) := by
  have hsame : grantOf? (log ++ [e]) = grantOf? log := by
    funext number
    rw [grantOf?_concat, hg, Option.or_none]
  unfold InStartOrder
  rw [effects_append, List.filterMap_append, he, starts_append, hs, hsame, List.append_nil,
    List.append_nil]
  exact h

/-- An attempt that is started has no grant yet. -/
theorem InStartOrder.start {log : List Event} (h : InStartOrder log) {number : Nat}
    (hn : number ∉ finishes log) : InStartOrder (log ++ [.started number]) := by
  have hsame : grantOf? (log ++ [.started number]) = grantOf? log := by
    funext n
    rw [grantOf?_concat]
    exact Option.or_none
  have hstarts : starts [.started number] = [number] := rfl
  have heffects : effects [.started number] = [] := rfl
  unfold InStartOrder
  rw [effects_append, heffects, List.append_nil, starts_append, hstarts, hsame,
    List.filterMap_append, List.filterMap_cons_none (grantOf?_eq_none hn), List.filterMap_nil,
    List.append_nil]
  exact h

/-- A success is that of the attempt started last, and its grant is the last one. -/
theorem InStartOrder.success {log : List Event} (h : InStartOrder log) {earlier : List Nat}
    {number : Nat} (hs : starts log = earlier ++ [number]) (hnew : number ∉ earlier)
    (hn : number ∉ finishes log) (g : Grant) (outcome : Outcome) (calls : List Nat) :
    InStartOrder (log ++ [.finished number (.success g) outcome calls]) := by
  have hearlier : earlier.filterMap
      (grantOf? (log ++ [.finished number (.success g) outcome calls])) =
        earlier.filterMap (grantOf? log) := by
    refine List.filterMap_congr fun n hmem => ?_
    have hne : number ≠ n := fun he => hnew (he ▸ hmem)
    rw [grantOf?_concat, Event.grantFor?, if_neg hne, Option.or_none]
  have hlast : grantOf? (log ++ [.finished number (.success g) outcome calls]) number = some g := by
    rw [grantOf?_concat, grantOf?_eq_none hn, Option.none_or, Event.grantFor?, if_pos rfl]
  have heffects : (effects [.finished number (.success g) outcome calls]).filterMap
      Effect.grant? = [g] := rfl
  have hstarts : starts [.finished number (.success g) outcome calls] = [] := rfl
  unfold InStartOrder at h ⊢
  rw [hs, List.filterMap_append, List.filterMap_cons_none (grantOf?_eq_none hn),
    List.filterMap_nil, List.append_nil] at h
  rw [effects_append, List.filterMap_append, heffects, starts_append, hstarts, List.append_nil, hs,
    List.filterMap_append, hearlier, List.filterMap_cons_some hlast, List.filterMap_nil, h]

variable [Durable σ]

/-- Every rule keeps the grants in the order of the starts, as long as the attempts take turns. -/
theorem Step.inStartOrder {s t : Managed σ L} {move : Move L} {e : Event} (h : Step s move e t)
    (hs : s.Sound) (ht : s.InTurn) (hi : InStartOrder s.log) : InStartOrder (t.record e).log := by
  rw [log_record, h.log_eq]
  cases h with
  | start ha => exact hi.start (hs.recorded.not_mem_finishes ha)
  | @finish a o t ha hr =>
    cases hres : a.result with
    | failure reason => exact hi.keep rfl (fun _ => rfl) rfl
    | success g =>
      have hout : a.outcome = some (.success g) := by
        cases ho : a.outcome with
        | none => simp [Attempt.result, ho] at hres
        | some p => simpa [Attempt.result, ho] using hres
      have hcurrent : a.number + 1 = (starts s.log).length := by
        refine ht.working hs.orderly ha ?_ ?_ ?_ ?_
        · intro hq
          simp [Attempt.isReady, hq] at hr
        · intro hq
          simp [Attempt.isReady, hq] at hr
        · intro hc
          obtain ⟨reason, hreason⟩ := hs.counted.cancelled a ha hc
          rw [hout] at hreason
          cases hreason
        · intro hl
          simp [Attempt.isReady, hl] at hr
      have hstarts : starts s.log = List.range a.number ++ [a.number] := by
        rw [ht.inOrder, ← hcurrent, List.range_succ]
      exact hi.success hstarts (by simp) (hs.recorded.not_mem_finishes ha) g o _
  | _ => exact hi.keep rfl (fun _ => rfl) rfl

/-- What a rule does to the session is what its event asks of it. -/
theorem Step.session_eq {s t : Managed σ L} {move : Move L} {e : Event} (h : Step s move e t) :
    t.session = (effects [e]).foldl Effect.apply s.session := by
  cases h with
  | @finish a o t ha hr hstore =>
    cases hres : a.result with
    | failure reason =>
      rw [hres] at hstore
      cases hstore
      rfl
    | success g =>
      rw [hres] at hstore
      change t = Act.after (Session.writeAuthorization g) s.session
      unfold Manager.storeOutcome at hstore
      unfold Act.after
      split at hstore
      · contradiction
      · next g' hg =>
        cases hg
        split at hstore
        · next hw =>
          rw [hw]
          exact (Prod.mk.inj hstore).2.symm
        · next hw =>
          rw [hw]
          exact (Prod.mk.inj hstore).2.symm
  | _ => rfl

/-- The session is what the recorded changes make of the one at the start. -/
theorem run_session (s₀ : Managed σ L) (h₀ : s₀.log = []) (moves : List (Move L)) :
    (s₀.run moves).session = (effects (s₀.run moves).log).foldl Effect.apply s₀.session := by
  refine run_induction
    (P := fun s => s.session = (effects s.log).foldl Effect.apply s₀.session) ?_ ?_
  · rw [h₀]
    rfl
  · intro s e t move _ hs h
    change t.session = _
    rw [log_record, h.log_eq, effects_append, List.foldl_append, ← hs]
    exact h.session_eq

end Order

section Runs

/-- What a run keeps in which listeners raise only ordinary errors. -/
structure Attentive (s : Managed σ L) : Prop where
  /-- Manager, record and completions fit each other. -/
  sound : s.Sound
  /-- The listeners of finished attempts have been told, or still are to be told. -/
  heard : s.Heard

/-- What else such a run keeps. -/
structure Regular (s : Managed σ L) : Prop extends s.Attentive where
  /-- The attempts take turns. -/
  inTurn : s.InTurn
  /-- The worker takes an attempt only when everybody has been told. -/
  toldBefore : s.ToldBefore
  /-- The grants stand in the order of the starts. -/
  inStartOrder : InStartOrder s.log

/-- When an attempt is started and none has been lost, every earlier one is over and has told all
its listeners. -/
theorem Regular.before_start {s : Managed σ L} (h : s.Regular) (hnone : s.NoneLost)
    {a : Attempt (Call L)} (ha : a ∈ s.manager.attempts) (hp : a.phase = .taken) {earlier : Nat}
    (hlt : earlier < a.number) :
    ∃ accepted outcome calls, Event.finished earlier accepted outcome calls ∈ s.log ∧
      toldOf earlier s.log = calls := by
  have hstands : (a.number, .taken) ∈ s.manager.standing := hp ▸ Manager.mem_standing ha
  obtain ⟨next, hturns⟩ := h.inTurn.turns
  have hstarted : earlier ∈ starts s.log := by
    rw [h.inTurn.inOrder, List.mem_range, ← hturns.taken a.number hstands]
    exact hlt
  have hover : earlier ∈ finishes s.log := by
    by_contra hf
    exact (h.inTurn.unfinished h.sound.recorded hstarted hf (hnone _)).2 a.number hstands
  obtain ⟨accepted, outcome, calls, hf⟩ := mem_finishes.mp hover
  refine ⟨accepted, outcome, calls, hf, ?_⟩
  have hall := h.heard earlier accepted outcome calls hf
  rwa [untoldOf_eq_nil fun t ht => ?_, List.append_nil] at hall
  have := h.toldBefore a.number hstands t ht
  omega

theorem attentive_new (share : Bool) (timeout : Option Binary64) (hasProcess : Bool)
    (session : Session σ) : (new share timeout hasProcess session : Managed σ L).Attentive :=
  ⟨sound_new share timeout hasProcess session, heard_new share timeout hasProcess session⟩

theorem regular_new (share : Bool) (timeout : Option Binary64) (hasProcess : Bool)
    (session : Session σ) : (new share timeout hasProcess session : Managed σ L).Regular where
  toAttentive := attentive_new share timeout hasProcess session
  inTurn := inTurn_new share timeout hasProcess session
  toldBefore := by simp [ToldBefore, new, Manager.new, Manager.standing]
  inStartOrder := rfl

variable [Durable σ]

/-- Every rule keeps a session attentive, as long as listeners raise only ordinary errors. -/
theorem Step.attentive {s t : Managed σ L} {move : Move L} {e : Event} (h : Step s move e t)
    (hord : move.isOrdinary = true) (hs : s.Attentive) : (t.record e).Attentive :=
  ⟨h.sound hs.sound, h.heard hord hs.sound hs.heard⟩

theorem Attentive.run {s : Managed σ L} (h : s.Attentive) {moves : List (Move L)}
    (hord : ∀ move ∈ moves, move.isOrdinary = true) : (s.run moves).Attentive :=
  run_induction h fun _ _ _ move hm hs hstep => hstep.attentive (hord move hm) hs

/-- Every run is attentive in which only ordinary errors are raised. -/
theorem run_attentive (share : Bool) (timeout : Option Binary64) (hasProcess : Bool)
    (session : Session σ) {moves : List (Move L)} (hord : ∀ move ∈ moves, move.isOrdinary = true) :
    ((new share timeout hasProcess session : Managed σ L).run moves).Attentive :=
  (attentive_new share timeout hasProcess session).run hord

/-- Every rule keeps a session regular, as long as only ordinary errors are raised. -/
theorem Step.regular {s t : Managed σ L} {move : Move L} {e : Event} (h : Step s move e t)
    (hord : move.isOrdinary = true) (hs : s.Regular) : (t.record e).Regular where
  toAttentive := h.attentive hord hs.toAttentive
  inTurn := h.inTurn hs.sound hs.inTurn
  toldBefore := h.toldBefore hs.sound hs.inTurn hs.toldBefore
  inStartOrder := h.inStartOrder hs.sound hs.inTurn hs.inStartOrder

/-- What is regular stays so. -/
theorem Regular.run {s : Managed σ L} (h : s.Regular) {moves : List (Move L)}
    (hord : ∀ move ∈ moves, move.isOrdinary = true) : (s.run moves).Regular :=
  run_induction h fun _ _ _ move hm hs hstep => hstep.regular (hord move hm) hs

/-- In a run in which the worker can deal with whatever is raised, no attempt is lost either. -/
theorem run_regular_noneLost (share : Bool) (timeout : Option Binary64) (hasProcess : Bool)
    (session : Session σ) {moves : List (Move L)}
    (hcaught : ∀ move ∈ moves, move.isCaught = true) :
    ((new share timeout hasProcess session : Managed σ L).run moves).Regular ∧
      ((new share timeout hasProcess session : Managed σ L).run moves).NoneLost := by
  refine run_induction (P := fun s => s.Regular ∧ s.NoneLost)
    ⟨regular_new share timeout hasProcess session, fun _ => List.not_mem_nil⟩
    fun s e t move hm h hstep => ?_
  exact ⟨hstep.regular (Move.isOrdinary_of_isCaught (hcaught move hm)) h.1,
    hstep.noneLost (hcaught move hm) h.1.sound.orderly h.2⟩

/-- The attempts of a session that began as `session₀` are serial. -/
structure Serial (session₀ : Session σ) (s : Managed σ L) : Prop where
  /-- Processes are started in the order in which their attempts were created. -/
  inOrder : starts s.log = List.range (starts s.log).length
  /-- Never two attempts at a time have been started and not finished. -/
  alone : ∀ m ∈ starts s.log, ∀ n ∈ starts s.log, m ∉ finishes s.log → n ∉ finishes s.log → m = n
  /-- Before an attempt is started, every earlier one has been finished and has told all its
  listeners. -/
  startedAfter : ∀ before number after, s.log = before ++ .started number :: after →
    ∀ earlier < number, ∃ accepted outcome calls,
      .finished earlier accepted outcome calls ∈ before ∧ toldOf earlier before = calls
  /-- The grants are written in the order in which the processes were started. -/
  grants : (effects s.log).filterMap Effect.grant? = (starts s.log).filterMap (grantOf? s.log)
  /-- The session is what these writes make of it, with the other changes where they occurred. -/
  session : s.session = (effects s.log).foldl Effect.apply session₀

/-- After every run in which processes and listeners raise only ordinary errors, those of processes
with a text, the attempts are serial. -/
theorem run_serial (share : Bool) (timeout : Option Binary64) (hasProcess : Bool)
    (session : Session σ) (moves : List (Move L))
    (hcaught : ∀ move ∈ moves, move.isCaught = true) :
    Serial session ((new share timeout hasProcess session : Managed σ L).run moves) where
  inOrder := (run_regular_noneLost share timeout hasProcess session hcaught).1.inTurn.inOrder
  alone := by
    intro m hm n hn hfm hfn
    obtain ⟨h, hnone⟩ := run_regular_noneLost share timeout hasProcess session hcaught
    have hm' := (h.inTurn.unfinished h.sound.recorded hm hfm (hnone m)).1
    have hn' := (h.inTurn.unfinished h.sound.recorded hn hfn (hnone n)).1
    omega
  startedAfter := by
    intro before number after hlog earlier hlt
    obtain ⟨first, later, t, move, -, hmoves, hstep, hbefore⟩ := exists_step_of_log_eq rfl hlog
    have hfirst : ∀ move ∈ first, move.isCaught = true := by
      intro move hm
      exact hcaught move (by rw [hmoves]; exact List.mem_append_left _ hm)
    rw [← hbefore]
    cases hstep with
    | start ha hp =>
      obtain ⟨h, hnone⟩ := run_regular_noneLost share timeout hasProcess session hfirst
      exact h.before_start hnone ha hp hlt
  grants := (run_regular_noneLost share timeout hasProcess session hcaught).1.inStartOrder
  session := run_session _ rfl moves

/-- Two attempts in turn, the first with a success that arrives before the policy is changed and
is stored after that, and a third that is cancelled. The manager is closed when the second has been
taken, before its process is started. -/
def turnabout : List (Move String) :=
  [.obtain .null [] (some "a"), .obtain .null [] (some "b"), .take, .start 0,
    .report 0 (.success ⟨"access", "id", .empty, none, by decide, by decide⟩), .setPolicy .never,
    .await 0 (.zero false), .finish 0, .obtain .null [] (some "c"), .tell 0 none, .take, .close,
    .finish 2, .start 1, .await 1 (.zero false), .clear, .finish 1, .tell 2 none, .tell 1 none]

/-- The attempts of this run are serial, and two of them are started. -/
theorem turnabout_serial :
    (∀ move ∈ turnabout, move.isCaught = true) ∧
      Serial ⟨.blank .always, ⟨[], []⟩⟩
        ((new false none true ⟨.blank .always, ⟨[], []⟩⟩ : Managed Memory String).run turnabout) ∧
      starts ((new false none true ⟨.blank .always, ⟨[], []⟩⟩ : Managed Memory String).run
        turnabout).log = [0, 1] :=
  ⟨by decide, run_serial false none true _ turnabout (by decide), by decide⟩

end Runs

end Managed

end BearerSession
