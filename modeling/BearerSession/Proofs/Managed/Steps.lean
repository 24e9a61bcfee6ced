import Mathlib.Data.List.Induction
import BearerSession.Proofs.Managed.Basic

/-!
# What a move can do

Each possible move is one rule: its guard, what is recorded of it, and the state it leads to.
Whatever is claimed of every run is shown of these rules, and carried along a run by one induction.
-/

namespace BearerSession

namespace Manager

variable {L : Type}

/-- The attempt found under a number is outstanding and has that number. -/
theorem attempt?_eq_some {m : Manager L} {number : Nat} {a : Attempt L}
    (h : m.attempt? number = some a) : a ∈ m.attempts ∧ a.number = number := by
  unfold attempt? at h
  exact ⟨List.mem_of_find?_eq_some h, by simpa using List.find?_some h⟩

/-- Only an outstanding attempt stands anywhere. -/
theorem phase?_eq_some {m : Manager L} {number : Nat} {p : Phase} (h : m.phase? number = some p) :
    ∃ a ∈ m.attempts, a.number = number ∧ a.phase = p := by
  obtain ⟨a, ha, hp⟩ := Option.map_eq_some_iff.mp h
  obtain ⟨hmem, hn⟩ := attempt?_eq_some ha
  exact ⟨a, hmem, hn, hp⟩

/-- An accepted call joins the attempt in flight or gets an attempt of its own. -/
theorem obtain_eq_ok {m m' : Manager L} {host : Value} {params : List Value} {l : L}
    (h : m.obtain host params (some l) = .ok m') :
    m.closed = false ∧
      ((∃ number, m.inflight = some number ∧ m.share = true ∧ m' = m.join number l) ∨
        ((m.inflight = none ∨ m.share = false) ∧ m' = m.create host params l)) := by
  unfold obtain at h
  split at h
  · contradiction
  · next l' hl =>
    cases hl
    split at h
    · contradiction
    · split at h
      · contradiction
      · next hc =>
        refine ⟨by simpa using hc, ?_⟩
        split at h
        · next number hi hs =>
          cases h
          exact Or.inl ⟨number, hi, hs, rfl⟩
        · next hno =>
          cases h
          refine Or.inr ⟨?_, rfl⟩
          cases hi : m.inflight with
          | none => exact Or.inl rfl
          | some number =>
            cases hs : m.share with
            | false => exact Or.inr rfl
            | true => exact absurd hs (hno number hi)

/-- What the worker takes next is outstanding and has waited for its turn. -/
theorem mem_of_next? {m : Manager L} {a : Attempt L} (h : m.next? = some a) :
    a ∈ m.attempts ∧ a.phase = .queued := by
  unfold next? at h
  split at h
  · exact ⟨List.mem_of_find?_eq_some h, by simpa using List.find?_some h⟩
  · contradiction

/-- The worker takes an attempt only when everybody has been told and no other one is at hand. -/
theorem next?_eq_some {m : Manager L} {a : Attempt L} (h : m.next? = some a) :
    m.tellings = [] ∧ (∀ b ∈ m.attempts, b.isRunning = false ∧ b.phase ≠ .abandoned) ∧
      m.attempts.find? (fun b => b.phase == .queued) = some a := by
  unfold next? at h
  split at h
  · next hidle =>
    rw [Bool.and_eq_true, List.isEmpty_iff, Bool.not_eq_true', List.any_eq_false] at hidle
    refine ⟨hidle.1, fun b hb => ?_, h⟩
    have hb' := hidle.2 b hb
    simpa using hb'
  · contradiction

end Manager

namespace Managed

variable {σ L : Type}

/-- A listener that raises keeps others from being told at most. -/
theorem exists_afterTelling (m : Manager (Call L)) (number : Nat) (raised : Option Raised) :
    ∃ left, afterTelling m number raised = { m with tellings := left } ∧
      ∀ t ∈ left, t ∈ m.tellings := by
  cases raised with
  | none => exact ⟨m.tellings, rfl, fun t ht => ht⟩
  | some e =>
    rw [afterTelling, Manager.listenerRaised]
    split
    · exact ⟨m.tellings, rfl, fun t ht => ht⟩
    · exact ⟨_, rfl, fun t ht => (List.mem_filter.mp ht).1⟩

/-- An ordinary error does not even do that. -/
theorem afterTelling_eq (m : Manager (Call L)) (number : Nat) {raised : Option Raised}
    (h : ∀ e ∈ raised, e.isOrdinary = true) : afterTelling m number raised = m := by
  cases raised with
  | none => rfl
  | some e => rw [afterTelling, Manager.listenerRaised, if_pos (h e rfl)]

/-- Where nothing but ordinary errors is raised, this is so of listeners. -/
theorem Move.isOrdinary_tell {number : Nat} {raised : Option Raised}
    (h : (Move.tell number raised : Move L).isOrdinary = true) :
    ∀ e ∈ raised, e.isOrdinary = true := by
  rintro e rfl
  exact h

variable [Durable σ]

/-- The rules by which a session and its manager change. -/
inductive Step (s : Managed σ L) : Move L → Event → Managed σ L → Prop
  | accept {host params l m} : s.manager.obtain host params (some ⟨s.calls, l⟩) = .ok m →
      Step s (.obtain host params (some l)) (.accepted s.calls)
        { s with manager := m, calls := s.calls + 1 }
  | refuse {host params listener e} :
      s.manager.obtain host params (listener.map fun l => ⟨s.calls, l⟩) = .error e →
      Step s (.obtain host params listener) (.refused e) s
  | take {a} : s.manager.next? = some a →
      Step s .take (.taken a.number) { s with manager := s.manager.take a.number }
  | start {a} : a ∈ s.manager.attempts → a.phase = .taken →
      Step s (.start a.number) (.started a.number) { s with manager := s.manager.start a.number }
  | report {number o} : number ∈ starts s.log →
      Step s (.report number o) (.reported number o)
        { s with manager := s.manager.complete number o }
  | raise {a e} : a ∈ s.manager.attempts → a.phase = .starting →
      Step s (.raise a.number e) (.raised a.number e)
        { s with manager := s.manager.startRaised a.number e }
  | await {a now} : a ∈ s.manager.attempts → a.phase = .starting →
      Step s (.await a.number now) (.awaited a.number)
        { s with manager := s.manager.await a.number now }
  | expire {a deadline limit} : a ∈ s.manager.attempts → a.phase = .waiting (some deadline) →
      s.manager.timeout = some limit →
      Step s (.expire a.number) (.expired a.number limit)
        { s with manager := s.manager.expire a.number }
  | finish {a o t} : a ∈ s.manager.attempts → a.isReady = true →
      Manager.storeOutcome a.result s.session = (o, t) →
      Step s (.finish a.number) (.finished a.number a.result o (a.listeners.map Call.number))
        { s with manager := s.manager.remove a o, session := t }
  | tell {number raised c o left} :
      Telling.next? number s.manager.tellings = some (c, o, left) →
      Step s (.tell number raised) (.told number c.number o)
        { s with manager := afterTelling { s.manager with tellings := left } number raised }
  | close : Step s .close (.closed s.manager.pending) { s with manager := s.manager.close }
  | clear : Step s .clear .cleared
      { s with session := Act.after Session.clearAuthorization s.session }
  | setPolicy {p} : Step s (.setPolicy p) (.policySet p)
      { s with session := Act.after (Session.setPolicy p) s.session }

/-- A possible move follows one of the rules. -/
theorem Step.of_step? {s t : Managed σ L} {move : Move L} {e : Event}
    (h : s.step? move = some (e, t)) : Step s move e t := by
  cases move with
  | obtain host params listener =>
    simp only [step?] at h
    cases hm : s.manager.obtain host params (listener.map fun l => ⟨s.calls, l⟩) with
    | error e' =>
      rw [hm] at h
      cases h
      exact .refuse hm
    | ok m =>
      rw [hm] at h
      cases h
      cases listener with
      | none => simp [Manager.obtain] at hm
      | some l => exact .accept hm
  | take =>
    obtain ⟨a, ha, he⟩ := Option.map_eq_some_iff.mp h
    cases he
    exact .take ha
  | start number =>
    simp only [step?] at h
    split at h
    · next hp =>
      cases h
      obtain ⟨a, ha, rfl, hs⟩ := Manager.phase?_eq_some hp
      exact .start ha hs
    · contradiction
  | report number o =>
    simp only [step?] at h
    split at h
    · next hn =>
      cases h
      exact .report hn
    · contradiction
  | raise number e' =>
    simp only [step?] at h
    split at h
    · next hp =>
      cases h
      obtain ⟨a, ha, rfl, hs⟩ := Manager.phase?_eq_some hp
      exact .raise ha hs
    · contradiction
  | await number now =>
    simp only [step?] at h
    split at h
    · next hp =>
      cases h
      obtain ⟨a, ha, rfl, hs⟩ := Manager.phase?_eq_some hp
      exact .await ha hs
    · contradiction
  | expire number =>
    simp only [step?] at h
    split at h
    · next hp ht =>
      cases h
      obtain ⟨a, ha, rfl, hs⟩ := Manager.phase?_eq_some hp
      exact .expire ha hs ht
    · contradiction
  | finish number =>
    simp only [step?] at h
    split at h
    · next a ha =>
      split at h
      · next hr =>
        cases h
        obtain ⟨hmem, rfl⟩ := Manager.attempt?_eq_some ha
        exact .finish hmem hr rfl
      · contradiction
    · contradiction
  | tell number raised =>
    obtain ⟨⟨c, o, left⟩, hn, he⟩ := Option.map_eq_some_iff.mp h
    cases he
    exact .tell hn
  | close =>
    cases h
    exact .close
  | clear =>
    cases h
    exact .clear
  | setPolicy p =>
    cases h
    exact .setPolicy

/-- A possible move is recorded. -/
theorem step_eq {s t : Managed σ L} {move : Move L} {e : Event}
    (h : s.step? move = some (e, t)) : s.step move = t.record e := by
  simp only [step, h]

/-- A move changes nothing, or follows a rule and is recorded. -/
theorem step_cases (s : Managed σ L) (move : Move L) :
    s.step move = s ∨ ∃ e t, Step s move e t ∧ s.step move = t.record e := by
  unfold step
  split
  · next e t h => exact Or.inr ⟨e, t, .of_step? h, rfl⟩
  · exact Or.inl rfl

/-- No rule touches the record. -/
theorem Step.log_eq {s t : Managed σ L} {move : Move L} {e : Event} (h : Step s move e t) :
    t.log = s.log := by
  cases h <;> rfl

/-- What holds at the start and is kept by every move holds after every run. -/
theorem run_induction {P : Managed σ L → Prop} {s : Managed σ L} {moves : List (Move L)}
    (h₀ : P s) (hstep : ∀ s e t, ∀ move ∈ moves, P s → Step s move e t → P (t.record e)) :
    P (s.run moves) := by
  induction moves generalizing s with
  | nil => exact h₀
  | cons move rest ih =>
    refine ih ?_ fun s e t m hm => hstep s e t m (List.mem_cons_of_mem _ hm)
    rcases s.step_cases move with h | ⟨e, t, h, he⟩
    · rw [h]
      exact h₀
    · rw [he]
      exact hstep s e t move List.mem_cons_self h₀ h

@[simp] theorem run_nil (s : Managed σ L) : s.run [] = s := rfl

@[simp] theorem run_cons (s : Managed σ L) (move : Move L) (moves : List (Move L)) :
    s.run (move :: moves) = (s.step move).run moves := rfl

theorem run_append (s : Managed σ L) (moves more : List (Move L)) :
    s.run (moves ++ more) = (s.run moves).run more :=
  List.foldl_append

omit [Durable σ] in
/-- What is recorded stands behind what was recorded before. -/
theorem log_record (s : Managed σ L) (e : Event) : (s.record e).log = s.log ++ [e] := rfl

/-- What is on record stays there. -/
theorem run_log (s : Managed σ L) (moves : List (Move L)) : s.log <+: (s.run moves).log := by
  refine run_induction (P := fun t => s.log <+: t.log) (List.prefix_refl _)
    fun u e t _ _ hu hstep => ?_
  rw [log_record, hstep.log_eq]
  exact hu.trans (List.prefix_append ..)

/-- Every recorded event was recorded by a rule, at the state that an earlier part of the run led
to. -/
theorem exists_step_of_log_eq {s : Managed σ L} {moves : List (Move L)} (h₀ : s.log = [])
    {before after : List Event} {e : Event} (h : (s.run moves).log = before ++ e :: after) :
    ∃ earlier later t, ∃ move ∈ moves, moves = earlier ++ move :: later ∧
      Step (s.run earlier) move e t ∧ (s.run earlier).log = before := by
  induction moves using List.reverseRecOn generalizing after with
  | nil => simp [h₀] at h
  | append_singleton moves last ih =>
    rw [run_append, run_cons, run_nil] at h
    rcases (s.run moves).step_cases last with hs | ⟨e', t, hstep, he⟩
    · rw [hs] at h
      obtain ⟨earlier, later, t, move, hm, rfl, hr⟩ := ih h
      exact ⟨earlier, later ++ [last], t, move, List.mem_append_left _ hm, by simp, hr⟩
    · rw [he, log_record, hstep.log_eq] at h
      rcases List.eq_nil_or_concat after with rfl | ⟨after', last', rfl⟩
      · obtain ⟨hlog, hlast⟩ := List.append_inj' h rfl
        cases hlast
        exact ⟨moves, [], t, last, by simp, rfl, hstep, hlog⟩
      · have hlog : (s.run moves).log = before ++ e :: after' := by
          have h' : (s.run moves).log ++ [e'] = (before ++ e :: after') ++ [last'] := by
            simpa using h
          exact (List.append_inj' h' rfl).1
        obtain ⟨earlier, later, t, move, hm, rfl, hr⟩ := ih hlog
        exact ⟨earlier, later ++ [last], t, move, List.mem_append_left _ hm, by simp, hr⟩

end Managed

end BearerSession
