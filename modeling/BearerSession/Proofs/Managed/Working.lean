import BearerSession.Proofs.Managed.Notification
import BearerSession.Proofs.Managed.SingleFlight
import BearerSession.Proofs.Managed.Staff

/-!
# Managers with a process

What every run of a manager with a process keeps. It accepts whoever asks as long as it is open, and
starts nothing twice. The header of a grant appears in the store when its attempt is finished, and
it stays there as long as nothing else changes the header.
-/

namespace BearerSession

/-- The header that shows the tokens of a grant. -/
def Grant.header (g : Grant) : String := Header.ofTokens g.accessToken g.idToken

namespace Manager

variable {L : Type} {m m' : Manager L}

/-- An open manager with a process accepts everybody who can be told an outcome. -/
theorem exists_obtain_eq_ok (hprocess : m.hasProcess = true) (hopen : m.closed = false)
    (host : Value) (params : List Value) (l : L) :
    ∃ m', m.obtain host params (some l) = .ok m' := by
  simp only [obtain, hprocess, hopen, Bool.not_true, Bool.false_eq_true, if_false]
  split
  · exact ⟨_, rfl⟩
  · exact ⟨_, rfl⟩

/-- Whoever is accepted waits in the attempt in flight, and at most one attempt is created. -/
theorem Orderly.obtain (h : m.Orderly) {host : Value} {params : List Value} {l : L}
    (hm : m.obtain host params (some l) = .ok m') :
    (∃ entry ∈ m'.roster, m'.inflight = some entry.1 ∧ l ∈ entry.2) ∧
      m'.created ≤ m.created + 1 := by
  obtain ⟨-, ⟨number, hnumber, -, rfl⟩ | ⟨-, rfl⟩⟩ := obtain_eq_ok hm
  · obtain ⟨entry, hentry, rfl⟩ := List.mem_map.mp (h.inflight number hnumber)
    refine ⟨⟨(entry.1, entry.2 ++ [l]), ?_, hnumber, by simp⟩, Nat.le_succ _⟩
    rw [roster_join]
    exact List.mem_map.mpr ⟨entry, hentry, if_pos rfl⟩
  · exact ⟨⟨(m.created, [l]), by simp, rfl, by simp⟩, Nat.le_refl _⟩

end Manager

namespace Managed

variable {σ L : Type} [Durable σ] {s t : Managed σ L} {move : Move L} {e : Event} {number : Nat}

/-- No rule gives a manager a process or takes one away. -/
theorem Step.hasProcess_eq (h : Step s move e t) :
    t.manager.hasProcess = s.manager.hasProcess := by
  cases h with
  | accept hm => obtain ⟨-, ⟨number, -, -, rfl⟩ | ⟨-, rfl⟩⟩ := Manager.obtain_eq_ok hm <;> rfl
  | raise | expire | close =>
    simp only [Manager.startRaised, Manager.expire, Manager.close]
    split <;> rfl
  | @tell number raised c o left =>
    obtain ⟨rest, hafter, -⟩ := exists_afterTelling { s.manager with tellings := left } number
      raised
    rw [hafter]
  | _ => rfl

/-- What has been started is not started again. -/
theorem Step.nodup_starts (h : Step s move e t) (hst : s.Staffed) (hn : (starts s.log).Nodup) :
    (starts (t.record e).log).Nodup := by
  rw [log_record, h.log_eq]
  cases h with
  | start ha hp =>
    rw [starts_append]
    refine hn.append (List.nodup_singleton _) fun n hn hin => ?_
    rw [List.mem_singleton.mp hin, hst.started _ _ (Manager.mem_standing ha), hp] at hn
    contradiction
  | _ =>
    rw [starts_concat s.log rfl]
    exact hn

/-- What is so at all times of a manager with a process. -/
structure Working (s : Managed σ L) : Prop where
  /-- Manager, record and completions fit each other. -/
  sound : s.Sound
  /-- The calls are accounted for. -/
  accounted : s.Accounted
  /-- The worker is where the record has it. -/
  staffed : s.Staffed
  /-- No attempt has been started twice. -/
  once : (starts s.log).Nodup
  /-- The cells are those of their names. -/
  isAt : ∀ n, (s.session.store.cell n).IsAt n
  /-- There is a process. -/
  hasProcess : s.manager.hasProcess = true

omit [Durable σ] in
theorem working_new (share : Bool) (timeout : Option Binary64) {session : Session σ}
    (h : ∀ n, (session.store.cell n).IsAt n) :
    (new share timeout true session : Managed σ L).Working :=
  ⟨sound_new share timeout true session, accounted_new share timeout true session,
    staffed_new share timeout true session, List.nodup_nil, h, rfl⟩

/-- Whether nothing changes the header in the course of some moves but the end of an attempt. -/
def HeaderKept (number : Nat) (s : Managed σ L) : List (Move L) → Prop
  | [] => True
  | move :: rest =>
    (move = .finish number ∨ (s.step move).session.store.header = s.session.store.header) ∧
      HeaderKept number (s.step move) rest

/-- An attempt that was finished with a grant has left its header. -/
def Shows (s : Managed σ L) (number : Nat) : Prop :=
  ∀ accepted g calls, .finished number accepted (.success g) calls ∈ s.log →
    s.session.store.header = some g.header

variable [LawfulDurable σ]

theorem Step.working (h : Step s move e t) (hs : s.Working) : (t.record e).Working where
  sound := h.sound hs.sound
  accounted := h.accounted hs.sound.orderly hs.accounted
  staffed := h.staffed hs.sound hs.staffed
  once := h.nodup_starts hs.staffed hs.once
  isAt := h.isAt hs.isAt
  hasProcess := h.hasProcess_eq.trans hs.hasProcess

theorem Working.run (h : s.Working) (moves : List (Move L)) : (s.run moves).Working :=
  run_induction h fun _ _ _ _ _ hs hstep => hstep.working hs

/-- The header of an attempt appears when it is finished and stays as long as nothing else changes
the header. -/
theorem Step.shows (h : Step s move e t) (hs : s.Working)
    (hkept : move = .finish number ∨ t.session.store.header = s.session.store.header)
    (hshows : s.Shows number) : (t.record e).Shows number := by
  intro accepted g calls hf
  rw [log_record, h.log_eq] at hf
  change t.session.store.header = some g.header
  rcases List.mem_append.mp hf with hearlier | hnow
  · rcases hkept with rfl | hkept
    · -- what is on record as finished cannot be finished again
      cases h with
      | finish ha => exact absurd rfl (hs.sound.recorded.number_ne hearlier ha)
    · exact hkept.trans (hshows accepted g calls hearlier)
  · cases List.mem_singleton.mp hnow
    cases h with
    | finish ha hr hstore => exact header_of_storeOutcome_success hs.isAt hstore

theorem Shows.run {moves : List (Move L)} (h : s.Shows number) (hs : s.Working)
    (hkept : HeaderKept number s moves) : (s.run moves).Shows number := by
  induction moves generalizing s with
  | nil => exact h
  | cons move rest ih =>
    obtain ⟨hmove, hrest⟩ := hkept
    rw [run_cons]
    rcases s.step_cases move with heq | ⟨e, t, hstep, heq⟩
    · rw [heq] at hrest ⊢
      exact ih h hs hrest
    · rw [heq] at hmove hrest ⊢
      exact ih (hstep.shows hs hmove h) (hstep.working hs) hrest

end Managed

end BearerSession
