import BearerSession.Proofs.Managed.Completion

/-!
# Attempts take turns

The attempts that wait for their turn are the last ones created, in order, until the manager is
closed. Of the others at most one is at work: the one taken last. Its process is started before
another one is taken, and it is over by then, unless the worker has been taken away from it.
-/

namespace BearerSession

namespace Manager

variable {L : Type}

/-- The outstanding attempts by number, each with its phase. -/
def standing (m : Manager L) : List (Nat × Phase) := m.attempts.map fun a => (a.number, a.phase)

theorem mem_standing {m : Manager L} {a : Attempt L} (ha : a ∈ m.attempts) :
    (a.number, a.phase) ∈ m.standing :=
  List.mem_map.mpr ⟨a, ha, rfl⟩

/-- A change of an attempt that keeps its number and its phase leaves all standing as they are. -/
theorem standing_update_of (m : Manager L) (number : Nat) {f : Attempt L → Attempt L}
    (hf : ∀ a, (f a).number = a.number ∧ (f a).phase = a.phase) :
    (m.update number f).standing = m.standing := by
  simp only [standing, update, List.map_map]
  refine List.map_congr_left fun a _ => ?_
  by_cases ha : a.number = number <;> simp [ha, hf a]

theorem standing_complete (m : Manager L) (number : Nat) (o : Outcome) :
    (m.complete number o).standing = m.standing :=
  m.standing_update_of number fun _ => ⟨rfl, rfl⟩

theorem standing_join (m : Manager L) (number : Nat) (l : L) :
    (m.join number l).standing = m.standing :=
  m.standing_update_of number fun _ => ⟨rfl, rfl⟩

theorem standing_expire (m : Manager L) (number : Nat) :
    (m.expire number).standing = m.standing := by
  unfold expire
  split
  · exact m.standing_complete number _
  · rfl

theorem standing_create (m : Manager L) (host : Value) (params : List Value) (l : L) :
    (m.create host params l).standing = m.standing ++ [(m.created, .queued)] := by
  simp [standing, create]

/-- A change of one attempt to a phase. -/
theorem Orderly.standing_update {m : Manager L} (h : m.Orderly) {a : Attempt L}
    (ha : a ∈ m.attempts) {f : Attempt L → Attempt L} (hf : (f a).number = a.number) :
    (m.update a.number f).standing =
      m.standing.map fun e => if e.1 = a.number then (e.1, (f a).phase) else e := by
  simp only [standing, update, List.map_map]
  refine List.map_congr_left fun b hb => ?_
  by_cases hn : b.number = a.number
  · obtain rfl := h.eq_of_number_eq hb ha hn
    simp [hf]
  · simp [hn]

/-- An attempt stands in one phase only. -/
theorem Orderly.phase_eq {m : Manager L} (h : m.Orderly) {a : Attempt L} (ha : a ∈ m.attempts)
    {p : Phase} (hp : (a.number, p) ∈ m.standing) : p = a.phase := by
  obtain ⟨b, hb, he⟩ := List.mem_map.mp hp
  obtain ⟨hn, rfl⟩ := Prod.mk.inj he
  rw [h.eq_of_number_eq hb ha hn]

/-- What the worker waits for is past its start, and neither cancelled nor lost. -/
theorem phaseFrom_ne (timeout : Option Binary64) (now : Binary64) (completed : Bool) :
    phaseFrom timeout now completed ≠ .queued ∧ phaseFrom timeout now completed ≠ .taken ∧
      phaseFrom timeout now completed ≠ .starting ∧
      phaseFrom timeout now completed ≠ .cancelled ∧ phaseFrom timeout now completed ≠ .lost := by
  unfold phaseFrom
  split
  · simp
  · split <;> simp

theorem standing_remove (m : Manager L) (a : Attempt L) (o : Outcome) :
    (m.remove a o).standing = m.standing.filter fun e => e.1 ≠ a.number := by
  simp [standing, remove, List.filter_map, Function.comp_def]

/-- Closing cancels what waits for its turn. -/
theorem standing_close {m : Manager L} (h : m.closed = false) :
    m.close.standing =
      m.standing.map fun e => if e.2 = .queued then (e.1, .cancelled) else e := by
  simp only [standing, close, h, List.map_map, Bool.false_eq_true, if_false]
  refine List.map_congr_left fun a _ => ?_
  by_cases hq : a.phase = .queued <;> simp [Attempt.close, Attempt.complete, hq]

end Manager

namespace Managed

/-- The standing of a manager whose attempts take turns; `next` is the attempt to be taken next, and
`started` is how many processes have been started. -/
structure Turns (standing : List (Nat × Phase)) (closed : Bool) (created next started : Nat)
    (finished : List Nat) : Prop where
  /-- What waits for its turn has not been taken, and the manager is open. -/
  queued : ∀ number, (number, .queued) ∈ standing → next ≤ number ∧ closed = false
  /-- As long as the manager is open, what has not been taken waits for its turn. -/
  waits : closed = false → ∀ number, next ≤ number → number < created →
    (number, .queued) ∈ standing
  /-- Only the attempt taken last can be at work. -/
  current : ∀ number p, (number, p) ∈ standing → p ≠ .queued → p ≠ .cancelled → p ≠ .lost →
    number + 1 = next
  /-- What has been lost has been taken. -/
  lost : ∀ number, (number, .lost) ∈ standing → number < next
  /-- What has been cancelled is never taken. -/
  cancelled : ∀ number, (number, .cancelled) ∈ standing → next ≤ number ∧ closed = true
  /-- What stands as taken is the one whose process is started next. -/
  taken : ∀ number, (number, .taken) ∈ standing → number = started
  /-- Whatever has been taken has been started, but for the one that stands as taken. -/
  begun : started = next ∨ started + 1 = next ∧ (started, .taken) ∈ standing
  /-- What is not outstanding is over. -/
  ended : ∀ number < created, number ∈ standing.map Prod.fst ∨ number ∈ finished

namespace Turns

variable {standing : List (Nat × Phase)} {closed : Bool} {created next started : Nat}
  {finished : List Nat}

theorem new : Turns [] false 0 0 0 [] := by
  refine ⟨?_, ?_, ?_, ?_, ?_, ?_, ?_, ?_⟩ <;> simp

theorem started_le (h : Turns standing closed created next started finished) : started ≤ next := by
  rcases h.begun with he | ⟨he, -⟩ <;> omega

/-- A new attempt waits for its turn behind all others. -/
theorem create (h : Turns standing closed created next started finished) (hopen : closed = false)
    (hle : next ≤ created) :
    Turns (standing ++ [(created, .queued)]) closed (created + 1) next started finished := by
  have hmem : ∀ number p, (number, p) ∈ standing ++ [(created, .queued)] →
      (number, p) ∈ standing ∨ (number = created ∧ p = .queued) := by
    intro number p hm
    simpa using hm
  constructor
  · intro number hm
    rcases hmem number _ hm with hm | ⟨rfl, -⟩
    · exact h.queued number hm
    · exact ⟨hle, hopen⟩
  · intro _ number hn hlt
    by_cases he : number = created
    · simp [he]
    · exact List.mem_append_left _ (h.waits hopen number hn (by omega))
  · intro number p hm hq hc hl
    rcases hmem number p hm with hm | ⟨-, rfl⟩
    · exact h.current number p hm hq hc hl
    · exact absurd rfl hq
  · intro number hm
    rcases hmem number _ hm with hm | ⟨-, hp⟩
    · exact h.lost number hm
    · contradiction
  · intro number hm
    rcases hmem number _ hm with hm | ⟨-, hp⟩
    · exact h.cancelled number hm
    · contradiction
  · intro number hm
    rcases hmem number _ hm with hm | ⟨-, hp⟩
    · exact h.taken number hm
    · contradiction
  · exact h.begun.imp_right fun hb => ⟨hb.1, List.mem_append_left _ hb.2⟩
  · intro number hlt
    by_cases he : number = created
    · simp [he]
    · have hover := h.ended number (by omega)
      rw [List.map_append, List.mem_append]
      exact hover.imp_left Or.inl

/-- What a number stands in after one number has been moved to a phase. -/
theorem mem_move {number n : Nat} {p q : Phase}
    (h : (n, q) ∈ standing.map fun e => if e.1 = number then (e.1, p) else e) :
    (n = number ∧ q = p) ∨ (n ≠ number ∧ (n, q) ∈ standing) := by
  obtain ⟨⟨m, r⟩, hm, he⟩ := List.mem_map.mp h
  by_cases hn : m = number
  · simp only [hn, if_true, Prod.mk.injEq] at he
    exact Or.inl ⟨he.1.symm, he.2.symm⟩
  · simp only [hn, if_false, Prod.mk.injEq] at he
    obtain ⟨rfl, rfl⟩ := he
    exact Or.inr ⟨hn, hm⟩

/-- Whoever is not moved stays where it stands. -/
theorem mem_move_of_ne {number n : Nat} {p q : Phase} (hn : n ≠ number) (h : (n, q) ∈ standing) :
    (n, q) ∈ standing.map fun e => if e.1 = number then (e.1, p) else e :=
  List.mem_map.mpr ⟨(n, q), h, by simp [hn]⟩

/-- Moving changes no number. -/
theorem move_fst (number : Nat) (p : Phase) :
    (standing.map fun e => if e.1 = number then (e.1, p) else e).map Prod.fst =
      standing.map Prod.fst := by
  rw [List.map_map]
  refine List.map_congr_left fun e _ => ?_
  by_cases he : e.1 = number <;> simp [he]

/-- Where none stands as taken, whatever has been taken has been started. -/
theorem started_eq (h : Turns standing closed created next started finished)
    (hnone : ∀ number, (number, .taken) ∉ standing) : started = next := by
  rcases h.begun with he | ⟨-, hm⟩
  · exact he
  · exact absurd hm (hnone started)

/-- The attempt that is next may be taken when no other is at work. -/
theorem take (h : Turns standing closed created next started finished)
    (hnext : (next, .queued) ∈ standing)
    (hidle : ∀ number p, (number, p) ∈ standing → p = .queued ∨ p = .cancelled ∨ p = .lost) :
    Turns (standing.map fun e => if e.1 = next then (e.1, .taken) else e) closed created
      (next + 1) started finished := by
  have hopen := (h.queued next hnext).2
  have hstarted : started = next := h.started_eq fun number hm => by
    rcases hidle number _ hm with hp | hp | hp <;> contradiction
  constructor
  · intro number hm
    rcases mem_move hm with ⟨-, hp⟩ | ⟨hne, hm⟩
    · contradiction
    · have := (h.queued number hm).1
      exact ⟨by omega, hopen⟩
  · intro _ number hle hlt
    exact mem_move_of_ne (by omega) (h.waits hopen number (by omega) hlt)
  · intro number p hm hq hc hl
    rcases mem_move hm with ⟨rfl, -⟩ | ⟨-, hm⟩
    · rfl
    · rcases hidle number p hm with hp | hp | hp
      · exact absurd hp hq
      · exact absurd hp hc
      · exact absurd hp hl
  · intro number hm
    rcases mem_move hm with ⟨-, hp⟩ | ⟨-, hm⟩
    · contradiction
    · exact Nat.lt_succ_of_lt (h.lost number hm)
  · intro number hm
    rcases mem_move hm with ⟨-, hp⟩ | ⟨-, hm⟩
    · contradiction
    · have := (h.cancelled number hm).2
      rw [hopen] at this
      contradiction
  · intro number hm
    rcases mem_move hm with ⟨rfl, -⟩ | ⟨-, hm⟩
    · exact hstarted.symm
    · exact h.taken number hm
  · exact .inr ⟨congrArg (· + 1) hstarted, List.mem_map.mpr ⟨_, hnext, by simp [hstarted]⟩⟩
  · rw [move_fst]
    exact h.ended

/-- The attempt at work may go on to another phase of its work, or be lost; `after` is how many
processes have been started then. -/
theorem move (h : Turns standing closed created next started finished) {number after : Nat}
    (hcurrent : number + 1 = next) {p : Phase} (hq : p ≠ .queued) (hc : p ≠ .cancelled)
    (ht : p ≠ .taken) (hafter : after = next)
    (honly : ∀ n, (n, .taken) ∈ standing → n = number) :
    Turns (standing.map fun e => if e.1 = number then (e.1, p) else e) closed created next
      after finished := by
  constructor
  · intro n hm
    rcases mem_move hm with ⟨-, hp⟩ | ⟨-, hm⟩
    · exact absurd hp.symm hq
    · exact h.queued n hm
  · intro hopen n hle hlt
    exact mem_move_of_ne (by omega) (h.waits hopen n hle hlt)
  · intro n q hm hq' hc' hl'
    rcases mem_move hm with ⟨rfl, -⟩ | ⟨-, hm⟩
    · exact hcurrent
    · exact h.current n q hm hq' hc' hl'
  · intro n hm
    rcases mem_move hm with ⟨rfl, -⟩ | ⟨-, hm⟩
    · exact Nat.lt_of_succ_le (Nat.le_of_eq hcurrent)
    · exact h.lost n hm
  · intro n hm
    rcases mem_move hm with ⟨-, hp⟩ | ⟨-, hm⟩
    · exact absurd hp.symm hc
    · exact h.cancelled n hm
  · intro n hm
    rcases mem_move hm with ⟨-, hp⟩ | ⟨hne, hm⟩
    · exact absurd hp.symm ht
    · exact absurd (honly n hm) hne
  · exact .inl hafter
  · rw [move_fst]
    exact h.ended

/-- The process of the attempt that stands as taken may be started. -/
theorem start (h : Turns standing closed created next started finished) {number : Nat}
    (hp : (number, .taken) ∈ standing) :
    Turns (standing.map fun e => if e.1 = number then (e.1, .starting) else e) closed created next
      (started + 1) finished := by
  have hnumber := h.taken number hp
  have hcurrent := h.current number .taken hp nofun nofun nofun
  refine h.move hcurrent nofun nofun nofun (by omega) fun n hm => ?_
  exact (h.taken n hm).trans hnumber.symm

/-- What does not wait for its turn may be finished, unless it stands as taken. -/
theorem finish (h : Turns standing closed created next started finished) {number : Nat} {p : Phase}
    (hp : (number, p) ∈ standing) (hq : p ≠ .queued) (ht : (number, .taken) ∉ standing) :
    Turns (standing.filter fun e => e.1 ≠ number) closed created next started
      (finished ++ [number]) := by
  constructor
  · intro n hm
    exact h.queued n (List.mem_filter.mp hm).1
  · intro hopen n hle hlt
    refine List.mem_filter.mpr ⟨h.waits hopen n hle hlt, ?_⟩
    have hne : n ≠ number := by
      rintro rfl
      by_cases hc : p = .cancelled
      · subst hc
        have := (h.cancelled n hp).2
        rw [hopen] at this
        contradiction
      · by_cases hl : p = .lost
        · have := h.lost n (hl ▸ hp)
          omega
        · have := h.current n p hp hq hc hl
          omega
    simpa using hne
  · intro n q hm
    exact h.current n q (List.mem_filter.mp hm).1
  · intro n hm
    exact h.lost n (List.mem_filter.mp hm).1
  · intro n hm
    exact h.cancelled n (List.mem_filter.mp hm).1
  · intro n hm
    exact h.taken n (List.mem_filter.mp hm).1
  · refine h.begun.imp_right fun hb => ⟨hb.1, List.mem_filter.mpr ⟨hb.2, ?_⟩⟩
    have hne : started ≠ number := fun he => ht (he ▸ hb.2)
    simpa using hne
  · intro n hlt
    by_cases hn : n = number
    · exact Or.inr (by simp [hn])
    · rcases h.ended n hlt with hin | hin
      · obtain ⟨e, he, rfl⟩ := List.mem_map.mp hin
        exact Or.inl (List.mem_map_of_mem (List.mem_filter.mpr ⟨he, by simpa using hn⟩))
      · exact Or.inr (List.mem_append_left _ hin)

/-- What waits for its turn is cancelled when the manager is closed. -/
theorem close (h : Turns standing closed created next started finished) :
    Turns (standing.map fun e => if e.2 = .queued then (e.1, .cancelled) else e) true created next
      started finished := by
  have hmem : ∀ n q, (n, q) ∈ (standing.map fun e =>
      if e.2 = .queued then (e.1, .cancelled) else e) →
        (q = .cancelled ∧ (n, .queued) ∈ standing) ∨ (q ≠ .queued ∧ (n, q) ∈ standing) := by
    intro n q hm
    obtain ⟨⟨m, r⟩, hr, he⟩ := List.mem_map.mp hm
    by_cases hq : r = .queued
    · simp only [hq, if_true, Prod.mk.injEq] at he
      obtain ⟨rfl, rfl⟩ := he
      exact Or.inl ⟨rfl, hq ▸ hr⟩
    · simp only [hq, if_false, Prod.mk.injEq] at he
      obtain ⟨rfl, rfl⟩ := he
      exact Or.inr ⟨hq, hr⟩
  constructor
  · intro n hm
    rcases hmem n _ hm with ⟨hp, -⟩ | ⟨hne, -⟩
    · contradiction
    · exact absurd rfl hne
  · intro hclosed
    contradiction
  · intro n q hm hq hc hl
    rcases hmem n q hm with ⟨hp, -⟩ | ⟨-, hm⟩
    · exact absurd hp hc
    · exact h.current n q hm hq hc hl
  · intro n hm
    rcases hmem n _ hm with ⟨hp, -⟩ | ⟨-, hm⟩
    · contradiction
    · exact h.lost n hm
  · intro n hm
    rcases hmem n _ hm with ⟨-, hm⟩ | ⟨-, hm⟩
    · exact ⟨(h.queued n hm).1, rfl⟩
    · exact ⟨(h.cancelled n hm).1, rfl⟩
  · intro n hm
    rcases hmem n _ hm with ⟨hp, -⟩ | ⟨-, hm⟩
    · contradiction
    · exact h.taken n hm
  · exact h.begun.imp_right fun hb => ⟨hb.1, List.mem_map.mpr ⟨_, hb.2, by simp⟩⟩
  · intro n hlt
    refine (h.ended n hlt).imp_left fun hin => ?_
    obtain ⟨e, he, rfl⟩ := List.mem_map.mp hin
    refine List.mem_map.mpr ⟨_, List.mem_map_of_mem he, ?_⟩
    by_cases hq : e.2 = .queued <;> simp [hq]

end Turns

variable {σ L : Type}

/-- Attempts are started in the order of their creation, and they take turns. -/
structure InTurn (s : Managed σ L) : Prop where
  /-- The attempts are started in order, none left out. -/
  inOrder : starts s.log = List.range (starts s.log).length
  /-- The outstanding attempts take turns. -/
  turns : ∃ next, Turns s.manager.standing s.manager.closed s.manager.created next
    (starts s.log).length (finishes s.log)

theorem inTurn_new (share : Bool) (timeout : Option Binary64) (hasProcess : Bool)
    (session : Session σ) : (new share timeout hasProcess session : Managed σ L).InTurn :=
  ⟨rfl, 0, Turns.new⟩

/-- Fewer attempts have been taken than created. -/
theorem InTurn.next_le {s : Managed σ L} (h : s.InTurn) (hr : s.Recorded) (ho : s.manager.Orderly)
    {next : Nat} (ht : Turns s.manager.standing s.manager.closed s.manager.created next
      (starts s.log).length (finishes s.log)) : next ≤ s.manager.created := by
  rcases ht.begun with he | ⟨he, hm⟩
  · rcases Nat.eq_zero_or_pos next with hz | hp
    · omega
    · have hlast : next - 1 ∈ starts s.log := by
        rw [h.inOrder, he, List.mem_range]
        omega
      have := hr.started _ hlast
      omega
  · obtain ⟨a, ha, hn⟩ := List.mem_map.mp hm
    have := ho.number_lt ha
    have := (Prod.mk.inj hn).1
    omega

/-- An attempt that has been started, is not over and has not been lost is the one started last, and
none stands as taken. -/
theorem InTurn.unfinished {s : Managed σ L} (h : s.InTurn) (hr : s.Recorded) {number : Nat}
    (hs : number ∈ starts s.log) (hf : number ∉ finishes s.log)
    (hl : (number, .lost) ∉ s.manager.standing) :
    number + 1 = (starts s.log).length ∧ ∀ n, (n, .taken) ∉ s.manager.standing := by
  obtain ⟨next, ht⟩ := h.turns
  have hlt : number < (starts s.log).length := by
    rwa [h.inOrder, List.mem_range] at hs
  have hle := ht.started_le
  rcases ht.ended number (hr.started number hs) with hover | hover
  · obtain ⟨⟨n, p⟩, hp, rfl⟩ := List.mem_map.mp hover
    have hcurrent : n + 1 = next := by
      refine ht.current n p hp ?_ ?_ ?_
      · rintro rfl
        have := (ht.queued n hp).1
        omega
      · rintro rfl
        have := (ht.cancelled n hp).1
        omega
      · rintro rfl
        exact hl hp
    refine ⟨by omega, fun m hm => ?_⟩
    have := ht.taken m hm
    have := ht.current m .taken hm nofun nofun nofun
    omega
  · exact absurd hover hf

/-- An outstanding attempt that is past its start and has not been lost is the one started last. -/
theorem InTurn.working {s : Managed σ L} (h : s.InTurn) (ho : s.manager.Orderly)
    {a : Attempt (Call L)} (ha : a ∈ s.manager.attempts) (hq : a.phase ≠ .queued)
    (ht : a.phase ≠ .taken) (hc : a.phase ≠ .cancelled) (hl : a.phase ≠ .lost) :
    a.number + 1 = (starts s.log).length := by
  obtain ⟨next, hturns⟩ := h.turns
  have hcurrent := hturns.current a.number a.phase (Manager.mem_standing ha) hq hc hl
  rcases hturns.begun with he | ⟨he, hm⟩
  · omega
  · have hlast : (starts s.log).length = a.number := by omega
    exact absurd (ho.phase_eq ha (hlast ▸ hm)).symm ht

/-- The attempt that the worker takes is the next one in the order of creation, and no other is at
work. -/
theorem Turns.next {s : Managed σ L} {next started : Nat} {finished : List Nat}
    (h : Turns s.manager.standing s.manager.closed s.manager.created next started finished)
    (ho : s.manager.Orderly) {a : Attempt (Call L)} (ha : s.manager.next? = some a) :
    a.number = next ∧ ∀ number p, (number, p) ∈ s.manager.standing →
      p = .queued ∨ p = .cancelled ∨ p = .lost := by
  obtain ⟨-, hidle, hfind⟩ := Manager.next?_eq_some ha
  obtain ⟨hmem, hqa⟩ := Manager.mem_of_next? ha
  have hstands : (a.number, .queued) ∈ s.manager.standing := hqa ▸ Manager.mem_standing hmem
  obtain ⟨hle, hopen⟩ := h.queued a.number hstands
  refine ⟨?_, ?_⟩
  · -- the one to be taken next waits too, and the worker takes the oldest that waits
    have hlt := ho.number_lt hmem
    have hnext := h.waits hopen _ (Nat.le_refl _) (by omega)
    obtain ⟨b, hb, he⟩ := List.mem_map.mp hnext
    obtain ⟨hbn, hbq⟩ := Prod.mk.inj he
    obtain ⟨-, before, after, hsplit, hbefore⟩ := List.find?_eq_some_iff_append.mp hfind
    have hsorted := ho.increasing
    rw [Manager.roster_fst, hsplit, List.map_append, List.map_cons, List.pairwise_append,
      List.pairwise_cons] at hsorted
    rw [hsplit] at hb
    rcases List.mem_append.mp hb with hb | hb
    · have hnot := hbefore b hb
      simp [hbq] at hnot
    · rcases List.mem_cons.mp hb with rfl | hb
      · exact hbn
      · have := hsorted.2.1.1 b.number (List.mem_map_of_mem hb)
        omega
  · intro number p hp
    obtain ⟨b, hb, he⟩ := List.mem_map.mp hp
    obtain ⟨rfl, rfl⟩ := Prod.mk.inj he
    obtain ⟨hrun, habandoned⟩ := hidle b hb
    cases hph : b.phase with
    | queued => exact .inl rfl
    | cancelled => exact .inr (.inl rfl)
    | lost => exact .inr (.inr rfl)
    | taken | starting | waiting => simp [Attempt.isRunning, hph] at hrun
    | abandoned => exact absurd hph habandoned

/-- What starts and finishes nothing need only let the standing take turns. -/
theorem InTurn.of_turns {s t : Managed σ L} {e : Event} (h : s.InTurn) (hlog : t.log = s.log)
    (hs : starts [e] = []) (hf : finishes [e] = [])
    (hturns : ∃ next, Turns t.manager.standing t.manager.closed t.manager.created next
      (starts s.log).length (finishes s.log)) : (t.record e).InTurn := by
  have hstarts : starts (t.record e).log = starts s.log := by
    rw [log_record, hlog, starts_concat _ hs]
  have hfinishes : finishes (t.record e).log = finishes s.log := by
    rw [log_record, hlog, finishes_concat _ hf]
  constructor
  · rw [hstarts]
    exact h.inOrder
  · rw [hstarts, hfinishes]
    exact hturns

/-- What also leaves all standing as they are keeps the turns. -/
theorem InTurn.keep {s t : Managed σ L} {e : Event} (h : s.InTurn) (hlog : t.log = s.log)
    (hstanding : t.manager.standing = s.manager.standing)
    (hcreated : t.manager.created = s.manager.created)
    (hclosed : t.manager.closed = s.manager.closed) (hs : starts [e] = [])
    (hf : finishes [e] = []) : (t.record e).InTurn := by
  refine h.of_turns hlog hs hf ?_
  rw [hstanding, hcreated, hclosed]
  exact h.turns

/-- A change at the start or the end of an attempt, said of the record after it. -/
theorem InTurn.of_log {s : Managed σ L} {e : Event} (started finished : List Nat)
    (hs : starts (s.log ++ [e]) = started) (hf : finishes (s.log ++ [e]) = finished)
    (hinOrder : started = List.range started.length)
    (hturns : ∃ next, Turns s.manager.standing s.manager.closed s.manager.created next
      started.length finished) : (s.record e).InTurn := by
  subst hs hf
  exact ⟨hinOrder, hturns⟩

theorem InTurn.create {s : Managed σ L} (h : s.InTurn) (hr : s.Recorded) (ho : s.manager.Orderly)
    (hopen : s.manager.closed = false) (host : Value) (params : List Value) (c : Call L)
    (calls call : Nat) :
    ({ s with manager := s.manager.create host params c, calls }.record
      (.accepted call)).InTurn := by
  obtain ⟨next, ht⟩ := h.turns
  refine h.of_turns rfl rfl rfl ⟨next, ?_⟩
  rw [Manager.standing_create]
  exact ht.create hopen (h.next_le hr ho ht)

theorem InTurn.take {s : Managed σ L} (h : s.InTurn) (ho : s.manager.Orderly)
    {a : Attempt (Call L)} (ha : s.manager.next? = some a) :
    ({ s with manager := s.manager.take a.number }.record (.taken a.number)).InTurn := by
  obtain ⟨next, ht⟩ := h.turns
  obtain ⟨hmem, hqa⟩ := Manager.mem_of_next? ha
  obtain ⟨rfl, hidle⟩ := ht.next ho ha
  have hstands : (a.number, .queued) ∈ s.manager.standing := hqa ▸ Manager.mem_standing hmem
  refine h.of_turns rfl rfl rfl ⟨a.number + 1, ?_⟩
  rw [Manager.take, ho.standing_update hmem rfl]
  exact ht.take hstands hidle

theorem InTurn.start {s : Managed σ L} (h : s.InTurn) (ho : s.manager.Orderly)
    {a : Attempt (Call L)} (ha : a ∈ s.manager.attempts) (hp : a.phase = .taken) :
    ({ s with manager := s.manager.start a.number }.record (.started a.number)).InTurn := by
  obtain ⟨next, ht⟩ := h.turns
  have hstands : (a.number, .taken) ∈ s.manager.standing := hp ▸ Manager.mem_standing ha
  refine .of_log (starts s.log ++ [a.number]) (finishes s.log) ?_ ?_ ?_ ⟨next, ?_⟩
  · simp [starts]
  · simp [finishes]
  · rw [List.length_append, List.length_singleton, List.range_succ, ← h.inOrder,
      ht.taken a.number hstands]
  · rw [List.length_append, List.length_singleton, Manager.start, ho.standing_update ha rfl]
    exact ht.start hstands

theorem InTurn.await {s : Managed σ L} (h : s.InTurn) (ho : s.manager.Orderly)
    {a : Attempt (Call L)} (ha : a ∈ s.manager.attempts) (hp : a.phase = .starting)
    (now : Binary64) :
    ({ s with manager := s.manager.await a.number now }.record (.awaited a.number)).InTurn := by
  obtain ⟨next, ht⟩ := h.turns
  have hstands : (a.number, .starting) ∈ s.manager.standing := hp ▸ Manager.mem_standing ha
  have hcurrent := ht.current a.number .starting hstands nofun nofun nofun
  have hstarted := h.working ho ha (by simp [hp]) (by simp [hp]) (by simp [hp]) (by simp [hp])
  refine h.of_turns rfl rfl rfl ⟨next, ?_⟩
  rw [Manager.await, ho.standing_update ha (by rw [if_pos hp]), if_pos hp]
  obtain ⟨hq, htaken, -, hc, -⟩ := Manager.phaseFrom_ne s.manager.timeout now a.outcome.isSome
  refine ht.move hcurrent hq hc htaken (by omega) fun n hn => ?_
  have := ht.current n .taken hn nofun nofun nofun
  omega

/-- An error in the start completes the attempt or takes the worker away from it. -/
theorem InTurn.raise {s : Managed σ L} (h : s.InTurn) (ho : s.manager.Orderly)
    {a : Attempt (Call L)} (ha : a ∈ s.manager.attempts) (hp : a.phase = .starting) (e : Raised) :
    ({ s with manager := s.manager.startRaised a.number e }.record
      (.raised a.number e)).InTurn := by
  unfold Manager.startRaised
  split
  · exact h.keep rfl (Manager.standing_complete ..) rfl rfl rfl rfl
  · obtain ⟨next, ht⟩ := h.turns
    have hstands : (a.number, .starting) ∈ s.manager.standing := hp ▸ Manager.mem_standing ha
    have hcurrent := ht.current a.number .starting hstands nofun nofun nofun
    have hstarted := h.working ho ha (by simp [hp]) (by simp [hp]) (by simp [hp]) (by simp [hp])
    refine h.of_turns rfl rfl rfl ⟨next, ?_⟩
    rw [ho.standing_update ha rfl]
    refine ht.move hcurrent nofun nofun nofun (by omega) fun n hn => ?_
    have := ht.current n .taken hn nofun nofun nofun
    omega

theorem InTurn.finish {s : Managed σ L} (h : s.InTurn) (ho : s.manager.Orderly)
    {a : Attempt (Call L)} (ha : a ∈ s.manager.attempts) (hr : a.isReady = true)
    (accepted o : Outcome) (session : Session σ) :
    ({ s with manager := s.manager.remove a o, session }.record
      (.finished a.number accepted o (a.listeners.map Call.number))).InTurn := by
  obtain ⟨next, hturns⟩ := h.turns
  refine .of_log (starts s.log) (finishes s.log ++ [a.number]) (starts_concat _ rfl) ?_
    h.inOrder ⟨next, ?_⟩
  · simp [finishes]
  · have hq : a.phase ≠ .queued := by
      intro hq
      simp [Attempt.isReady, hq] at hr
    rw [Manager.standing_remove]
    refine hturns.finish (Manager.mem_standing ha) hq fun ht => ?_
    simp [Attempt.isReady, ← ho.phase_eq ha ht] at hr

theorem InTurn.close {s : Managed σ L} (h : s.InTurn) :
    ({ s with manager := s.manager.close }.record (.closed s.manager.pending)).InTurn := by
  cases hc : s.manager.closed with
  | true =>
    have hclose : s.manager.close = s.manager := by simp [Manager.close, hc]
    rw [hclose]
    exact h.keep rfl rfl rfl rfl rfl rfl
  | false =>
    have hclosed : s.manager.close.closed = true := by simp [Manager.close, hc]
    obtain ⟨next, ht⟩ := h.turns
    refine h.of_turns rfl rfl rfl ⟨next, ?_⟩
    rw [Manager.standing_close hc, hclosed, (Manager.quiet_close _).created]
    exact ht.close

variable [Durable σ]

/-- Every rule keeps the turns, whatever is raised. -/
theorem Step.inTurn {s t : Managed σ L} {move : Move L} {e : Event} (h : Step s move e t)
    (hs : s.Sound) (ht : s.InTurn) : (t.record e).InTurn := by
  cases h with
  | accept hm =>
    obtain ⟨hopen, ⟨number, -, -, rfl⟩ | ⟨-, rfl⟩⟩ := Manager.obtain_eq_ok hm
    · exact ht.keep rfl (Manager.standing_join ..) rfl rfl rfl rfl
    · exact ht.create hs.recorded hs.orderly hopen ..
  | refuse | clear | setPolicy => exact ht.keep rfl rfl rfl rfl rfl rfl
  | take ha => exact ht.take hs.orderly ha
  | start ha hp => exact ht.start hs.orderly ha hp
  | report => exact ht.keep rfl (Manager.standing_complete ..) rfl rfl rfl rfl
  | raise ha hp => exact ht.raise hs.orderly ha hp _
  | await ha hp => exact ht.await hs.orderly ha hp _
  | expire =>
    refine ht.keep rfl (Manager.standing_expire ..) (Manager.quiet_expire ..).created ?_ rfl rfl
    simp only [Manager.expire]
    split <;> rfl
  | finish ha hr => exact ht.finish hs.orderly ha hr ..
  | @tell number raised c o left =>
    obtain ⟨rest, hafter, -⟩ := exists_afterTelling { s.manager with tellings := left } number
      raised
    rw [hafter]
    exact ht.keep rfl rfl rfl rfl rfl rfl
  | close => exact ht.close

end Managed

end BearerSession
