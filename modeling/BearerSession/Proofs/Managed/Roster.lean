import Mathlib.Data.List.Nodup
import BearerSession.Proofs.Managed.Steps

/-!
# The roster of a manager

The roster lists the outstanding attempts, each with those who wait for it. Completions, starts,
waits and deadlines leave it alone; a call adds a listener or an attempt to it, and finishing an
attempt takes it off. The attempts on it have different numbers, none that is still to be given
out, and the attempt in flight is one of them.
-/

namespace BearerSession

namespace Telling

variable {L : Type}

/-- The telling of a number is the first that has it, and its first listener is the one told. -/
theorem next?_eq_some {number : Nat} {tellings left : List (Telling L)} {l : L} {o : Outcome}
    (h : next? number tellings = some (l, o, left)) :
    ∃ before t rest after, tellings = before ++ t :: after ∧ t.number = number ∧
      t.outcome = o ∧ t.rest = l :: rest ∧ (∀ b ∈ before, b.number ≠ number) ∧
      left = before ++ Manager.untold ({ t with rest } :: after) := by
  induction tellings generalizing left with
  | nil => contradiction
  | cons t more ih =>
    unfold next? at h
    split at h
    · next hn =>
      cases hr : t.rest with
      | nil => simp [hr] at h
      | cons l' rest =>
        simp only [hr, Option.some.injEq, Prod.mk.injEq] at h
        obtain ⟨rfl, rfl, rfl⟩ := h
        exact ⟨[], t, rest, more, rfl, hn, rfl, hr, by simp, rfl⟩
    · next hn =>
      obtain ⟨⟨l', o', left'⟩, hmore, he⟩ := Option.map_eq_some_iff.mp h
      cases he
      obtain ⟨before, u, rest, after, rfl, hu, ho, hr, hb, rfl⟩ := ih hmore
      refine ⟨t :: before, u, rest, after, rfl, hu, ho, hr, ?_, rfl⟩
      rintro b (_ | ⟨_, hb'⟩)
      · exact hn
      · exact hb b hb'

/-- A telling in which somebody is still to be told can go on. -/
theorem exists_next? {tellings : List (Telling L)} {number : Nat}
    (h : ∀ t ∈ tellings, t.rest ≠ []) (hn : ∃ t ∈ tellings, t.number = number) :
    ∃ l o left, next? number tellings = some (l, o, left) := by
  induction tellings with
  | nil => simp at hn
  | cons t more ih =>
    unfold next?
    by_cases ht : t.number = number
    · obtain ⟨l, rest, hr⟩ := List.exists_cons_of_ne_nil (h t List.mem_cons_self)
      simp [ht, hr]
    · have hmore : ∃ u ∈ more, u.number = number := by
        obtain ⟨u, hu, hun⟩ := hn
        rcases List.mem_cons.mp hu with rfl | hu
        · exact absurd hun ht
        · exact ⟨u, hu, hun⟩
      obtain ⟨l, o, left, hl⟩ := ih (fun u hu => h u (List.mem_cons_of_mem _ hu)) hmore
      exact ⟨l, o, t :: left, by simp [ht, hl]⟩

end Telling

/-- In a list whose keys differ, an element stands once, before all that have another key. -/
theorem perm_cons_filter_ne {α : Type} (key : α → Nat) {l : List α} {a : α}
    (hl : (l.map key).Nodup) (ha : a ∈ l) : l.Perm (a :: l.filter fun b => key b ≠ key a) := by
  induction l with
  | nil => simp at ha
  | cons x xs ih =>
    rw [List.map_cons, List.nodup_cons] at hl
    rcases List.mem_cons.mp ha with rfl | hxs
    · have hrest : (xs.filter fun b => key b ≠ key a) = xs := by
        refine List.filter_eq_self.mpr fun b hb => ?_
        have hne : key b ≠ key a := fun he => hl.1 (he ▸ List.mem_map_of_mem hb)
        simpa using hne
      simp only [List.filter_cons, ne_eq, not_true_eq_false, decide_false, Bool.false_eq_true,
        if_false]
      rw [hrest]
    · have hne : key x ≠ key a := fun he => hl.1 (he ▸ List.mem_map_of_mem hxs)
      rw [List.filter_cons_of_pos (by simpa using hne)]
      exact ((ih hl.2 hxs).cons x).trans (.swap ..)

namespace Manager

variable {L : Type}

/-- The outstanding attempts by number, each with those who wait for it. -/
def roster (m : Manager L) : List (Nat × List L) :=
  m.attempts.map fun a => (a.number, a.listeners)

@[simp] theorem roster_fst (m : Manager L) :
    m.roster.map Prod.fst = m.attempts.map Attempt.number := by
  simp [roster, Function.comp_def]

/-- Telling nobody is no telling. -/
theorem flatMap_untold (tellings : List (Telling L)) :
    (untold tellings).flatMap Telling.rest = tellings.flatMap Telling.rest := by
  induction tellings with
  | nil => rfl
  | cons t more ih =>
    unfold untold at ih ⊢
    cases hr : t.rest with
    | nil => simp [hr, ih]
    | cons l rest => simp [hr, ih]

theorem mem_untold {tellings : List (Telling L)} {t : Telling L} :
    t ∈ untold tellings ↔ t ∈ tellings ∧ t.rest ≠ [] := by
  simp [untold]

/-- A change that leaves the roster, the attempt in flight and the tellings alone. -/
structure Quiet (m m' : Manager L) : Prop where
  /-- The same attempts with the same listeners. -/
  roster : m'.roster = m.roster
  /-- The same attempt in flight. -/
  inflight : m'.inflight = m.inflight
  /-- No new attempt. -/
  created : m'.created = m.created
  /-- The same listeners to be told. -/
  tellings : m'.tellings = m.tellings

theorem quiet_refl (m : Manager L) : m.Quiet m := ⟨rfl, rfl, rfl, rfl⟩

/-- A change of an attempt that keeps its number and its listeners is quiet. -/
theorem quiet_update (m : Manager L) (number : Nat) {f : Attempt L → Attempt L}
    (hf : ∀ a, (f a).number = a.number ∧ (f a).listeners = a.listeners) :
    m.Quiet (m.update number f) where
  roster := by
    simp only [Manager.roster, update, List.map_map]
    refine List.map_congr_left fun a _ => ?_
    by_cases ha : a.number = number <;> simp [ha, hf a]
  inflight := rfl
  created := rfl
  tellings := rfl

theorem quiet_complete (m : Manager L) (number : Nat) (o : Outcome) :
    m.Quiet (m.complete number o) :=
  m.quiet_update number fun _ => ⟨rfl, rfl⟩

theorem quiet_take (m : Manager L) (number : Nat) : m.Quiet (m.take number) :=
  m.quiet_update number fun _ => ⟨rfl, rfl⟩

theorem quiet_start (m : Manager L) (number : Nat) : m.Quiet (m.start number) :=
  m.quiet_update number fun _ => ⟨rfl, rfl⟩

theorem quiet_startRaised (m : Manager L) (number : Nat) (e : Raised) :
    m.Quiet (m.startRaised number e) := by
  unfold startRaised
  split
  · exact m.quiet_complete number _
  · exact m.quiet_update number fun _ => ⟨rfl, rfl⟩

theorem quiet_await (m : Manager L) (number : Nat) (now : Binary64) :
    m.Quiet (m.await number now) :=
  m.quiet_update number fun a => by by_cases ha : a.phase = .starting <;> simp [ha]

theorem quiet_expire (m : Manager L) (number : Nat) : m.Quiet (m.expire number) := by
  unfold expire
  split
  · exact m.quiet_complete number _
  · exact m.quiet_refl

theorem quiet_close (m : Manager L) : m.Quiet m.close := by
  unfold close
  split
  · exact m.quiet_refl
  · refine ⟨?_, rfl, rfl, rfl⟩
    simp [Manager.roster, Function.comp_def, Attempt.close, Attempt.complete]

theorem roster_join (m : Manager L) (number : Nat) (l : L) :
    (m.join number l).roster =
      m.roster.map fun e => if e.1 = number then (e.1, e.2 ++ [l]) else e := by
  simp only [roster, join, update, List.map_map]
  refine List.map_congr_left fun a _ => ?_
  by_cases ha : a.number = number <;> simp [ha]

/-- Joining changes no number. -/
theorem roster_join_fst (m : Manager L) (number : Nat) (l : L) :
    (m.join number l).roster.map Prod.fst = m.roster.map Prod.fst := by
  rw [roster_join, List.map_map]
  refine List.map_congr_left fun e _ => ?_
  by_cases he : e.1 = number <;> simp [he]

@[simp] theorem roster_create (m : Manager L) (host : Value) (params : List Value) (l : L) :
    (m.create host params l).roster = m.roster ++ [(m.created, [l])] := by
  simp [roster, create]

theorem roster_remove (m : Manager L) (a : Attempt L) (o : Outcome) :
    (m.remove a o).roster = m.roster.filter fun e => e.1 ≠ a.number := by
  simp [roster, remove, List.filter_map, Function.comp_def]

/-- What holds of a manager between its changes. -/
structure Orderly (m : Manager L) : Prop where
  /-- The outstanding attempts stand in the order of their creation. -/
  increasing : (m.roster.map Prod.fst).Pairwise (· < ·)
  /-- Their numbers have been given out. -/
  bound : ∀ number ∈ m.roster.map Prod.fst, number < m.created
  /-- The attempt in flight is outstanding. -/
  inflight : ∀ number, m.inflight = some number → number ∈ m.roster.map Prod.fst
  /-- Where listeners are being told, somebody is still to be told. -/
  untold : ∀ t ∈ m.tellings, t.rest ≠ []

namespace Orderly

variable {m m' : Manager L}

theorem nodup (h : m.Orderly) : (m.attempts.map Attempt.number).Nodup := by
  rw [← roster_fst]
  exact h.increasing.imp fun hlt => Nat.ne_of_lt hlt

/-- Two outstanding attempts of one number are the same. -/
theorem eq_of_number_eq (h : m.Orderly) {a b : Attempt L} (ha : a ∈ m.attempts)
    (hb : b ∈ m.attempts) (he : a.number = b.number) : a = b :=
  List.inj_on_of_nodup_map h.nodup ha hb he

theorem number_lt (h : m.Orderly) {a : Attempt L} (ha : a ∈ m.attempts) : a.number < m.created :=
  h.bound a.number (by simpa using ⟨a, ha, rfl⟩)

theorem quiet (h : m.Orderly) (hq : m.Quiet m') : m'.Orderly where
  increasing := hq.roster ▸ h.increasing
  bound := by
    rw [hq.roster, hq.created]
    exact h.bound
  inflight := by
    rw [hq.roster, hq.inflight]
    exact h.inflight
  untold := hq.tellings ▸ h.untold

/-- Joining an attempt changes nothing but its listeners. -/
theorem join (h : m.Orderly) (number : Nat) (l : L) : (m.join number l).Orderly := by
  have hkeys := m.roster_join_fst number l
  exact ⟨hkeys ▸ h.increasing, hkeys ▸ h.bound, hkeys ▸ h.inflight, h.untold⟩

/-- A new attempt takes the next number and is the one in flight. -/
theorem create (h : m.Orderly) (host : Value) (params : List Value) (l : L) :
    (m.create host params l).Orderly where
  increasing := by
    rw [roster_create, List.map_append, List.pairwise_append]
    exact ⟨h.increasing, by simp, fun a ha b hb => by
      rw [List.mem_map] at hb
      obtain ⟨e, he, rfl⟩ := hb
      rw [List.mem_singleton] at he
      exact he ▸ h.bound a ha⟩
  bound := by
    intro number hn
    rw [roster_create, List.map_append, List.mem_append] at hn
    rcases hn with hn | hn
    · exact Nat.lt_succ_of_lt (h.bound number hn)
    · have he : number = m.created := by simpa using hn
      exact he ▸ Nat.lt_succ_self _
  inflight := by
    intro number hn
    have he : m.created = number := Option.some.inj hn
    simp [he]
  untold := h.untold

/-- A finished attempt leaves the others in their order and is no longer in flight. -/
theorem remove (h : m.Orderly) (a : Attempt L) (o : Outcome) : (m.remove a o).Orderly where
  increasing := by
    rw [roster_remove]
    exact h.increasing.sublist ((List.filter_sublist).map _)
  bound := by
    intro number hn
    rw [roster_remove] at hn
    exact h.bound number ((List.filter_sublist.map _).subset hn)
  inflight := by
    intro number hn
    have hne : m.inflight = some number ∧ number ≠ a.number := by
      simp only [Manager.remove] at hn
      split at hn
      · contradiction
      · next hi => exact ⟨hn, fun he => hi (he ▸ hn)⟩
    obtain ⟨e, he, rfl⟩ := List.mem_map.mp (h.inflight number hne.1)
    rw [roster_remove]
    exact List.mem_map_of_mem (List.mem_filter.mpr ⟨he, by simpa using hne.2⟩)
  untold := fun t ht => (mem_untold.mp ht).2

/-- Telling the next listener leaves nobody told in a telling that is still kept. -/
theorem tell (h : m.Orderly) {number : Nat} {l : L} {o : Outcome} {left : List (Telling L)}
    (hn : Telling.next? number m.tellings = some (l, o, left)) :
    ({ m with tellings := left } : Manager L).Orderly := by
  refine ⟨h.increasing, h.bound, h.inflight, fun t ht => ?_⟩
  obtain ⟨before, u, rest, after, htell, -, -, -, -, rfl⟩ := Telling.next?_eq_some hn
  rcases List.mem_append.mp ht with ht | ht
  · exact h.untold t (by rw [htell]; exact List.mem_append_left _ ht)
  · exact (mem_untold.mp ht).2

/-- Listeners may be given up. -/
theorem giveUp (h : m.Orderly) {left : List (Telling L)} (hl : ∀ t ∈ left, t ∈ m.tellings) :
    ({ m with tellings := left } : Manager L).Orderly :=
  ⟨h.increasing, h.bound, h.inflight, fun t ht => h.untold t (hl t ht)⟩

end Orderly

theorem orderly_new (share : Bool) (timeout : Option Binary64) (hasProcess : Bool) :
    (new share timeout hasProcess : Manager L).Orderly :=
  ⟨by simp [new, roster], by simp [new, roster], by simp [new], by simp [new]⟩

end Manager

namespace Managed

variable {σ L : Type} [Durable σ] {s t : Managed σ L} {move : Move L} {e : Event}

/-- Every rule keeps the manager orderly. -/
theorem Step.orderly (h : Step s move e t) (ho : s.manager.Orderly) : t.manager.Orderly := by
  cases h with
  | accept hm =>
    obtain ⟨-, ⟨number, -, -, rfl⟩ | ⟨-, rfl⟩⟩ := Manager.obtain_eq_ok hm
    · exact ho.join number _
    · exact ho.create _ _ _
  | refuse | clear | setPolicy => exact ho
  | take => exact ho.quiet (Manager.quiet_take ..)
  | start => exact ho.quiet (Manager.quiet_start ..)
  | report => exact ho.quiet (Manager.quiet_complete ..)
  | raise => exact ho.quiet (Manager.quiet_startRaised ..)
  | await => exact ho.quiet (Manager.quiet_await ..)
  | expire => exact ho.quiet (Manager.quiet_expire ..)
  | finish => exact ho.remove _ _
  | @tell number raised c o left hn =>
    obtain ⟨rest, hafter, hrest⟩ := exists_afterTelling { s.manager with tellings := left } number
      raised
    rw [hafter]
    exact (ho.tell hn).giveUp hrest
  | close => exact ho.quiet (Manager.quiet_close _)

/-- The manager is orderly after every run. -/
theorem run_orderly (share : Bool) (timeout : Option Binary64) (hasProcess : Bool)
    (session : Session σ) (moves : List (Move L)) :
    ((new share timeout hasProcess session : Managed σ L).run moves).manager.Orderly :=
  run_induction (Manager.orderly_new share timeout hasProcess) fun _ _ _ _ _ ho h => h.orderly ho

end Managed

end BearerSession
