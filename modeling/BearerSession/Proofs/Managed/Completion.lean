import BearerSession.Proofs.Managed.Record

/-!
# The completions of an attempt

A report, an ordinary error with a text that a process raises, the end of a wait and the closing of
the manager complete attempts. An outstanding attempt knows the first of its completions and none of
the others. Only one whose wait is too long to be waited can be finished without any.
-/

namespace BearerSession

namespace Managed

/-- The outcome with which an event completes an attempt. -/
def completionOf (number : Nat) : Event → Option Outcome
  | .reported n o => if n = number then some o else none
  | .raised n e => if n = number ∧ e.isReportable = true then some (.ofRaised e) else none
  | .expired n limit => if n = number then some (.failure (.timedOut limit)) else none
  | .closed pending => if number ∈ pending then some (.failure .closed) else none
  | _ => none

/-- The completions of an attempt, in order. -/
def completions (number : Nat) (log : List Event) : List Outcome :=
  log.filterMap (completionOf number)

@[simp] theorem completions_append (number : Nat) (log more : List Event) :
    completions number (log ++ more) = completions number log ++ completions number more :=
  List.filterMap_append

/-- An event counts as the first completion only where there was none before. -/
theorem head?_completions_concat (number : Nat) (log : List Event) (e : Event) :
    (completions number (log ++ [e])).head? =
      (completions number log).head?.or (completionOf number e) := by
  rw [completions_append, List.head?_append]
  cases h : completionOf number e <;> simp [completions, h]

/-- No wait can be as long as an attempt may last. -/
def Overlong (timeout : Option Binary64) : Prop :=
  ∃ limit, timeout = some limit ∧ Seconds.longest.lt limit = true

variable {L : Type}

/-- An outstanding attempt and what it has become when an event is recorded. -/
structure Follows (timeout : Option Binary64) (e : Event) (a b : Attempt L) : Prop where
  /-- It keeps its number. -/
  number : b.number = a.number
  /-- A completion counts unless there was one before. -/
  outcome : b.outcome = a.outcome.or (completionOf a.number e)
  /-- It waits for its turn only as long as it is neither started nor completed. -/
  queued : b.phase = .queued →
    a.phase = .queued ∧ completionOf a.number e = none ∧ a.number ∉ starts [e]
  /-- It is abandoned only where no wait can be long enough. -/
  abandoned : b.phase = .abandoned → a.phase = .abandoned ∨ Overlong timeout
  /-- It is cancelled with a failure. -/
  cancelled : b.phase = .cancelled →
    a.phase = .cancelled ∨ ∃ reason, b.outcome = some (.failure reason)

/-- An event that does not concern an attempt leaves it as it is. -/
theorem follows_refl (timeout : Option Binary64) {e : Event} (a : Attempt L)
    (hc : completionOf a.number e = none) (hs : a.number ∉ starts [e]) : Follows timeout e a a :=
  ⟨rfl, by rw [hc, Option.or_none], fun hq => ⟨hq, hc, hs⟩, Or.inl, Or.inl⟩

/-- A completion of an attempt that is past the queue touches nothing but its outcome. -/
theorem follows_complete (timeout : Option Binary64) {e : Event} (a : Attempt L) {o : Outcome}
    (hc : completionOf a.number e = some o) (hq : a.phase ≠ .queued) :
    Follows timeout e a (a.complete o) :=
  ⟨rfl, by rw [hc]; rfl, fun h => absurd h hq, Or.inl, Or.inl⟩

/-- A move of the worker that completes nothing touches nothing but the phase. -/
theorem follows_rephase (timeout : Option Binary64) {e : Event} (a : Attempt L) {phase : Phase}
    (hc : completionOf a.number e = none)
    (hphase : phase ≠ .queued ∧ phase ≠ .abandoned ∧ phase ≠ .cancelled) :
    Follows timeout e a { a with phase } :=
  ⟨rfl, by rw [hc, Option.or_none], fun h => absurd h hphase.1, fun h => absurd h hphase.2.1,
    fun h => absurd h hphase.2.2⟩

variable {σ : Type}

/-- The outstanding attempts know their first completions. -/
structure Counted (s : Managed σ L) : Prop where
  /-- The outcome of an attempt is its first completion. -/
  outcome : ∀ a ∈ s.manager.attempts, a.outcome = (completions a.number s.log).head?
  /-- What has not been created has not been completed. -/
  fresh : ∀ number, s.manager.created ≤ number → completions number s.log = []
  /-- What waits for its turn has been neither completed nor started. -/
  queued : ∀ a ∈ s.manager.attempts, a.phase = .queued → a.outcome = none ∧ a.number ∉ starts s.log
  /-- Only what nobody could wait for is abandoned. -/
  abandoned : ∀ a ∈ s.manager.attempts, a.phase = .abandoned → Overlong s.manager.timeout
  /-- What has been cancelled has failed. -/
  cancelled : ∀ a ∈ s.manager.attempts, a.phase = .cancelled →
    ∃ reason, a.outcome = some (.failure reason)

theorem counted_new (share : Bool) (timeout : Option Binary64) (hasProcess : Bool)
    (session : Session σ) : (new share timeout hasProcess session : Managed σ L).Counted := by
  refine ⟨?_, fun _ _ => rfl, ?_, ?_, ?_⟩
  all_goals
    intro a ha
    simp [new, Manager.new] at ha

/-- What becomes of each attempt is enough for what becomes of all of them. -/
theorem Counted.follow {s t : Managed σ L} {e : Event} (h : s.Counted) (hlog : t.log = s.log)
    (hcreated : t.manager.created = s.manager.created)
    (htimeout : t.manager.timeout = s.manager.timeout)
    (hfresh : ∀ number, s.manager.created ≤ number → completionOf number e = none)
    (hf : ∀ b ∈ t.manager.attempts, ∃ a ∈ s.manager.attempts, Follows s.manager.timeout e a b) :
    (t.record e).Counted where
  outcome := by
    intro b hb
    obtain ⟨a, ha, hab⟩ := hf b hb
    rw [log_record, hlog, head?_completions_concat, hab.number, hab.outcome, h.outcome a ha]
  fresh := by
    intro number hn
    have hn' : s.manager.created ≤ number := hcreated ▸ hn
    rw [log_record, hlog, completions_append, h.fresh number hn']
    simp [completions, hfresh number hn']
  queued := by
    intro b hb hq
    obtain ⟨a, ha, hab⟩ := hf b hb
    obtain ⟨haq, hc, hs⟩ := hab.queued hq
    obtain ⟨hnone, hstarts⟩ := h.queued a ha haq
    refine ⟨by rw [hab.outcome, hnone, hc, Option.or_none], ?_⟩
    rw [log_record, hlog, hab.number, starts, List.filterMap_append, List.mem_append]
    exact fun hm => hm.elim hstarts hs
  abandoned := by
    intro b hb hp
    obtain ⟨a, ha, hab⟩ := hf b hb
    change Overlong t.manager.timeout
    rw [htimeout]
    exact (hab.abandoned hp).elim (h.abandoned a ha) id
  cancelled := by
    intro b hb hp
    obtain ⟨a, ha, hab⟩ := hf b hb
    rcases hab.cancelled hp with hc | hc
    · obtain ⟨reason, hr⟩ := h.cancelled a ha hc
      exact ⟨reason, by rw [hab.outcome, hr, Option.some_or]⟩
    · exact hc

/-- A change of one attempt. -/
theorem Counted.update {s : Managed σ L} {e : Event} (h : s.Counted) {number calls : Nat}
    {f : Attempt (Call L) → Attempt (Call L)}
    (hfresh : ∀ n, s.manager.created ≤ n → completionOf n e = none)
    (hother : ∀ n, n ≠ number → completionOf n e = none ∧ n ∉ starts [e])
    (hf : ∀ a ∈ s.manager.attempts, a.number = number → Follows s.manager.timeout e a (f a)) :
    ({ s with manager := s.manager.update number f, calls }.record e).Counted := by
  refine h.follow rfl rfl rfl hfresh fun b hb => ?_
  obtain ⟨a, ha, rfl⟩ := List.mem_map.mp hb
  refine ⟨a, ha, ?_⟩
  by_cases hn : a.number = number
  · rw [if_pos hn]
    exact hf a ha hn
  · rw [if_neg hn]
    exact follows_refl _ a (hother _ hn).1 (hother _ hn).2

/-- What concerns no attempt leaves the attempts that stay as they are. -/
theorem Counted.keep {s t : Managed σ L} {e : Event} (h : s.Counted) (hlog : t.log = s.log)
    (hcreated : t.manager.created = s.manager.created)
    (htimeout : t.manager.timeout = s.manager.timeout)
    (hattempts : ∀ a ∈ t.manager.attempts, a ∈ s.manager.attempts)
    (he : ∀ number, completionOf number e = none ∧ number ∉ starts [e]) : (t.record e).Counted :=
  h.follow hlog hcreated htimeout (fun number _ => (he number).1) fun a ha =>
    ⟨a, hattempts a ha, follows_refl _ a (he _).1 (he _).2⟩

/-- An attempt is created without any completion. -/
theorem Counted.create {s : Managed σ L} (h : s.Counted) (hr : s.Recorded) (host : Value)
    (params : List Value) (c : Call L) (calls call : Nat) :
    ({ s with manager := s.manager.create host params c, calls }.record (.accepted call)).Counted
    where
  outcome := by
    intro a ha
    have hnone : completionOf a.number (.accepted call) = none := rfl
    rw [log_record, head?_completions_concat, hnone, Option.or_none]
    rcases List.mem_append.mp ha with ha | ha
    · exact h.outcome a ha
    · rw [List.mem_singleton.mp ha, h.fresh _ (Nat.le_refl _)]
      rfl
  fresh := by
    intro number hn
    have hn' : s.manager.created ≤ number := Nat.le_of_succ_le hn
    rw [log_record, completions_append, h.fresh number hn']
    rfl
  queued := by
    intro a ha hq
    rw [log_record, starts_concat s.log (e := .accepted call) rfl]
    rcases List.mem_append.mp ha with ha | ha
    · exact h.queued a ha hq
    · rw [List.mem_singleton.mp ha]
      exact ⟨rfl, fun hm => Nat.lt_irrefl _ (hr.started _ hm)⟩
  abandoned := by
    intro a ha hp
    rcases List.mem_append.mp ha with ha | ha
    · exact h.abandoned a ha hp
    · rw [List.mem_singleton.mp ha] at hp
      contradiction
  cancelled := by
    intro a ha hp
    rcases List.mem_append.mp ha with ha | ha
    · exact h.cancelled a ha hp
    · rw [List.mem_singleton.mp ha] at hp
      contradiction

/-- Closing completes everything that is outstanding, and what waits for its turn fails so. -/
theorem Counted.close {s : Managed σ L} (h : s.Counted) (ho : s.manager.Orderly) :
    ({ s with manager := s.manager.close }.record (.closed s.manager.pending)).Counted := by
  by_cases hc : s.manager.closed = true
  · have hpending : s.manager.pending = [] := by simp [Manager.pending, hc]
    have hclose : s.manager.close = s.manager := by simp [Manager.close, hc]
    rw [hpending, hclose]
    refine h.keep rfl rfl rfl (fun a ha => ha) fun number => ⟨?_, ?_⟩
    · simp [completionOf]
    · simp [starts]
  · have hpending : s.manager.pending = s.manager.attempts.map Attempt.number := by
      simp [Manager.pending, hc]
    have hattempts : s.manager.close.attempts = s.manager.attempts.map Attempt.close := by
      simp [Manager.close, hc]
    refine h.follow rfl (Manager.quiet_close _).created ?_ ?_ ?_
    · simp [Manager.close, hc]
    · intro number hn
      have hnot : number ∉ s.manager.attempts.map Attempt.number := by
        intro hm
        have hlt := ho.bound number (by rwa [Manager.roster_fst])
        omega
      rw [completionOf, hpending, if_neg hnot]
    · intro b hb
      change b ∈ s.manager.close.attempts at hb
      rw [hattempts] at hb
      obtain ⟨a, ha, rfl⟩ := List.mem_map.mp hb
      have hin : a.number ∈ s.manager.attempts.map Attempt.number := List.mem_map_of_mem ha
      refine ⟨a, ha, rfl, ?_, ?_, ?_, ?_⟩
      · rw [completionOf, hpending, if_pos hin]
        rfl
      · intro hq
        simp only [Attempt.close] at hq
        split at hq
        · contradiction
        · next hno => exact absurd hq hno
      · intro hp
        simp only [Attempt.close] at hp
        split at hp
        · contradiction
        · exact Or.inl hp
      · intro hp
        by_cases hq : a.phase = .queued
        · have hnone := (h.queued a ha hq).1
          exact Or.inr ⟨.closed, by simp [Attempt.close, Attempt.complete, hnone]⟩
        · simp only [Attempt.close, if_neg hq] at hp
          exact Or.inl hp

variable [Durable σ]

/-- Every rule keeps the completions counted. -/
theorem Step.counted {s t : Managed σ L} {move : Move L} {e : Event} (h : Step s move e t)
    (ho : s.manager.Orderly) (hr : s.Recorded) (hc : s.Counted) : (t.record e).Counted := by
  have hlt : ∀ a ∈ s.manager.attempts, ∀ n, s.manager.created ≤ n → n ≠ a.number := by
    intro a ha n hn
    have := ho.number_lt ha
    omega
  cases h with
  | accept hm =>
    obtain ⟨-, ⟨number, -, -, rfl⟩ | ⟨-, rfl⟩⟩ := Manager.obtain_eq_ok hm
    · refine hc.update (fun _ _ => rfl) (fun _ _ => ⟨rfl, ?_⟩) fun a _ _ =>
        ⟨rfl, ?_, fun hq => ⟨hq, rfl, ?_⟩, Or.inl, Or.inl⟩
      · simp [starts]
      · simp [completionOf]
      · simp [starts]
    · exact hc.create hr ..
  | refuse | clear | setPolicy =>
    exact hc.keep rfl rfl rfl (fun a ha => ha) fun number => ⟨rfl, by simp [starts]⟩
  | @take a ha =>
    exact hc.update (fun _ _ => rfl) (fun n hn => ⟨rfl, by simp [starts]⟩)
      fun b _ _ => follows_rephase _ b rfl (by decide)
  | @start a ha =>
    exact hc.update (fun _ _ => rfl) (fun n hn => ⟨rfl, by simpa [starts] using hn⟩)
      fun b _ _ => follows_rephase _ b rfl (by decide)
  | @report number o hn =>
    refine hc.update (fun n hle => ?_) (fun n hne => ?_) fun a ha hna => ?_
    · have hlt' := hr.started number hn
      exact if_neg (by omega)
    · exact ⟨if_neg (Ne.symm hne), by simp [starts]⟩
    · refine follows_complete _ a (if_pos hna.symm) fun hq => ?_
      exact (hc.queued a ha hq).2 (hna ▸ hn)
  | @raise a e ha hp =>
    by_cases he : e.isReportable = true
    · rw [Manager.startRaised, if_pos he]
      refine hc.update (fun n hn => ?_) (fun n hne => ?_) fun b hb hba => ?_
      · exact if_neg fun h => hlt a ha n hn h.1.symm
      · exact ⟨if_neg fun h => hne h.1.symm, by simp [starts]⟩
      · refine follows_complete _ b (if_pos ⟨hba.symm, he⟩) fun hq => ?_
        rw [ho.eq_of_number_eq hb ha hba, hp] at hq
        contradiction
    · have hnone : ∀ n, completionOf n (.raised a.number e) = none := fun n =>
        if_neg fun h => he h.2
      rw [Manager.startRaised, if_neg he]
      exact hc.update (fun n _ => hnone n) (fun n _ => ⟨hnone n, by simp [starts]⟩) fun b _ _ =>
        follows_rephase _ b (hnone _) (by decide)
  | @await a now ha hp =>
    refine hc.update (fun _ _ => rfl) (fun _ _ => ⟨rfl, by simp [starts]⟩) fun b hb hba => ?_
    have hbp : b.phase = .starting := by rw [ho.eq_of_number_eq hb ha hba, hp]
    rw [if_pos hbp]
    refine ⟨rfl, by simp [completionOf], ?_, ?_, ?_⟩
    all_goals
      intro hph
      simp only [Manager.phaseFrom] at hph
      split at hph
      · contradiction
      · next limit ht =>
        split at hph
        · next hover =>
          first
          | contradiction
          | exact Or.inr ⟨limit, ht, (Bool.and_eq_true_iff.mp hover).2⟩
        · contradiction
  | @expire a deadline limit ha hp ht =>
    have hexpire : s.manager.expire a.number =
        s.manager.complete a.number (.failure (.timedOut limit)) := by simp [Manager.expire, ht]
    rw [hexpire]
    refine hc.update (fun n hn => ?_) (fun n hne => ?_) fun b hb hba => ?_
    · exact if_neg (hlt a ha n hn).symm
    · exact ⟨if_neg (Ne.symm hne), by simp [starts]⟩
    · refine follows_complete _ b (if_pos hba.symm) fun hq => ?_
      rw [ho.eq_of_number_eq hb ha hba, hp] at hq
      contradiction
  | finish =>
    exact hc.keep rfl rfl rfl (fun a ha => (List.mem_filter.mp ha).1) fun number =>
      ⟨rfl, by simp [starts]⟩
  | @tell number raised c o left hn =>
    obtain ⟨rest, hafter, -⟩ := exists_afterTelling { s.manager with tellings := left } number
      raised
    rw [hafter]
    exact hc.keep rfl rfl rfl (fun a ha => ha) fun number => ⟨rfl, by simp [starts]⟩
  | close => exact hc.close ho

/-- What every rule keeps. -/
structure Sound (s : Managed σ L) : Prop where
  /-- The manager is orderly. -/
  orderly : s.manager.Orderly
  /-- The record fits it. -/
  recorded : s.Recorded
  /-- Its attempts know their first completions. -/
  counted : s.Counted

omit [Durable σ] in
theorem sound_new (share : Bool) (timeout : Option Binary64) (hasProcess : Bool)
    (session : Session σ) : (new share timeout hasProcess session : Managed σ L).Sound :=
  ⟨Manager.orderly_new share timeout hasProcess, recorded_new share timeout hasProcess session,
    counted_new share timeout hasProcess session⟩

theorem Step.sound {s t : Managed σ L} {move : Move L} {e : Event} (h : Step s move e t)
    (hs : s.Sound) : (t.record e).Sound :=
  ⟨h.orderly hs.orderly, h.recorded hs.orderly hs.recorded,
    h.counted hs.orderly hs.recorded hs.counted⟩

theorem Sound.run {s : Managed σ L} (h : s.Sound) (moves : List (Move L)) : (s.run moves).Sound :=
  run_induction h fun _ _ _ _ _ hs hstep => hstep.sound hs

/-- Manager, record and completions fit each other after every run. -/
theorem run_sound (share : Bool) (timeout : Option Binary64) (hasProcess : Bool)
    (session : Session σ) (moves : List (Move L)) :
    ((new share timeout hasProcess session : Managed σ L).run moves).Sound :=
  (sound_new share timeout hasProcess session).run moves

/-- No rule changes the settings of a manager. -/
theorem Step.settings_eq {s t : Managed σ L} {move : Move L} {e : Event} (h : Step s move e t) :
    t.manager.share = s.manager.share ∧ t.manager.timeout = s.manager.timeout := by
  cases h with
  | accept hm =>
    obtain ⟨-, ⟨number, -, -, rfl⟩ | ⟨-, rfl⟩⟩ := Manager.obtain_eq_ok hm
    · exact ⟨rfl, rfl⟩
    · exact ⟨rfl, rfl⟩
  | raise | expire | close =>
    simp only [Manager.startRaised, Manager.expire, Manager.close]
    split <;> exact ⟨rfl, rfl⟩
  | @tell number raised c o left =>
    obtain ⟨rest, hafter, -⟩ := exists_afterTelling { s.manager with tellings := left } number
      raised
    rw [hafter]
    exact ⟨rfl, rfl⟩
  | _ => exact ⟨rfl, rfl⟩

theorem run_timeout (s : Managed σ L) (moves : List (Move L)) :
    (s.run moves).manager.timeout = s.manager.timeout :=
  run_induction (P := fun t => t.manager.timeout = s.manager.timeout) rfl
    fun _ _ _ _ _ ht h => h.settings_eq.2.trans ht

end Managed

end BearerSession
