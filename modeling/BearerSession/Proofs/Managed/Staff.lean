import BearerSession.Proofs.Managed.Membership
import BearerSession.Proofs.Managed.Turns

/-!
# Where the worker is

The worker goes through the attempts in order. An error of which no failure can be made, raised in
starting a process, takes it away from the attempt: one that ends threads, or one without a text.
Each attempt passes through its phases accordingly, and the record says where it stands: which
processes have been started, which attempts the worker has been taken from, and which are over. This
is so in every run, whatever is raised in it.
-/

namespace BearerSession

/-- Whether the process of an attempt in a phase has been started. -/
def Phase.isPastStart : Phase → Bool
  | .starting | .waiting _ | .abandoned | .lost => true
  | _ => false

namespace Managed

/-- The attempts in whose start an error was raised of which no failure can be made. -/
def crashes (log : List Event) : List Nat :=
  log.filterMap fun
    | .raised number e => if e.isReportable then none else some number
    | _ => none

@[simp] theorem crashes_append (log more : List Event) :
    crashes (log ++ more) = crashes log ++ crashes more :=
  List.filterMap_append

variable {σ L : Type} {s t : Managed σ L} {move : Move L} {e : Event}

section Phases

/-- What the worker waits for, or cannot wait for, is past its start. -/
theorem isPastStart_phaseFrom (timeout : Option Binary64) (now : Binary64) (completed : Bool) :
    (Manager.phaseFrom timeout now completed).isPastStart = true := by
  unfold Manager.phaseFrom
  split
  · rfl
  · split <;> rfl

/-- How an attempt can go from one phase to another when an event is recorded. -/
inductive Passes (e : Event) (number : Nat) : Phase → Phase → Prop
  | stays {p} : number ∉ starts [e] → number ∉ crashes [e] → Passes e number p p
  | takes : e = .taken number → Passes e number .queued .taken
  | starts : e = .started number → Passes e number .taken .starting
  | crashes {err} : e = .raised number err → err.isReportable = false →
      Passes e number .starting .lost
  | awaits {p} : e = .awaited number → p.isPastStart = true → p ≠ .lost →
      Passes e number .starting p
  | cancels {pending} : e = .closed pending → Passes e number .queued .cancelled

/-- An attempt is lost when the worker is taken from it, and stays so. -/
theorem Passes.lost_iff {number : Nat} {p q : Phase} (h : Passes e number q p) :
    p = .lost ↔ q = .lost ∨ number ∈ Managed.crashes [e] := by
  cases h with
  | stays _ hc => simp [hc]
  | takes he => simp [he, Managed.crashes]
  | starts he => simp [he, Managed.crashes]
  | crashes he herr => simp [he, herr, Managed.crashes]
  | awaits he _ hl => simp [he, hl, Managed.crashes]
  | cancels he => simp [he, Managed.crashes]

/-- An attempt is past its start when its process is started, and stays so. -/
theorem Passes.started_iff {number : Nat} {p q : Phase} (h : Passes e number q p) :
    p.isPastStart = true ↔ q.isPastStart = true ∨ number ∈ Managed.starts [e] := by
  cases h with
  | stays hs => simp [hs]
  | takes he => simp [he, Managed.starts, Phase.isPastStart]
  | starts he => simp [he, Managed.starts, Phase.isPastStart]
  | crashes he => simp [Phase.isPastStart]
  | awaits _ hp => exact iff_of_true hp (.inl rfl)
  | cancels he => simp [he, Managed.starts, Phase.isPastStart]

/-- An attempt stands as taken since the worker took it. -/
theorem Passes.taken_cases {number : Nat} {q : Phase} (h : Passes e number q .taken) :
    q = .taken ∨ e = .taken number := by
  cases h with
  | stays => exact .inl rfl
  | takes he => exact .inr he
  | awaits _ hp => simp [Phase.isPastStart] at hp

/-- An event that neither starts an attempt nor takes the worker away from one lets all standing
stay as they are. -/
theorem passes_keep (hs : starts [e] = []) (hc : crashes [e] = [])
    (ht : t.manager.standing = s.manager.standing) {number : Nat} {p : Phase}
    (hp : (number, p) ∈ t.manager.standing) :
    ∃ q, (number, q) ∈ s.manager.standing ∧ Passes e number q p :=
  ⟨p, ht ▸ hp, .stays (by simp [hs]) (by simp [hc])⟩

/-- A change of one attempt lets it pass to another phase, and the others stay in theirs. -/
theorem passes_update (ho : s.manager.Orderly) {a : Attempt (Call L)} (ha : a ∈ s.manager.attempts)
    {f : Attempt (Call L) → Attempt (Call L)} (hf : (f a).number = a.number)
    (hother : ∀ n, n ≠ a.number → n ∉ starts [e] ∧ n ∉ crashes [e])
    (hpass : Passes e a.number a.phase (f a).phase) {number : Nat} {p : Phase}
    (hp : (number, p) ∈ (s.manager.update a.number f).standing) :
    ∃ q, (number, q) ∈ s.manager.standing ∧ Passes e number q p := by
  rw [ho.standing_update ha hf] at hp
  rcases Turns.mem_move hp with ⟨rfl, rfl⟩ | ⟨hne, hp⟩
  · exact ⟨a.phase, Manager.mem_standing ha, hpass⟩
  · exact ⟨p, hp, .stays (hother number hne).1 (hother number hne).2⟩

variable [Durable σ]

/-- What a rule does to the phases: whoever stands has passed there from where it stood, or is new
and waits for its turn. -/
theorem Step.passes (h : Step s move e t) (ho : s.manager.Orderly) {number : Nat} {p : Phase}
    (hp : (number, p) ∈ t.manager.standing) :
    (number = s.manager.created ∧ p = .queued ∧ e = .accepted s.calls) ∨
      ∃ q, (number, q) ∈ s.manager.standing ∧ Passes e number q p := by
  cases h with
  | accept hm =>
    obtain ⟨-, ⟨joined, -, -, rfl⟩ | ⟨-, rfl⟩⟩ := Manager.obtain_eq_ok hm
    · exact .inr (passes_keep rfl rfl (Manager.standing_join ..) hp)
    · change _ ∈ (s.manager.create _ _ _).standing at hp
      rw [Manager.standing_create, List.mem_append, List.mem_singleton] at hp
      rcases hp with hp | hp
      · exact .inr ⟨p, hp, .stays (by simp [Managed.starts]) (by simp [Managed.crashes])⟩
      · obtain ⟨rfl, rfl⟩ := Prod.mk.inj hp
        exact .inl ⟨rfl, rfl, rfl⟩
  | refuse | clear | setPolicy => exact .inr (passes_keep rfl rfl rfl hp)
  | take ha =>
    obtain ⟨hmem, hq⟩ := Manager.mem_of_next? ha
    refine .inr (passes_update ho hmem rfl (fun n hn => ⟨?_, ?_⟩) ?_ hp)
    · simp [Managed.starts]
    · simp [Managed.crashes]
    · rw [hq]
      exact .takes rfl
  | start ha hq =>
    refine .inr (passes_update ho ha rfl (fun n hn => ⟨?_, ?_⟩) ?_ hp)
    · simpa [Managed.starts] using hn
    · simp [Managed.crashes]
    · rw [hq]
      exact .starts rfl
  | report => exact .inr (passes_keep rfl rfl (Manager.standing_complete ..) hp)
  | @raise a err ha hq =>
    right
    cases herr : err.isReportable with
    | true =>
      refine passes_keep rfl (by simp [Managed.crashes, herr]) ?_ hp
      rw [Manager.startRaised, if_pos herr]
      exact Manager.standing_complete ..
    | false =>
      simp only [Manager.startRaised, herr, Bool.false_eq_true, if_false] at hp
      refine passes_update ho ha rfl (fun n hn => ⟨?_, ?_⟩) ?_ hp
      · simp [Managed.starts]
      · simpa [Managed.crashes, herr] using hn
      · rw [hq]
        exact .crashes rfl herr
  | @await a now ha hq =>
    refine .inr (passes_update ho ha (by rw [if_pos hq]) (fun n hn => ⟨?_, ?_⟩) ?_ hp)
    · simp [Managed.starts]
    · simp [Managed.crashes]
    · obtain ⟨-, -, -, -, hlost⟩ := Manager.phaseFrom_ne s.manager.timeout now a.outcome.isSome
      rw [if_pos hq, hq]
      exact .awaits rfl (isPastStart_phaseFrom ..) hlost
  | expire => exact .inr (passes_keep rfl rfl (Manager.standing_expire ..) hp)
  | finish =>
    change _ ∈ (s.manager.remove _ _).standing at hp
    rw [Manager.standing_remove] at hp
    exact .inr ⟨p, (List.mem_filter.mp hp).1, .stays (by simp [Managed.starts])
      (by simp [Managed.crashes])⟩
  | @tell n raised c o left hn =>
    obtain ⟨rest, hafter, -⟩ := exists_afterTelling { s.manager with tellings := left } n raised
    rw [hafter] at hp
    exact .inr (passes_keep rfl rfl rfl hp)
  | close =>
    right
    cases hc : s.manager.closed with
    | true =>
      refine passes_keep rfl rfl ?_ hp
      rw [Manager.close, if_pos hc]
    | false =>
      rw [Manager.standing_close hc] at hp
      obtain ⟨⟨n, q⟩, hstands, he⟩ := List.mem_map.mp hp
      by_cases hq : q = .queued
      · obtain ⟨rfl, rfl⟩ := Prod.mk.inj ((if_pos hq).symm.trans he)
        exact ⟨.queued, hq ▸ hstands, .cancels rfl⟩
      · obtain ⟨rfl, rfl⟩ := Prod.mk.inj ((if_neg hq).symm.trans he)
        exact ⟨q, hstands, .stays (by simp [Managed.starts]) (by simp [Managed.crashes])⟩

end Phases

section Lost

/-- No attempt has been lost. -/
def NoneLost (s : Managed σ L) : Prop := ∀ number, (number, .lost) ∉ s.manager.standing

variable [Durable σ]

/-- What the worker can deal with takes it away from no attempt. -/
theorem Step.crashes_eq_nil (h : Step s move e t) (hcaught : move.isCaught = true) :
    crashes [e] = [] := by
  cases h with
  | @raise a err =>
    have herr : err.isReportable = true := hcaught
    simp [crashes, herr]
  | _ => rfl

theorem Step.noneLost (h : Step s move e t) (hcaught : move.isCaught = true)
    (ho : s.manager.Orderly) (hs : s.NoneLost) : (t.record e).NoneLost := by
  intro number hn
  obtain ⟨-, hp, -⟩ | ⟨q, hq, hpass⟩ := h.passes ho hn
  · contradiction
  · rcases hpass.lost_iff.mp rfl with rfl | hc
    · exact hs number hq
    · rw [h.crashes_eq_nil hcaught] at hc
      contradiction

end Lost

section Staff

/-- Where the worker is, as the record has it. -/
structure Staffed (s : Managed σ L) : Prop where
  /-- It has been taken from an attempt exactly if the start raised an error of which no failure can
  be made. -/
  lost : ∀ number p, (number, p) ∈ s.manager.standing → (p = .lost ↔ number ∈ crashes s.log)
  /-- Such an attempt is outstanding. -/
  outstanding : ∀ number ∈ crashes s.log, number ∈ s.manager.roster.map Prod.fst
  /-- The processes of those past their start have been started. -/
  started : ∀ number p, (number, p) ∈ s.manager.standing →
    (number ∈ starts s.log ↔ p.isPastStart = true)
  /-- Whatever has been created is outstanding or over. -/
  ended : ∀ number < s.manager.created,
    number ∈ s.manager.roster.map Prod.fst ∨ number ∈ finishes s.log

theorem staffed_new (share : Bool) (timeout : Option Binary64) (hasProcess : Bool)
    (session : Session σ) : (new share timeout hasProcess session : Managed σ L).Staffed := by
  refine ⟨?_, ?_, ?_, ?_⟩
  all_goals simp [new, Manager.new, Manager.standing, crashes]

variable [Durable σ]

/-- What the worker is taken from has been at its start, and stays outstanding. -/
theorem Step.crashes_cases (h : Step s move e t) :
    crashes [e] = [] ∨ ∃ a ∈ s.manager.attempts, crashes [e] = [a.number] ∧
      t.manager.roster = s.manager.roster := by
  cases h with
  | @raise a err ha =>
    cases herr : err.isReportable with
    | true => exact .inl (by simp [crashes, herr])
    | false => exact .inr ⟨a, ha, by simp [crashes, herr], (Manager.quiet_startRaised ..).roster⟩
  | _ => exact .inl rfl

/-- No rule takes a lost attempt off the roster. -/
theorem Step.outstanding (h : Step s move e t) (hs : s.Staffed) {number : Nat}
    (hn : number ∈ crashes s.log) : number ∈ t.manager.roster.map Prod.fst := by
  obtain hin | ⟨a, hmem, rfl, hr, -⟩ := h.stays_or_finished (hs.outstanding number hn)
  · exact hin
  · have hlost := (hs.lost a.number a.phase (Manager.mem_standing hmem)).mpr hn
    simp [Attempt.isReady, hlost] at hr

/-- What has been created is outstanding or over after every rule. -/
theorem Step.ended (h : Step s move e t) (hs : s.Staffed) {number : Nat}
    (hn : number < t.manager.created) :
    number ∈ t.manager.roster.map Prod.fst ∨ number ∈ finishes (s.log ++ [e]) := by
  have hbefore : number < s.manager.created →
      number ∈ t.manager.roster.map Prod.fst ∨ number ∈ finishes (s.log ++ [e]) := by
    intro hlt
    rw [finishes_append, List.mem_append]
    rcases hs.ended number hlt with hin | hover
    · obtain hin' | ⟨a, -, rfl, -, o, -, rfl⟩ := h.stays_or_finished hin
      · exact .inl hin'
      · exact .inr (.inr (mem_finishes.mpr ⟨_, _, _, List.mem_cons_self⟩))
    · exact .inr (.inl hover)
  obtain ⟨host, params, l, -, -, -, ⟨joined, -, -, hm⟩ | ⟨-, hm⟩⟩ |
    ⟨a, -, o, -, -, -, hm, -⟩ | ⟨-, -, -, hsame⟩ := h.roster_cases
  · exact hbefore (by rwa [hm] at hn)
  · have hn' : number < s.manager.created + 1 := by rwa [hm] at hn
    rcases Nat.lt_succ_iff_lt_or_eq.mp hn' with hlt | rfl
    · exact hbefore hlt
    · left
      rw [hm, Manager.roster_create, List.map_append]
      exact List.mem_append_right _ List.mem_cons_self
  · exact hbefore (by rwa [hm] at hn)
  · exact hbefore (hsame.created ▸ hn)

/-- Every rule keeps the worker where the record has it. -/
theorem Step.staffed (h : Step s move e t) (hs : s.Sound) (hst : s.Staffed) :
    (t.record e).Staffed where
  lost := by
    intro number p hp
    rw [log_record, h.log_eq, crashes_append, List.mem_append]
    obtain ⟨rfl, rfl, rfl⟩ | ⟨q, hq, hpass⟩ := h.passes hs.orderly hp
    · have hfresh : s.manager.created ∉ crashes s.log := fun hc =>
        Nat.lt_irrefl _ (hs.orderly.bound _ (hst.outstanding _ hc))
      have hnone : crashes [.accepted s.calls] = [] := rfl
      simp [hfresh, hnone]
    · rw [hpass.lost_iff, hst.lost number q hq]
  outstanding := by
    intro number hn
    rw [log_record, h.log_eq, crashes_append, List.mem_append] at hn
    rcases hn with hn | hn
    · exact h.outstanding hst hn
    · obtain hnone | ⟨a, ha, hcrash, hroster⟩ := h.crashes_cases
      · simp [hnone] at hn
      · rw [hcrash, List.mem_singleton] at hn
        change number ∈ t.manager.roster.map Prod.fst
        rw [hroster, Manager.roster_fst, hn]
        exact List.mem_map_of_mem ha
  started := by
    intro number p hp
    rw [log_record, h.log_eq, starts_append, List.mem_append]
    obtain ⟨rfl, rfl, rfl⟩ | ⟨q, hq, hpass⟩ := h.passes hs.orderly hp
    · have hfresh : s.manager.created ∉ starts s.log := fun hn =>
        Nat.lt_irrefl _ (hs.recorded.started _ hn)
      have hnone : starts [.accepted s.calls] = [] := rfl
      simp [hfresh, hnone, Phase.isPastStart]
    · rw [hpass.started_iff, hst.started number q hq]
  ended := by
    intro number hn
    rw [log_record, h.log_eq]
    exact h.ended hst hn

/-- The worker is where the record has it after every run. -/
theorem run_staffed (share : Bool) (timeout : Option Binary64) (hasProcess : Bool)
    (session : Session σ) (moves : List (Move L)) :
    ((new share timeout hasProcess session : Managed σ L).run moves).Staffed := by
  refine (run_induction (P := fun s => s.Sound ∧ s.Staffed)
    ⟨sound_new share timeout hasProcess session, staffed_new share timeout hasProcess session⟩
    fun s e t _ _ h hstep => ?_).2
  exact ⟨hstep.sound h.1, hstep.staffed h.1 h.2⟩

end Staff

section Record

variable [Durable σ] {number : Nat}

/-- What has been started stays started. -/
theorem mem_starts_run (h : number ∈ starts s.log) (moves : List (Move L)) :
    number ∈ starts (s.run moves).log := by
  obtain ⟨more, hmore⟩ := s.run_log moves
  rw [← hmore, starts_append]
  exact List.mem_append_left _ h

/-- What is over stays over. -/
theorem mem_finishes_run (h : number ∈ finishes s.log) (moves : List (Move L)) :
    number ∈ finishes (s.run moves).log := by
  obtain ⟨more, hmore⟩ := s.run_log moves
  rw [← hmore, finishes_append]
  exact List.mem_append_left _ h

/-- What the worker has been taken from it stays away from. -/
theorem mem_crashes_run (h : number ∈ crashes s.log) (moves : List (Move L)) :
    number ∈ crashes (s.run moves).log := by
  obtain ⟨more, hmore⟩ := s.run_log moves
  rw [← hmore, crashes_append]
  exact List.mem_append_left _ h

end Record

end Managed

end BearerSession
