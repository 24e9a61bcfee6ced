import BearerSession.Proofs.Credential.Rollback
import BearerSession.Proofs.Managed.FirstCompletion
import BearerSession.Proofs.Managed.Membership
import BearerSession.Proofs.Managed.Serial

/-!
# What a listener sees

While the listeners of an attempt are told, they may raise and ask for authorization again. As long
as nobody finishes another attempt or changes the session in between, each of them finds the
manager and the header as the end of its attempt left them. After a success the header shows the
tokens of the grant; after a failure it is the header from before.
-/

namespace BearerSession

namespace Cell

/-- Whatever is done to a session, each cell stays the one of its name. -/
theorem isAt_law : CellLaw (fun _ n c _ => c.IsAt n) fun _ _ => True where
  isAt h := h
  get _ _ _ _ _ _ _ := trivial
  emptied _ h := h
  filled _ _ h := h
  moved _ h := h.moved _

theorem isAt_steady : CellLaw.Steady fun _ n c _ => c.IsAt n where
  under _ _ := rfl
  announced _ h := h

end Cell

namespace Managed

/-- Whether a move may come between two listeners of an attempt: it finishes no attempt, and nobody
asks for a change of the session. -/
def Move.isConsiderate {L : Type} : Move L → Bool
  | .finish _ | .clear | .setPolicy _ => false
  | _ => true

variable {σ L : Type} [Durable σ] {s t : Managed σ L} {move : Move L} {e : Event}

/-- Whether only such moves are made while listeners are told. -/
def isConsiderate (s : Managed σ L) : List (Move L) → Bool
  | [] => true
  | move :: rest =>
    (s.manager.tellings.isEmpty || move.isConsiderate) && (s.step move).isConsiderate rest

theorem isConsiderate_append (s : Managed σ L) (moves more : List (Move L)) :
    s.isConsiderate (moves ++ more) =
      (s.isConsiderate moves && (s.run moves).isConsiderate more) := by
  induction moves generalizing s with
  | nil => rfl
  | cons move rest ih =>
    rw [List.cons_append, isConsiderate, isConsiderate, ih, run_cons, Bool.and_assoc]

/-- Such a move leaves alone what listeners see. -/
theorem Step.considerate (h : Step s move e t) (hc : move.isConsiderate = true) :
    t.session = s.session ∧ t.manager.last = s.manager.last := by
  cases h with
  | accept hm =>
    obtain ⟨-, ⟨number, -, -, rfl⟩ | ⟨-, rfl⟩⟩ := Manager.obtain_eq_ok hm <;> exact ⟨rfl, rfl⟩
  | raise | expire | close =>
    refine ⟨rfl, ?_⟩
    simp only [Manager.startRaised, Manager.expire, Manager.close]
    split <;> rfl
  | @tell number raised c o left =>
    obtain ⟨rest, hafter, -⟩ := exists_afterTelling { s.manager with tellings := left } number
      raised
    rw [hafter]
    exact ⟨rfl, rfl⟩
  | finish | clear | setPolicy => contradiction
  | _ => exact ⟨rfl, rfl⟩

/-- In the course of some moves an attempt was finished with an outcome, and what listeners see is
the same since then. -/
def SinceFinish (s₀ : Managed σ L) (moves : List (Move L)) (number : Nat) (outcome : Outcome) :
    Prop :=
  ∃ earlier later, moves = earlier ++ .finish number :: later ∧
    ∃ a ∈ (s₀.run earlier).manager.attempts, a.number = number ∧ a.isReady = true ∧
      Manager.storeOutcome a.result (s₀.run earlier).session =
        (outcome, (s₀.run moves).session) ∧
      (s₀.run moves).manager.last = outcome.finalState

/-- It is still so after a move that changes nothing of it. -/
theorem SinceFinish.append {s₀ : Managed σ L} {moves : List (Move L)} {number : Nat}
    {outcome : Outcome} (h : s₀.SinceFinish moves number outcome)
    (hsession : ((s₀.run moves).step move).session = (s₀.run moves).session)
    (hlast : ((s₀.run moves).step move).manager.last = (s₀.run moves).manager.last) :
    s₀.SinceFinish (moves ++ [move]) number outcome := by
  obtain ⟨earlier, later, hsplit, a, ha, hn, hr, hstore, hl⟩ := h
  refine ⟨earlier, later ++ [move], by simp [hsplit], a, ha, hn, hr, ?_, ?_⟩
  · rw [run_append, run_cons, run_nil, hsession]
    exact hstore
  · rw [run_append, run_cons, run_nil, hlast]
    exact hl

/-- Whoever is to be told finds what the end of its attempt left. -/
theorem sinceFinish_of_telling {s₀ : Managed σ L} (h₀ : s₀.manager.tellings = [])
    {moves : List (Move L)} (hc : s₀.isConsiderate moves = true) {u : Telling (Call L)}
    (hu : u ∈ (s₀.run moves).manager.tellings) : s₀.SinceFinish moves u.number u.outcome := by
  induction moves using List.reverseRecOn generalizing u with
  | nil =>
    rw [run_nil, h₀] at hu
    contradiction
  | append_singleton moves move ih =>
    rw [isConsiderate_append, Bool.and_eq_true] at hc
    obtain ⟨hmoves, hmove⟩ := hc
    rw [run_append, run_cons, run_nil] at hu
    rcases (s₀.run moves).step_cases move with hs | ⟨e, t, hstep, he⟩
    · rw [hs] at hu
      exact (ih hmoves hu).append (by rw [hs]) (by rw [hs])
    · rw [he] at hu
      obtain ⟨v, hv, hnumber, houtcome⟩ | ⟨a, ha, hr, rfl, hnumber, hstore, hlast⟩ :=
        hstep.telling_cases hu
      · have hconsiderate : move.isConsiderate = true := by
          have hmove' := (Bool.and_eq_true_iff.mp hmove).1
          rw [Bool.or_eq_true, List.isEmpty_iff] at hmove'
          exact hmove'.resolve_left (List.ne_nil_of_mem hv)
        obtain ⟨hsession, hlast⟩ := hstep.considerate hconsiderate
        rw [← hnumber, ← houtcome]
        refine (ih hmoves hv).append ?_ ?_
        · rw [he]
          exact hsession
        · rw [he]
          exact hlast
      · refine ⟨moves, [], by rw [hnumber], a, ha, hnumber.symm, hr, ?_, ?_⟩
        · rw [run_append, run_cons, run_nil, he]
          exact hstore
        · rw [run_append, run_cons, run_nil, he]
          exact hlast

section Cells

variable [LawfulDurable σ]

theorem Step.isAt (h : Step s move e t) (hs : ∀ n, (s.session.store.cell n).IsAt n) :
    ∀ n, (t.session.store.cell n).IsAt n := by
  have hkept : ∀ (effects : List Effect) (session : Session σ),
      (∀ n, (session.store.cell n).IsAt n) →
        ∀ n, ((effects.foldl Effect.apply session).store.cell n).IsAt n := by
    intro effects
    induction effects with
    | nil => exact fun _ h => h
    | cons effect rest ih =>
      intro session hsession
      refine ih _ (Cell.isAt_law.apply Cell.isAt_steady (s := session) hsession ?_)
      exact fun _ _ _ _ _ _ _ _ _ => trivial
  rw [h.session_eq]
  exact hkept (effects [e]) s.session hs

theorem run_isAt (hs : ∀ n, (s.session.store.cell n).IsAt n) (moves : List (Move L)) :
    ∀ n, ((s.run moves).session.store.cell n).IsAt n :=
  run_induction (P := fun s => ∀ n, (s.session.store.cell n).IsAt n) hs
    fun _ _ _ _ _ hs hstep => hstep.isAt hs

end Cells

section Seeing

variable [ListedDurable σ]

/-- What the listeners of an attempt see that are told an outcome after some moves. -/
structure Sees (s₀ : Managed σ L) (moves : List (Move L)) (number : Nat) (outcome : Outcome) :
    Prop where
  /-- The attempt is no longer outstanding. -/
  gone : ∀ a ∈ (s₀.run moves).manager.attempts, a.number ≠ number
  /-- The last attempt ended the way they are told. -/
  last : (s₀.run moves).manager.last = outcome.finalState
  /-- The manager is idle unless another attempt is outstanding. -/
  state : (s₀.run moves).manager.state = .idle ↔
    ¬ ∃ a ∈ (s₀.run moves).manager.attempts, a.number ≠ number
  /-- After a success the header shows the tokens of the grant. -/
  success : ∀ g, outcome = .success g →
    (s₀.run moves).session.store.header = some (Header.ofTokens g.accessToken g.idToken)
  /-- The attempt was finished earlier with its first completion. They are told of a success when
  this was one and its grant was written. After a failure the header is the one from before the
  attempt was finished; where a grant could not be written, its user can be written down and all
  refusals concerned one key. -/
  finish : ∃ earlier later, moves = earlier ++ .finish number :: later ∧
    ∃ a ∈ (s₀.run earlier).manager.attempts, a.number = number ∧ a.isReady = true ∧
      Settled s₀.manager.timeout (s₀.run earlier).log number a.result ∧
      (∀ g, outcome = .success g ↔ a.result = .success g ∧
        ∃ t, Session.writeAuthorization g (s₀.run earlier).session = .ok () t) ∧
      ∀ r, outcome = .failure r →
        (∀ g, a.result = .success g → g.Serialises ∧
          RefusesOneKey (s₀.run earlier).session.durable
            ((Session.writeAuthorization g).after (s₀.run earlier).session).durable) →
        (s₀.run moves).session.store.header = (s₀.run earlier).session.store.header

omit [ListedDurable σ] in
/-- Storing an outcome is a success when it is one and its grant can be written. -/
theorem storeOutcome_eq_success {accepted outcome : Outcome} {before after : Session σ}
    (h : Manager.storeOutcome accepted before = (outcome, after)) (g : Grant) :
    outcome = .success g ↔
      accepted = .success g ∧ ∃ t, Session.writeAuthorization g before = .ok () t := by
  cases accepted with
  | failure r =>
    cases h
    simp
  | success g' =>
    simp only [Manager.storeOutcome] at h
    cases hw : Session.writeAuthorization g' before with
    | ok u t =>
      rw [hw] at h
      cases h
      constructor
      · intro he
        cases he
        exact ⟨rfl, _, hw⟩
      · exact fun he => he.1
    | error e t =>
      rw [hw] at h
      cases h
      constructor
      · intro he
        cases he
      · rintro ⟨he, t', ht⟩
        cases he
        rw [hw] at ht
        contradiction

omit [ListedDurable σ] in
/-- What has been stored as a success is in the header. -/
theorem header_of_storeOutcome_success [LawfulDurable σ] {accepted : Outcome} {g : Grant}
    {before after : Session σ} (hs : ∀ n, (before.store.cell n).IsAt n)
    (h : Manager.storeOutcome accepted before = (.success g, after)) :
    after.store.header = some (Header.ofTokens g.accessToken g.idToken) := by
  obtain ⟨rfl, t, hw⟩ := (storeOutcome_eq_success h g).mp rfl
  simp only [Manager.storeOutcome, hw] at h
  cases h
  exact Session.header_of_writeAuthorization_ok hs hw

/-- What has been stored as a failure has left the header alone. -/
theorem header_of_storeOutcome_failure {accepted : Outcome} {r : Failure}
    {before after : Session σ} (hs : ∀ n, (before.store.cell n).IsAt n)
    (h : Manager.storeOutcome accepted before = (.failure r, after))
    (hwrite : ∀ g, accepted = .success g → g.Serialises ∧
      RefusesOneKey before.durable ((Session.writeAuthorization g).after before).durable) :
    after.store.header = before.store.header := by
  cases accepted with
  | failure r' =>
    cases h
    rfl
  | success g =>
    obtain ⟨hserialises, hkey⟩ := hwrite g rfl
    simp only [Manager.storeOutcome] at h
    cases hw : Session.writeAuthorization g before with
    | ok u t =>
      rw [hw] at h
      cases h
    | error e t =>
      rw [hw] at h
      cases h
      rw [Act.after, hw] at hkey
      exact Session.header_of_writeAuthorization_error hs hserialises hw hkey

/-- After every run in which nobody finishes an attempt or changes the session while listeners are
told, whoever is told next sees what its attempt came to. -/
theorem run_sees (share : Bool) (timeout : Option Binary64) (hasProcess : Bool)
    (session : Session σ) (hsession : ∀ n, (session.store.cell n).IsAt n) (moves : List (Move L))
    (hmoves : (new share timeout hasProcess session : Managed σ L).isConsiderate moves = true)
    (number call : Nat) (raised : Option Raised) (outcome : Outcome) (t : Managed σ L)
    (htell : ((new share timeout hasProcess session : Managed σ L).run moves).step?
      (.tell number raised) = some (.told number call outcome, t)) :
    Sees (new share timeout hasProcess session) moves number outcome := by
  have hsound := run_sound (L := L) share timeout hasProcess session
  obtain ⟨u, hu, rfl, rfl⟩ : ∃ u ∈ ((new share timeout hasProcess session : Managed σ L).run
      moves).manager.tellings, u.number = number ∧ u.outcome = outcome := by
    cases Step.of_step? htell with
    | tell hn =>
      obtain ⟨before, u, rest, after, htellings, hnumber, houtcome, -⟩ := Telling.next?_eq_some hn
      exact ⟨u, by rw [htellings]; simp, hnumber, houtcome⟩
  have hover : ∀ a ∈ ((new share timeout hasProcess session : Managed σ L).run
      moves).manager.attempts, a.number ≠ u.number := by
    obtain ⟨accepted, collected, hf, -⟩ := (hsound moves).recorded.telling u hu
    exact fun a ha => (hsound moves).recorded.number_ne hf ha
  obtain ⟨earlier, later, hsplit, a, ha, hn, hr, hstore, hlast⟩ :=
    sinceFinish_of_telling rfl hmoves hu
  have hat := run_isAt (s := (new share timeout hasProcess session : Managed σ L)) hsession earlier
  refine ⟨hover, hlast, ?_, ?_, earlier, later, hsplit, a, ha, hn, hr, ?_, ?_, ?_⟩
  · rw [Manager.state_eq_idle_iff]
    constructor
    · rintro hnone ⟨b, hb, -⟩
      rw [hnone] at hb
      contradiction
    · intro hothers
      exact List.eq_nil_iff_forall_not_mem.mpr fun b hb => hothers ⟨b, hb, hover b hb⟩
  · intro g hg
    rw [hg] at hstore
    exact header_of_storeOutcome_success hat hstore
  · have hsettled := (hsound earlier).settled ha hr
    rwa [run_timeout, hn] at hsettled
  · exact storeOutcome_eq_success hstore
  · intro r hfailed hwrite
    rw [hfailed] at hstore
    exact header_of_storeOutcome_failure hat hstore hwrite

/-- A session without credentials whose storage will refuse to keep an identity token once. -/
def unwilling : Session (Listed Memory) :=
  ⟨.blank .always, ⟨[], [⟨.set, "id_token", 1⟩]⟩, []⟩

/-- The grant of a shared attempt is refused, and the first listener raises when it is told so. -/
def setback : List (Move String) :=
  [.obtain .null [] (some "a"), .obtain .null [] (some "b"), .take, .start 0,
    .report 0 (.success ⟨"lost", "lost", .empty, none, by decide, by decide⟩),
    .await 0 (.zero false), .finish 0, .tell 0 (some (.host ⟨"ValueError", .value, some "bug"⟩))]

/-- The second asks again before it is told, and the next grant is kept. -/
def comeback : List (Move String) :=
  setback ++ [.obtain .null [] (some "b"), .tell 0 none, .take, .start 1,
    .report 1 (.success ⟨"kept", "kept", .empty, none, by decide, by decide⟩),
    .await 1 (.zero false), .finish 1]

/-- The second listener of the first attempt sees the failure, and that of the second one the
success. -/
theorem comeback_sees :
    (∀ n, (unwilling.store.cell n).IsAt n) ∧
      (new true none true unwilling : Managed (Listed Memory) String).isConsiderate comeback =
        true ∧
      Sees (new true none true unwilling : Managed (Listed Memory) String) setback 0
        (.ofRaised (.session (.refusedWrite "set" "id_token"))) ∧
      Sees (new true none true unwilling : Managed (Listed Memory) String) comeback 1
        (.success ⟨"kept", "kept", .empty, none, by decide, by decide⟩) := by
  have hat : ∀ n, (unwilling.store.cell n).IsAt n := fun n => ⟨rfl, rfl, rfl⟩
  refine ⟨hat, by decide, ?_, ?_⟩
  · exact run_sees true none true unwilling hat setback (by decide) 0 1 none _ _ rfl
  · exact run_sees true none true unwilling hat comeback (by decide) 1 2 none _ _
      (by with_unfolding_all rfl)

end Seeing

end Managed

end BearerSession
