import BearerSession.Proofs.Credential.PolicyChange

/-!
# Policies in force

A change of the policy that does not raise leaves its policy in force. Whether the tokens have
followed depends on what it has found. One that finds its policy in force already does nothing, and
tokens that an earlier change has left behind when it raised stay behind. One that moves the tokens
takes those in memory for settled where no copies are wanted, also when a copy of an earlier value
has been left. As long as no change of the policy raises, neither happens.
-/

namespace BearerSession

namespace Cell

variable {c : Cell} {p q : Policy} {entry : Option String}

/-- A token that has a value is where a policy wants it: in durable storage too, or in memory
only. -/
def InPlace (c : Cell) (p : Policy) (entry : Option String) : Prop :=
  c.raw ≠ none →
    match p with
    | .always => c.state = .durable ∧ entry = c.raw
    | .never => c.state = .transient ∧ entry = none

instance (c : Cell) (p : Policy) (entry : Option String) : Decidable (c.InPlace p entry) :=
  match p with
  | .always => inferInstanceAs (Decidable (c.raw ≠ none → c.state = .durable ∧ entry = c.raw))
  | .never => inferInstanceAs (Decidable (c.raw ≠ none → c.state = .transient ∧ entry = none))

theorem Agrees.inPlace (h : c.Agrees p entry) (hg : c.governed = true) : c.InPlace p entry := by
  intro hraw
  obtain ⟨hentry, hstate⟩ := h
  cases p with
  | always =>
    have hsame : entry = c.raw := by simpa [persists] using hentry
    refine ⟨?_, hsame⟩
    rw [hstate, hsame, if_pos (Option.isSome_iff_ne_none.mpr hraw)]
  | never =>
    have hnone : entry = none := by simpa [persists, hg] using hentry
    refine ⟨?_, hnone⟩
    rw [hstate, hnone]
    rfl

/-- A cell that agrees with its entry under one policy does so under another one once it has been
moved. -/
theorem Agrees.moved (h : c.Agrees q entry) (p : Policy) :
    (c.moved p).Agrees p (c.movedEntry p entry) := by
  cases hraw : c.raw with
  | none =>
    have hsame := moved_of_raw_eq_none hraw p
    rw [movedEntry, hsame, if_pos rfl]
    exact h.of_raw_eq_none hraw p
  | some raw =>
    have hfilled := moved_of_raw_eq_some hraw p
    rw [movedEntry, hfilled]
    by_cases hstate : (c.filled p raw).state = c.state
    · -- a cell that does not move has the entry that it is to have
      have hentry : entry = if c.persists p = true then some raw else none := by
        rw [h.entry_eq, ← hstate, hraw, filled]
        split <;> simp
      rw [if_pos hstate, hentry]
      exact c.agrees_filled p raw
    · rw [if_neg hstate, hraw]
      exact c.agrees_filled p raw

/-- A sound token has been moved to where the policy wants it, unless a copy has been left of one
that was in memory only. -/
theorem Sound.inPlace_moved_iff (h : c.Sound entry) (hg : c.governed = true) (p : Policy) :
    (c.moved p).InPlace p (c.movedEntry p entry) ↔
      (p = .never → c.raw ≠ none → c.state = .transient → entry = none) := by
  unfold InPlace
  rw [moved_raw]
  cases hraw : c.raw with
  | none => simp
  | some raw =>
    have hfilled := moved_of_raw_eq_some hraw p
    rw [movedEntry, hfilled]
    cases p with
    | always =>
      have hp : c.persists .always = true := by simp [persists]
      cases hstate : c.state with
      | durable => simp [filled, hp, h.durable hstate, hraw]
      | transient => simp [filled, hp, hraw]
    | never =>
      have hp : c.persists .never = false := by simp [persists, hg]
      cases hstate : c.state <;> simp [filled, hp]

end Cell

section Carrying

variable {under : CellName → Policy} {s : Snapshot}

/-- The announcement of a policy leaves the tokens where they are. -/
theorem Settled.announced (h : Settled (fun _ => s.store.policy) s.store s.view) (p : Policy) :
    Settled (fun n => if n.governed = true then s.store.policy else p)
      (s.announced p).store (s.announced p).view := by
  have hput := h.put_filled .policy s.store.policy p.name
  rw [Function.update_eq_self] at hput
  have hpersists : (s.store.cell .policy).persists s.store.policy = true :=
    Cell.persists_eq_of_not_governed (h.isAt .policy).2.2 _
  rw [if_pos hpersists] at hput
  refine .retarget ?_ fun n hn => if_pos hn
  simpa only [Snapshot.announced, Snapshot.filled, Snapshot.put, Cell.filledEntry,
    if_pos hpersists] using hput

/-- A token that is moved follows the policy in force. -/
theorem Settled.moved (h : Settled under s.store s.view) (n : CellName) :
    Settled (Function.update under n s.store.policy) (s.moved n).store (s.moved n).view := by
  have hput := h.put ((h.isAt n).moved s.store.policy) ((h.agrees n).moved s.store.policy)
  rw [← (h.isAt n).1] at hput
  exact hput

/-- A change that is carried out leaves every cell settled on the new policy. -/
theorem Settled.carriedOut (h : Settled (fun _ => s.store.policy) s.store s.view) (p : Policy) :
    Settled (fun _ => p) (s.carriedOut p).store (s.carriedOut p).view := by
  have hmoved := ((h.announced p).moved .accessToken).moved .idToken
  rw [Snapshot.policy_moved _ (n := .accessToken) (by decide), Snapshot.policy_announced] at hmoved
  refine hmoved.retarget fun n _ => ?_
  cases n <;> rfl

end Carrying

namespace Cell

/-- The cells of a session agree with their entries while its policy stays the same, whatever is
refused. -/
theorem agrees_law : CellLaw (fun p n c entry => c.IsAt n ∧ c.Agrees p entry) fun _ _ => True where
  isAt h := h.1
  get _ _ _ _ _ _ _ := trivial
  emptied {p _ c _} _ h := ⟨h.1, c.agrees_emptied p⟩
  filled {p _ c _ raw} _ _ h := by
    refine ⟨h.1, ?_⟩
    have hagrees := c.agrees_filled p raw
    rw [filledEntry]
    cases hp : c.persists p with
    | true => rwa [hp] at hagrees
    | false =>
      rw [h.2.entry_eq_none hp]
      rwa [hp] at hagrees
  moved {p _ _ _} _ h := ⟨h.1.moved p, h.2.moved p⟩

end Cell

namespace Session

variable {σ : Type} [Durable σ] [LawfulDurable σ]

open LawfulDurable

/-- A settled session is settled on the new policy after a change that does not raise. -/
theorem setPolicy_settled {s t : Session σ} {p : Policy} {changed : Bool}
    (hs : Settled (fun _ => s.store.policy) s.store (value? s.durable))
    (h : setPolicy p s = .ok changed t) :
    Settled (fun _ => t.store.policy) t.store (value? t.durable) := by
  obtain ⟨hpolicy, -, hsame, hcarried⟩ := setPolicy_eq_ok (hs.isAt .policy).2.1 h
  cases changed with
  | false =>
    rw [hsame rfl]
    exact hs
  | true =>
    have hafter := Settled.carriedOut (s := s.seen) hs p
    rw [← hcarried rfl] at hafter
    rwa [hpolicy]

end Session

namespace Installation

variable {σ : Type} [Durable σ]

/-- Whether a use is a change of the policy that raises. -/
def gaveUp (i : Installation σ) : Use → Bool
  | .change (.setPolicy p) =>
    match i.store? with
    | some store => (Session.setPolicy p).raises ⟨store, i.durable⟩
    | none => false
  | _ => false

/-- Whether a store is open on which a change of the policy ends as asked. -/
def endsAs (i : Installation σ) (p : Policy) (asked : Bool → Session σ → Bool) : Bool :=
  match i.store? with
  | none => false
  | some store =>
    match Session.setPolicy p ⟨store, i.durable⟩ with
    | .ok changed t => asked changed t
    | .error _ _ => false

theorem exists_of_endsAs {i : Installation σ} {p : Policy} {asked : Bool → Session σ → Bool}
    (h : i.endsAs p asked = true) :
    ∃ store changed t, i.store? = some store ∧
      Session.setPolicy p ⟨store, i.durable⟩ = .ok changed t ∧ asked changed t = true := by
  unfold endsAs at h
  cases hstore : i.store? with
  | none => simp [hstore] at h
  | some store =>
    cases hok : Session.setPolicy p ⟨store, i.durable⟩ with
    | ok changed t => exact ⟨store, changed, t, rfl, hok, by simpa [hstore, hok] using h⟩
    | error e t => simp [hstore, hok] at h

variable [LawfulDurable σ]

open LawfulDurable

/-- The open store is settled on its policy. -/
def InForce (i : Installation σ) : Prop :=
  ∀ store ∈ i.store?, Settled (fun _ => store.policy) store (value? i.durable)

/-- Opening a storage settles whatever there is. -/
theorem inForce_reopen (i : Installation σ) (defaultPolicy : Policy) :
    (i.use (.reopen defaultPolicy)).InForce := by
  obtain ⟨store?, d⟩ := i
  have hcases := Session.openStore_cases defaultPolicy d
  simp only [Installation.use]
  cases hopen : Session.openStore defaultPolicy d with
  | ok store d' =>
    rw [hopen] at hcases
    rintro _ ⟨⟩
    exact hcases.settled
  | error e d' => exact fun _ h => absurd h (Option.not_mem_none _)

/-- It stays so, whatever is refused, as long as no change of the policy raises. -/
theorem InForce.use {i : Installation σ} (h : i.InForce) {u : Use} (hu : i.gaveUp u = false) :
    (i.use u).InForce := by
  obtain ⟨store?, d⟩ := i
  cases u with
  | change e =>
    cases store? with
    | none => exact fun _ h => absurd h (Option.not_mem_none _)
    | some store =>
      rintro _ ⟨⟩
      have hsettled := h store rfl
      have heach : Snapshot.Each (fun p n c entry => c.IsAt n ∧ c.Agrees p entry)
          (⟨store, d⟩ : Session σ).seen := fun n => ⟨hsettled.isAt n, hsettled.agrees n⟩
      have hkept : ∀ {α : Type} {f : Act (Session σ) α},
          Session.Keeps (Snapshot.Each fun p n c entry => c.IsAt n ∧ c.Agrees p entry) f →
            Settled (fun _ => (f.after ⟨store, d⟩).store.policy) (f.after ⟨store, d⟩).store
              (value? (f.after ⟨store, d⟩).durable) := by
        intro α f hf
        have hafter := hf.after heach
        exact ⟨fun n => (hafter n).1, fun n => (hafter n).2⟩
      cases e with
      | write g =>
        exact hkept (Cell.agrees_law.stepLaw.keeps_writeAuthorization fun _ _ _ _ _ _ _ => trivial)
      | clear => exact hkept Cell.agrees_law.stepLaw.keeps_clearAuthorization
      | setPolicy p =>
        obtain ⟨changed, hok⟩ := Act.exists_eq_ok hu
        exact Session.setPolicy_settled (s := ⟨store, d⟩) hsettled hok
  | reopen defaultPolicy => exact inForce_reopen ⟨store?, d⟩ defaultPolicy

/-- A change of the policy that does not raise leaves its policy in force, whatever has happened
before. If the policy has been in force already, nothing happens; otherwise the tokens are moved to
where it wants them, except that a token in memory is taken for settled where no copies are wanted.
No token is left behind if no change of the policy has raised since the storage was opened. -/
theorem setPolicy_inForce (d : σ) (uses : List Use) (store : Store)
    (hopen : ((closed d).run uses).store? = some store) (p : Policy) (changed : Bool)
    (t : Session σ)
    (hok : Session.setPolicy p ⟨store, ((closed d).run uses).durable⟩ = .ok changed t) :
    t.store.policy = p ∧
    (changed = true ↔ store.policy ≠ p) ∧
    (changed = false → t = ⟨store, ((closed d).run uses).durable⟩) ∧
    (changed = true → ∀ n ∈ CellName.tokens,
      ((t.store.cell n).InPlace p (value? t.durable n.key) ↔
        (p = .never → (store.cell n).raw ≠ none → (store.cell n).state = .transient →
          value? ((closed d).run uses).durable n.key = none))) ∧
    ∀ before defaultPolicy since, uses = before ++ .reopen defaultPolicy :: since →
      Throughout (fun i u => i.gaveUp u = false)
        ((closed d).run (before ++ [.reopen defaultPolicy])) since →
      ∀ n ∈ CellName.tokens, (t.store.cell n).InPlace p (value? t.durable n.key) := by
  have hsound := sound_run d uses store hopen
  obtain ⟨hpolicy, hchanged, hsame, hcarried⟩ :=
    Session.setPolicy_eq_ok (hsound .policy).1.2.1 hok
  refine ⟨hpolicy, hchanged, hsame, fun h n hn => ?_,
    fun before defaultPolicy since huses h n hn => ?_⟩
  · have hnamed : (⟨store, ((closed d).run uses).durable⟩ : Session σ).seen.Named :=
      fun m => (hsound m).1.1
    have htoken := hnamed.carriedOut_token (hsound .policy).1.2.2 p hn
    rw [← hcarried h] at htoken
    obtain ⟨hcell, hview⟩ : t.store.cell n = (store.cell n).moved p ∧
        value? t.durable n.key = (store.cell n).movedEntry p
          (value? ((closed d).run uses).durable n.key) := htoken
    have hgoverned : (store.cell n).governed = true :=
      (hsound n).1.2.2.trans (CellName.mem_tokens.mp hn)
    rw [hcell, hview]
    exact (hsound n).2.inPlace_moved_iff hgoverned p
  · have hrun : (closed d).run uses =
        ((closed d).run (before ++ [.reopen defaultPolicy])).run since := by
      rw [huses, run, run, run, ← List.foldl_append, List.append_assoc, List.singleton_append]
    have hinForce : ((closed d).run uses).InForce := by
      rw [hrun]
      refine run_induction (fun _ _ _ hu hi => hi.use hu) h ?_
      rw [run, List.foldl_append]
      exact inForce_reopen _ defaultPolicy
    have hsettled := Session.setPolicy_settled (s := ⟨store, _⟩) (hinForce store hopen) hok
    rw [← hpolicy]
    exact (hsettled.agrees n).inPlace ((hsettled.isAt n).2.2.trans (CellName.mem_tokens.mp hn))

/-- A storage that refuses a user and a token once. -/
def fussy : Memory := ⟨[], [⟨.set, "user_identity", 1⟩, ⟨.set, "id_token", 1⟩]⟩

/-- A grant that is written at the second try, and a change of the policy that is refused in the
middle. -/
def attempts : List Use :=
  [.reopen .never, .change (.write firstGrant), .change (.write firstGrant),
    .change (.setPolicy .always)]

/-- The storage has been opened again and another grant has been written. -/
def mended : Installation Memory :=
  (closed fussy).run (attempts ++ .reopen .never :: [.change (.write secondGrant)])

/-- The tokens follow the next change of the policy. -/
theorem mended_inForce :
    ∃ store t, mended.store? = some store ∧
      Session.setPolicy .never ⟨store, mended.durable⟩ = .ok true t ∧ t.store.policy = .never ∧
      ∀ n ∈ CellName.tokens, (t.store.cell n).raw ≠ none ∧
        (t.store.cell n).InPlace .never (value? t.durable n.key) := by
  have hends : mended.endsAs .never (fun changed t => decide (changed = true ∧
      ∀ n ∈ CellName.tokens, (t.store.cell n).raw ≠ none)) = true := by decide +kernel
  obtain ⟨store, changed, t, hstore, hok, hasked⟩ := exists_of_endsAs hends
  obtain ⟨rfl, htokens⟩ := of_decide_eq_true hasked
  obtain ⟨hpolicy, -, -, -, hinPlace⟩ := setPolicy_inForce fussy _ store hstore .never true t hok
  have hsince := hinPlace attempts .never [.change (.write secondGrant)] rfl (by decide +kernel)
  exact ⟨store, t, hstore, hok, hpolicy, fun n hn => ⟨htokens n hn, hsince n hn⟩⟩

/-- A change of the policy is refused at the first token. -/
def stranded : Installation Memory :=
  (closed ⟨[], [⟨.set, "access_token", 1⟩]⟩).run
    [.reopen .never, .change (.write firstGrant), .change (.setPolicy .always)]

/-- A change of the policy is refused at an old token, which a grant replaces, and the change back
is refused too. -/
def forgotten : Installation Memory :=
  (closed ⟨[("access_token", "old")],
    [⟨.remove, "access_token", 1⟩, ⟨.set, "access_token", 1⟩]⟩).run
      [.reopen .always, .change (.setPolicy .never), .change (.write firstGrant),
        .change (.setPolicy .always)]

/-- Asking for the policy again does not move the token that has been left behind, and a change that
moves the tokens leaves the copy of the old one. -/
theorem leftBehind_not_inPlace :
    (∃ store t, stranded.store? = some store ∧
      Session.setPolicy .always ⟨store, stranded.durable⟩ = .ok false t ∧
      (t.store.cell .accessToken).raw = some "first" ∧
      ¬ (t.store.cell .accessToken).InPlace .always (value? t.durable "access_token")) ∧
    ∃ store t, forgotten.store? = some store ∧
      Session.setPolicy .never ⟨store, forgotten.durable⟩ = .ok true t ∧
      (t.store.cell .accessToken).raw = some "first" ∧
      ¬ (t.store.cell .accessToken).InPlace .never (value? t.durable "access_token") := by
  constructor
  · have hends : stranded.endsAs .always (fun changed t => decide (changed = false ∧
        (t.store.cell .accessToken).raw = some "first" ∧
        ¬ (t.store.cell .accessToken).InPlace .always
          (value? t.durable "access_token"))) = true := by decide +kernel
    obtain ⟨store, changed, t, hstore, hok, hasked⟩ := exists_of_endsAs hends
    obtain ⟨rfl, hleft⟩ := of_decide_eq_true hasked
    exact ⟨store, t, hstore, hok, hleft⟩
  · have hends : forgotten.endsAs .never (fun changed t => decide (changed = true ∧
        (t.store.cell .accessToken).raw = some "first" ∧
        ¬ (t.store.cell .accessToken).InPlace .never
          (value? t.durable "access_token"))) = true := by decide +kernel
    obtain ⟨store, changed, t, hstore, hok, hasked⟩ := exists_of_endsAs hends
    obtain ⟨rfl, hleft⟩ := of_decide_eq_true hasked
    exact ⟨store, t, hstore, hok, hleft⟩

end Installation

end BearerSession
