import BearerSession.Proofs.Credential.Installation

/-!
# Changes of the policy

A change of the policy announces the new one first and then moves the tokens, one after the other.
It can stop between any two of these steps, which leaves few snapshots behind. From each of them
opening the storage again finds its way.
-/

namespace BearerSession

/-- Only the tokens are governed by the policy. -/
theorem CellName.mem_tokens {n : CellName} : n ∈ CellName.tokens ↔ n.governed = true := by
  cases n <;> decide

/-- There are two of them. -/
theorem CellName.eq_of_mem_tokens {n : CellName} (h : n ∈ CellName.tokens) :
    n = .accessToken ∨ n = .idToken := by
  simpa [CellName.tokens] using h

namespace Snapshot

variable {s : Snapshot} {n m : CellName} {c : Cell} {entry : Option String}

@[simp] theorem put_cell_self (s : Snapshot) (n : CellName) (c : Cell) (entry : Option String) :
    (s.put n c entry).store.cell n = c := Store.cell_put_self s.store n c

@[simp] theorem put_cell_of_ne (s : Snapshot) (c : Cell) (entry : Option String) (h : m ≠ n) :
    (s.put n c entry).store.cell m = s.store.cell m := Store.cell_put_of_ne s.store c h

theorem put_view_self (hname : (s.store.cell n).name = n.key) (c : Cell) (entry : Option String) :
    (s.put n c entry).view n.key = entry := by
  rw [put, hname]
  exact Function.update_self n.key entry s.view

theorem put_view_of_ne (hname : (s.store.cell n).name = n.key) (c : Cell) (entry : Option String)
    (h : m ≠ n) : (s.put n c entry).view m.key = s.view m.key := by
  have hkey : m.key ≠ n.key := fun he => h (CellName.key_injective he)
  rw [put, hname]
  exact Function.update_of_ne hkey entry s.view

theorem policy_put_of_ne (s : Snapshot) (c : Cell) (entry : Option String) (h : n ≠ .policy) :
    (s.put n c entry).store.policy = s.store.policy := Session.policy_put_of_ne s.store h c

/-- The policy is announced. -/
def announced (s : Snapshot) (p : Policy) : Snapshot := s.filled .policy p.name

/-- The policy is announced and the tokens are moved. -/
def carriedOut (s : Snapshot) (p : Policy) : Snapshot :=
  ((s.announced p).moved .accessToken).moved .idToken

/-- The snapshots between the steps of a change of policy: before its announcement, after it, and
after the first token has been moved. -/
def stops (s : Snapshot) (p : Policy) : List Snapshot :=
  [s, s.announced p, (s.announced p).moved .accessToken]

/-- Each cell is the one of its name. -/
def Named (s : Snapshot) : Prop := ∀ n, (s.store.cell n).name = n.key

variable {p : Policy}

theorem Named.put (h : s.Named) (hc : c.name = n.key) : (s.put n c entry).Named := by
  intro m
  by_cases hm : m = n
  · rw [hm, put_cell_self, hc]
  · rw [put_cell_of_ne _ _ _ hm, h m]

theorem Named.announced (h : s.Named) (p : Policy) : (s.announced p).Named := h.put (h .policy)

theorem Named.moved (h : s.Named) (n : CellName) : (s.moved n).Named := by
  refine h.put ?_
  rw [Cell.moved_eq]
  exact h n

/-- A new policy is in force as soon as it is announced. -/
theorem policy_announced (s : Snapshot) (p : Policy) : (s.announced p).store.policy = p := by
  simp [announced, filled, put, Store.policy, Cell.filled]

/-- Nothing but the cell of the policy changes with the announcement. -/
theorem Named.announced_of_ne (h : s.Named) (hn : n ≠ .policy) :
    (s.announced p).store.cell n = s.store.cell n ∧
      (s.announced p).view n.key = s.view n.key :=
  ⟨put_cell_of_ne _ _ _ hn, put_view_of_ne (h .policy) _ _ hn⟩

/-- The storage holds a policy that has been announced. -/
theorem Named.stored_announced (h : s.Named) (hg : (s.store.cell .policy).governed = false)
    (p : Policy) : (s.announced p).view CellName.policy.key = some p.name := by
  have hview := put_view_self (h .policy)
    ((s.store.cell .policy).filled s.store.policy p.name) (some p.name)
  rwa [Snapshot.announced, Snapshot.filled, Cell.filledEntry,
    if_pos (Cell.persists_eq_of_not_governed hg _)]

theorem policy_moved (s : Snapshot) (hn : n ≠ .policy) :
    (s.moved n).store.policy = s.store.policy :=
  policy_put_of_ne s _ _ hn

theorem Named.moved_self (h : s.Named) (n : CellName) :
    (s.moved n).store.cell n = (s.store.cell n).moved s.store.policy ∧
      (s.moved n).view n.key = (s.store.cell n).movedEntry s.store.policy (s.view n.key) := by
  simp only [Snapshot.moved, h n]
  exact ⟨put_cell_self _ _ _ _, put_view_self (h n) _ _⟩

theorem Named.moved_of_ne (h : s.Named) (hm : m ≠ n) :
    (s.moved n).store.cell m = s.store.cell m ∧ (s.moved n).view m.key = s.view m.key :=
  ⟨put_cell_of_ne _ _ _ hm, put_view_of_ne (h n) _ _ hm⟩

theorem policy_carriedOut (s : Snapshot) (p : Policy) : (s.carriedOut p).store.policy = p := by
  have haccess := policy_moved (s.announced p) (n := .accessToken) (by decide)
  rw [carriedOut, policy_moved _ (n := .idToken) (by decide), haccess, policy_announced]

/-- What a change of policy has made of a snapshot when the policy is announced and these tokens are
moved. -/
structure Begun (s : Snapshot) (p : Policy) (done : List CellName) (y : Snapshot) : Prop where
  /-- Only tokens are moved. -/
  within : done ⊆ CellName.tokens
  /-- The new policy is in force. -/
  policy : y.store.policy = p
  /-- It is the one that the storage holds. -/
  stored : y.view CellName.policy.key = some p.name
  /-- The other cells are the same, and so are their entries. -/
  same : ∀ n ∉ done, n ≠ .policy →
    y.store.cell n = s.store.cell n ∧ y.view n.key = s.view n.key
  /-- These tokens are where the new policy wants them. -/
  moved : ∀ n ∈ done, y.store.cell n = (s.store.cell n).moved p ∧
    y.view n.key = (s.store.cell n).movedEntry p (s.view n.key)

theorem ne_policy_of_mem_tokens (hn : n ∈ CellName.tokens) : n ≠ .policy := by
  rintro rfl
  exact absurd hn (by decide)

/-- Each token is where it was or where the new policy wants it. -/
theorem Begun.tokens {done : List CellName} {y : Snapshot} (h : s.Begun p done y)
    (hn : n ∈ CellName.tokens) :
    (y.store.cell n = s.store.cell n ∧ y.view n.key = s.view n.key) ∨
      (y.store.cell n = (s.store.cell n).moved p ∧
        y.view n.key = (s.store.cell n).movedEntry p (s.view n.key)) := by
  by_cases hdone : n ∈ done
  · exact .inr (h.moved n hdone)
  · exact .inl (h.same n hdone (ne_policy_of_mem_tokens hn))

theorem Named.begun_announced (h : s.Named) (hg : (s.store.cell .policy).governed = false)
    (p : Policy) : s.Begun p [] (s.announced p) where
  within := List.nil_subset _
  policy := s.policy_announced p
  stored := h.stored_announced hg p
  same _ _ hn := h.announced_of_ne hn
  moved _ hn := absurd hn List.not_mem_nil

/-- The next token may be moved. -/
theorem Begun.next {done : List CellName} {y : Snapshot} (h : s.Begun p done y) (hy : y.Named)
    (hn : n ∈ CellName.tokens) (hnew : n ∉ done) : s.Begun p (n :: done) (y.moved n) := by
  have hpolicy : n ≠ .policy := ne_policy_of_mem_tokens hn
  constructor
  · exact List.cons_subset.mpr ⟨hn, h.within⟩
  · rw [policy_moved y hpolicy, h.policy]
  · rw [(hy.moved_of_ne hpolicy.symm).2, h.stored]
  · intro m hm hmp
    obtain ⟨hmn, hmdone⟩ := not_or.mp (List.mem_cons.not.mp hm)
    obtain ⟨hcell, hview⟩ := hy.moved_of_ne hmn
    rw [hcell, hview]
    exact h.same m hmdone hmp
  · intro m hm
    by_cases hmn : m = n
    · subst hmn
      obtain ⟨hcell, hview⟩ := hy.moved_self m
      obtain ⟨hcell₀, hview₀⟩ := h.same m hnew hpolicy
      rw [hcell, hview, h.policy, hcell₀, hview₀]
      exact ⟨rfl, rfl⟩
    · obtain ⟨hcell, hview⟩ := hy.moved_of_ne hmn
      rw [hcell, hview]
      exact h.moved m ((List.mem_cons.mp hm).resolve_left hmn)

section Stages

variable (h : s.Named) (hg : (s.store.cell .policy).governed = false) (p : Policy)

include h hg

theorem Named.begun_accessToken :
    s.Begun p [.accessToken] ((s.announced p).moved .accessToken) :=
  (h.begun_announced hg p).next (h.announced p) (by decide) (by decide)

/-- A change that is carried out has moved every token. -/
theorem Named.begun_carriedOut : s.Begun p [.idToken, .accessToken] (s.carriedOut p) :=
  (h.begun_accessToken hg p).next ((h.announced p).moved .accessToken) (by decide) (by decide)

/-- Wherever a change of policy stops, it has not begun or some of the tokens are moved. -/
theorem Named.begun_of_mem_stops {y : Snapshot} (hy : y ∈ s.stops p) :
    y = s ∨ ∃ done, s.Begun p done y := by
  simp only [stops, List.mem_cons, List.not_mem_nil, or_false] at hy
  rcases hy with rfl | rfl | rfl
  · exact .inl rfl
  · exact .inr ⟨_, h.begun_announced hg p⟩
  · exact .inr ⟨_, h.begun_accessToken hg p⟩

theorem Named.carriedOut_token (hn : n ∈ CellName.tokens) :
    (s.carriedOut p).store.cell n = (s.store.cell n).moved p ∧
      (s.carriedOut p).view n.key = (s.store.cell n).movedEntry p (s.view n.key) := by
  refine (h.begun_carriedOut hg p).moved n ?_
  simpa [CellName.tokens, or_comm] using hn

end Stages

end Snapshot

namespace Session

variable {σ : Type} [Durable σ]

/-- What there is to do when a policy that is not the one in force is set. -/
def carryOut (p : Policy) : Act (Session σ) Bool := do
  set .policy (.text p.name)
  CellName.tokens.forM fun n => discard (migrate n)
  return true

theorem setPolicy_apply (p : Policy) (s : Session σ) :
    setPolicy p s = if s.store.policy = p then .ok false s else carryOut p s := by
  simp only [setPolicy, Act.bind_apply, Act.get_apply]
  split <;> rfl

variable [LawfulDurable σ]

open LawfulDurable

/-- All or nothing, from one snapshot on. -/
theorem anyhow_seen {α : Type} {f : Act (Session σ) α} {x after : Snapshot}
    (h : ∀ s : Session σ, s.seen = x → ∃ a, AllOrNothing seen f s a after) :
    Anyhow (fun s => s.seen = x) f (fun _ s => s.seen = after) fun s => s.seen = x := by
  refine anyhow_iff.mpr fun s hs => ?_
  obtain ⟨a, hf⟩ := h s hs
  cases hr : f s with
  | ok b t => exact (hf.of_ok hr).2
  | error e t => exact (hf.of_error hr).trans hs

theorem anyhow_migrate (n : CellName) (x : Snapshot) :
    Anyhow (fun s : Session σ => s.seen = x) (migrate n) (fun _ s => s.seen = x.moved n)
      fun s => s.seen = x := by
  refine anyhow_seen fun s hs => ?_
  subst hs
  exact ⟨_, allOrNothing_migrate n s⟩

/-- The policy is carried out, or one of the stops is reached where something is refused. -/
theorem anyhow_carryOut {x : Snapshot} (hkind : (x.store.cell .policy).kind = .plain)
    (p : Policy) :
    Anyhow (fun s : Session σ => s.seen = x) (carryOut p)
      (fun changed s => changed = true ∧ s.seen = x.carriedOut p) fun s => s.seen ∈ x.stops p := by
  have hset : Anyhow (fun s : Session σ => s.seen = x) (set .policy (.text p.name))
      (fun _ s => s.seen = x.announced p) fun s => s.seen = x := by
    refine anyhow_seen fun s hs => ⟨(), ?_⟩
    subst hs
    exact allOrNothing_set_text hkind p.name
  have hmove : ∀ n, ∀ y ∈ x.stops p, Anyhow (fun s : Session σ => s.seen = y)
      (discard (migrate n)) (fun _ s => s.seen = y.moved n) fun s => s.seen ∈ x.stops p :=
    fun n y hy => .discard ((anyhow_migrate n y).weaken (fun _ h => h) (fun _ _ h => h)
      fun s h => h ▸ hy)
  refine .bind (hset.weaken (fun _ h => h) (fun _ _ h => h) fun s h => ?_) fun _ =>
    .bind (Q := fun _ (s : Session σ) => s.seen = x.carriedOut p) ?_ fun _ => ?_
  · simp [Snapshot.stops, h]
  · refine .bind (hmove .accessToken _ (by simp [Snapshot.stops])) fun _ => ?_
    refine .bind (hmove .idToken _ (by simp [Snapshot.stops])) fun _ => ?_
    exact .pure (Q := fun _ (s : Session σ) => s.seen = x.carriedOut p) ()
  · exact .given (.pure true) fun s h => ⟨rfl, h⟩

/-- A change to the policy in force does nothing, a change to another one is carried out, and a
change that raises has come to one of its stops. -/
theorem setPolicy_cases {s : Session σ} (hkind : (s.store.cell .policy).kind = .plain)
    (p : Policy) :
    match setPolicy p s with
    | .ok changed t => changed = false ∧ s.store.policy = p ∧ t = s ∨
      changed = true ∧ s.store.policy ≠ p ∧ t.seen = s.seen.carriedOut p
    | .error _ t => t.seen ∈ s.seen.stops p := by
  rw [setPolicy_apply]
  by_cases hp : s.store.policy = p
  · rw [if_pos hp]
    exact .inl ⟨rfl, hp, rfl⟩
  · rw [if_neg hp]
    have hend := anyhow_iff.mp (anyhow_carryOut (x := s.seen) hkind p) s rfl
    cases hr : carryOut p s with
    | ok changed t =>
      rw [hr] at hend
      exact .inr ⟨hend.1, hp, hend.2⟩
    | error e t => rwa [hr] at hend

/-- A change of the policy that does not raise says whether the policy is a new one. It does nothing
or all there is to do. -/
theorem setPolicy_eq_ok {s t : Session σ} {p : Policy} {changed : Bool}
    (hkind : (s.store.cell .policy).kind = .plain) (h : setPolicy p s = .ok changed t) :
    t.store.policy = p ∧ (changed = true ↔ s.store.policy ≠ p) ∧ (changed = false → t = s) ∧
      (changed = true → t.seen = s.seen.carriedOut p) := by
  have hcases := setPolicy_cases hkind p
  rw [h] at hcases
  obtain ⟨rfl, hp, rfl⟩ | ⟨rfl, hp, hseen⟩ := hcases
  · exact ⟨hp, by simp [hp], fun _ => rfl, fun h => absurd h Bool.false_ne_true⟩
  · refine ⟨?_, by simp [hp], fun h => absurd h.symm Bool.false_ne_true, fun _ => hseen⟩
    have hpolicy := s.seen.policy_carriedOut p
    rwa [← hseen] at hpolicy

/-- Wherever a change of the policy stops, it has not begun or some of the tokens are moved. -/
theorem setPolicy_begun {s : Session σ} (hs : ∀ n, (s.store.cell n).IsAt n) (p : Policy) :
    ((setPolicy p).after s).seen = s.seen ∨
      ∃ done, s.seen.Begun p done ((setPolicy p).after s).seen := by
  have hnamed : s.seen.Named := fun n => (hs n).1
  have hcases := setPolicy_cases (hs .policy).2.1 p
  unfold Act.after
  cases hr : setPolicy p s with
  | ok changed t =>
    rw [hr] at hcases
    obtain ⟨-, -, rfl⟩ | ⟨-, -, hseen⟩ := hcases
    · exact .inl rfl
    · rw [hseen]
      exact .inr ⟨_, hnamed.begun_carriedOut (hs .policy).2.2 p⟩
  | error e t =>
    rw [hr] at hcases
    exact hnamed.begun_of_mem_stops (hs .policy).2.2 p hcases

end Session

end BearerSession
