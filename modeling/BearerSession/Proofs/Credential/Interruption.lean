import BearerSession.Proofs.Credential.PolicyChange

/-!
# Interrupted changes of the policy

A change of the policy may be cut short: the storage refuses one of its operations, or the program
ends just before one. The session that goes on loses no value, and opening the storage again finds
the old policy or the new one, with the header of before or none.
-/

namespace BearerSession

namespace Snapshot

/-- What opening a storage has to know of a session that was changing its policy. -/
structure Underway (x : Snapshot) (p : Policy) (y : Snapshot) : Prop where
  /-- The old policy is in force or the new one. -/
  policy : y.store.policy = x.store.policy ∨ y.store.policy = p
  /-- It is the one that the storage holds. -/
  stored : .stored x.store.defaultPolicy y.view = y.store.policy
  /-- The cells that no policy governs are the same, and so are their entries. -/
  installation : ∀ n, n.governed = false → n ≠ .policy →
    y.store.cell n = x.store.cell n ∧ y.view n.key = x.view n.key
  /-- The tokens are the same, whatever their states are, and the storage holds nothing else. -/
  tokens : ∀ n ∈ CellName.tokens,
    y.store.cell n = { x.store.cell n with state := (y.store.cell n).state } ∧
      (y.view n.key = (x.store.cell n).raw ∨ y.view n.key = none)

variable {x y : Snapshot} {p : Policy}

theorem underway_self (h : Settled (fun _ => x.store.policy) x.store x.view) (p : Policy) :
    x.Underway p x where
  policy := .inl rfl
  stored := h.stored_eq
  installation _ _ _ := ⟨rfl, rfl⟩
  tokens n _ := by
    refine ⟨rfl, ?_⟩
    rw [(h.agrees n).1]
    split
    · exact .inl rfl
    · exact .inr rfl

theorem Begun.underway {done : List CellName} (h : x.Begun p done y)
    (hx : Settled (fun _ => x.store.policy) x.store x.view) : x.Underway p y where
  policy := .inr h.policy
  stored := by
    rw [Policy.stored, h.stored, h.policy]
    simp
  installation n hn := h.same n fun hdone => by
    rw [CellName.mem_tokens.mp (h.within hdone)] at hn
    contradiction
  tokens n hn := by
    obtain ⟨-, hentry⟩ := (underway_self hx p).tokens n hn
    obtain ⟨hcell, hview⟩ | ⟨hcell, hview⟩ := h.tokens hn
    · rw [hcell, hview]
      exact ⟨rfl, hentry⟩
    · rw [hcell, hview]
      refine ⟨Cell.moved_eq _ _, ?_⟩
      unfold Cell.movedEntry
      split
      · exact hentry
      · split
        · exact .inl rfl
        · exact .inr rfl

/-- What opening a storage again finds of the session that was changing its policy. -/
structure Recovered (x : Snapshot) (p : Policy) (u : Store) (now : String → Option String) :
    Prop where
  /-- The old policy is in force or the new one. -/
  policy : u.policy = x.store.policy ∨ u.policy = p
  /-- The cells that no policy governs are the same. -/
  installation : ∀ n, n.governed = false → n ≠ .policy → u.cell n = x.store.cell n
  /-- The header is the same, or there is none. -/
  header : u.header = x.store.header ∨ u.header = none
  /-- A storage that is to keep no tokens holds none. -/
  never : u.policy = .never → ∀ n ∈ CellName.tokens, now n.key = none

/-- A header of which a part is missing is none. -/
theorem authorization_of_parts {a a' i i' : Option String} (ha : a' = a ∨ a' = none)
    (hi : i' = i ∨ i' = none) :
    Header.authorization a' i' = Header.authorization a i ∨ Header.authorization a' i' = none := by
  rcases ha with rfl | rfl
  · rcases hi with rfl | rfl
    · exact .inl rfl
    · right
      simp [Header.authorization]
  · right
    simp [Header.authorization]

/-- A change of policy that is underway is found out by opening the storage again. -/
theorem Underway.recovered (hx : Settled (fun _ => x.store.policy) x.store x.view)
    (h : x.Underway p y) {u : Store} {now : String → Option String}
    (hopen : Opening x.store.defaultPolicy y.view CellName.all.reverse u now) :
    x.Recovered p u now := by
  have hpolicy : u.policy = y.store.policy :=
    (hopen.policy_eq (CellName.mem_all_reverse .policy)).trans h.stored
  have htoken : ∀ n ∈ CellName.tokens,
      (u.cell n).raw = (x.store.cell n).raw ∨ (u.cell n).raw = none := by
    intro n hn
    obtain hraw | hraw := hopen.raw_or_none n.mem_all_reverse
    · rw [hraw]
      exact (h.tokens n hn).2
    · exact .inr hraw
  constructor
  · rw [hpolicy]
    exact h.policy
  · intro n hn hnp
    have hpersists : (x.store.cell n).persists x.store.policy = true :=
      Cell.persists_eq_of_not_governed ((hx.isAt n).2.2.trans hn) _
    have hagain := Cell.opened_blank_eq (hx.isAt n) (hx.agrees n) hpersists
    rw [(hopen.opened n n.mem_all_reverse).1, (h.installation n hn hnp).2]
    simp only [Cell.opened, Cell.filled, Cell.persists_eq_of_not_governed (c := n.blank) hn]
      at hagain ⊢
    exact hagain
  · exact authorization_of_parts (htoken .accessToken (by decide)) (htoken .idToken (by decide))
  · intro hnever n hn
    have hkept : n.blank.persists u.policy = false := by
      have hg : n.blank.governed = true := CellName.mem_tokens.mp hn
      simp [Cell.persists, hnever, hg]
    rw [hopen.policy_eq (CellName.mem_all_reverse .policy)] at hkept
    rw [(hopen.opened n n.mem_all_reverse).2, Cell.kept, hkept, if_neg Bool.false_ne_true]

end Snapshot

namespace Session

variable {σ : Type} [Durable σ] [CountedDurable σ]

open LawfulDurable

/-- Wherever a change of policy stops, it is underway. -/
theorem setPolicy_underway {τ : Type} [Durable τ] [LawfulDurable τ] {s : Session τ}
    (hs : Settled (fun _ => s.store.policy) s.store (value? s.durable)) (p : Policy) :
    s.seen.Underway p ((setPolicy p).after s).seen := by
  obtain hsame | ⟨done, hbegun⟩ := setPolicy_begun hs.isAt p
  · rw [hsame]
    exact Snapshot.underway_self hs p
  · exact hbegun.underway hs

/-- The session on a storage that refuses some of the operations from now on. -/
def facing (s : Session σ) (refuses : Nat → Bool) : Session (Unreliable σ) :=
  ⟨s.store, ⟨s.durable, refuses⟩⟩

/-- A session that has met no refusal changes its policy, and the storage refuses some of the
operations from then on. However far the change comes, the session has the values it had; and once
the storage works again, what the change has left there can be opened and is as good as before. A
program that ends just before an operation is one of which that operation and all later ones are
refused. -/
theorem life_setPolicy_interrupted (defaultPolicy : Policy) (d : σ) (uses : List Use)
    (hcalm : (life defaultPolicy d uses).refusals = CountedDurable.refusals d) (p : Policy)
    (refuses : Nat → Bool) (t : Session (Unreliable σ))
    (ht : (setPolicy p).after ((life defaultPolicy d uses).facing refuses) = t) :
    (∀ n, n ≠ .policy →
      (t.store.cell n).raw = ((life defaultPolicy d uses).store.cell n).raw ∧
        (t.store.cell n).get = ((life defaultPolicy d uses).store.cell n).get) ∧
    (CountedDurable.refusals (Act.after
        (openStore (life defaultPolicy d uses).store.defaultPolicy) t.durable.backend) =
          CountedDurable.refusals t.durable.backend →
      ∃ u d', openStore (life defaultPolicy d uses).store.defaultPolicy t.durable.backend =
          .ok u d' ∧
        (life defaultPolicy d uses).seen.Recovered p u (value? d')) := by
  have hx := (life_consistent defaultPolicy d uses).2 hcalm
  generalize life defaultPolicy d uses = s at hx ht ⊢
  change Settled (fun _ => s.seen.store.policy) s.seen.store s.seen.view at hx
  have hunderway : s.seen.Underway p t.seen :=
    ht ▸ setPolicy_underway (s := s.facing refuses) hx p
  constructor
  · intro n hn
    have hsame : t.store.cell n = { s.store.cell n with state := (t.store.cell n).state } := by
      cases hg : n.governed with
      | true => exact (hunderway.tokens n (CellName.mem_tokens.mpr hg)).1
      | false =>
        have hcell : t.store.cell n = s.store.cell n := (hunderway.installation n hg hn).1
        rw [hcell]
    rw [hsame]
    exact ⟨rfl, rfl⟩
  · intro hworks
    have hopened := undisturbed_openStore s.store.defaultPolicy (value? t.durable.backend)
      t.durable.backend
    have hpost := hopened.2 hworks rfl
    cases hopen : openStore s.store.defaultPolicy t.durable.backend with
    | ok u d' =>
      rw [hopen] at hpost
      exact ⟨u, d', rfl, hunderway.recovered hx hpost⟩
    | error e d' =>
      rw [hopen] at hpost
      exact absurd hpost id

/-- A grant is written while no tokens are to be kept. -/
def lightTravel : List Use :=
  [.change (.write ⟨"light", "light-id", .empty, some "c", by decide, by decide⟩)]

/-- The session after that, of which the program ends before the second token is kept. -/
def cutShort : Session (Unreliable Memory) :=
  (life .never worn lightTravel).facing fun n => 2 ≤ n

/-- One token has got into the storage, and the other one has not. -/
theorem cutShort_interrupted :
    (life .never worn lightTravel).refusals = CountedDurable.refusals worn ∧
    (∃ e, setPolicy .always cutShort = .error e ((setPolicy .always).after cutShort)) ∧
    value? ((setPolicy .always).after cutShort).durable "access_token" = some "light" ∧
    (∀ n, n ≠ .policy →
      (((setPolicy .always).after cutShort).store.cell n).raw =
          ((life .never worn lightTravel).store.cell n).raw ∧
        (((setPolicy .always).after cutShort).store.cell n).get =
          ((life .never worn lightTravel).store.cell n).get) ∧
    ∃ u d', openStore (life .never worn lightTravel).store.defaultPolicy
        ((setPolicy .always).after cutShort).durable.backend = .ok u d' ∧
      (life .never worn lightTravel).seen.Recovered .always u (value? d') := by
  have hcalm : (life .never worn lightTravel).refusals = CountedDurable.refusals worn := by
    decide +kernel
  have hraises : (setPolicy .always).raises cutShort = true := by decide +kernel
  obtain ⟨hvalues, hopen⟩ := life_setPolicy_interrupted .never worn lightTravel hcalm .always
    (fun n => 2 ≤ n) _ rfl
  exact ⟨hcalm, Act.exists_eq_error hraises, by decide +kernel, hvalues,
    hopen (by decide +kernel)⟩

end Session

end BearerSession
