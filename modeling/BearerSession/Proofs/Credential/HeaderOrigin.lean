import BearerSession.Proofs.Credential.Tokens

/-!
# Where headers come from

The two tokens of a header are in two cells, and their copies are two entries of the durable
storage. What is refused can make the one go a way of its own. Each token of a header is always that
of a grant that has been written. It is the same grant for both, unless a use has torn the tokens of
grants apart: a write that raises and does not give back what the cells had, or a change to keep
tokens that raises while the storage still holds copies of earlier ones.
-/

namespace BearerSession

/-- The grant that is written. -/
def Use.grant? : Use → Option Grant
  | .change e => e.grant?
  | .reopen _ => none

/-- The grants that are written in the course of some uses. -/
def grantsOf (uses : List Use) : List Grant := uses.filterMap Use.grant?

/-- Whether a value may be in a cell: in the cell of a token, it is the token of a grant. -/
def Granted (grants : List Grant) (n : CellName) (raw : String) : Prop :=
  n ∈ CellName.tokens → ∃ g ∈ grants, g.token? n = some raw

/-- Values of cells among which the tokens, if they are all there, are those of one grant. -/
def OneGrant (grants : List Grant) (value : CellName → Option String) : Prop :=
  (∀ n ∈ CellName.tokens, value n ≠ none) →
    ∃ g ∈ grants, ∀ n ∈ CellName.tokens, value n = g.token? n

section Headers

variable {grants : List Grant} {store : Store} {header : String}

/-- Without some of the values there is less to show. -/
theorem OneGrant.mono {value value' : CellName → Option String} (h : OneGrant grants value)
    (hfewer : ∀ n ∈ CellName.tokens, value' n = value n ∨ value' n = none) :
    OneGrant grants value' := by
  intro hall
  have hsame : ∀ n ∈ CellName.tokens, value' n = value n := fun n hn =>
    (hfewer n hn).resolve_right (hall n hn)
  obtain ⟨g, hg, htokens⟩ := h fun n hn => hsame n hn ▸ hall n hn
  exact ⟨g, hg, fun n hn => (hsame n hn).trans (htokens n hn)⟩

/-- A header shows two tokens. -/
theorem header_eq_some (h : store.header = some header) :
    ∃ a i, (store.cell .accessToken).raw = some a ∧ (store.cell .idToken).raw = some i ∧
      header = Header.ofTokens a i := by
  obtain ⟨a, i, ha, hi, -, -, hheader⟩ := Header.authorization_eq_some_iff.mp h
  exact ⟨a, i, ha, hi, hheader⟩

theorem header_of_granted (hheader : store.header = some header)
    (h : ∀ n raw, (store.cell n).raw = some raw → Granted grants n raw) :
    ∃ g ∈ grants, ∃ g' ∈ grants, header = Header.ofTokens g.accessToken g'.idToken := by
  obtain ⟨a, i, ha, hi, rfl⟩ := header_eq_some hheader
  obtain ⟨g, hg, haccess⟩ := h .accessToken a ha (by decide)
  obtain ⟨g', hg', hid⟩ := h .idToken i hi (by decide)
  cases haccess
  cases hid
  exact ⟨g, hg, g', hg', rfl⟩

theorem header_of_oneGrant (hheader : store.header = some header)
    (h : OneGrant grants fun n => (store.cell n).raw) :
    ∃ g ∈ grants, header = Header.ofTokens g.accessToken g.idToken := by
  obtain ⟨a, i, ha, hi, rfl⟩ := header_eq_some hheader
  obtain ⟨g, hg, htokens⟩ := h fun n hn => by
    obtain rfl | rfl := CellName.eq_of_mem_tokens hn
    · simp [ha]
    · simp [hi]
  have haccess := ha.symm.trans (htokens .accessToken (by decide))
  have hid := hi.symm.trans (htokens .idToken (by decide))
  cases haccess
  cases hid
  exact ⟨g, hg, rfl⟩

end Headers

namespace Cell

variable {c : Cell} {p : Policy} {entry : Option String}

/-- A cell and its entry hold only what may be there. -/
abbrev HoldsGranted (grants : List Grant) : CellRelation := fun _ n c entry =>
  c.IsAt n ∧ ∀ raw, c.raw = some raw ∨ entry = some raw → Granted grants n raw

/-- The tokens in cells and in their entries are those of grants, whatever has been refused. -/
theorem granted_law (grants : List Grant) : CellLaw (HoldsGranted grants) (Granted grants) where
  isAt h := h.1
  get := by
    intro p n c entry v h hv c' raw hat hnull hraw hn
    have hplain : n.kind = .plain := by
      cases n <;> first | rfl | exact absurd hn (by decide)
    rw [Cell.get, h.1.2.1, hplain] at hv
    rw [encode, hat.2.1, hplain] at hraw
    cases hc : c.raw with
    | none =>
      rw [hc] at hv
      cases hv
      exact absurd rfl hnull
    | some text =>
      rw [hc] at hv
      cases hv
      simp only [Value.ofText?, Value.display_text, Except.ok.injEq] at hraw
      exact hraw ▸ h.2 text (.inl hc) hn
  emptied _ h := ⟨h.1, by simp [Cell.emptied]⟩
  filled := by
    intro p n c entry raw _ hraw h
    refine ⟨h.1, fun other hother => ?_⟩
    obtain hother | hother := hother
    · cases hother
      exact hraw
    · unfold filledEntry at hother
      split at hother
      · cases hother
        exact hraw
      · exact h.2 other (.inr hother)
  moved := by
    intro p n c entry _ h
    refine ⟨h.1.moved p, fun raw hraw => ?_⟩
    rw [moved_raw] at hraw
    obtain hraw | hraw := hraw
    · exact h.2 raw (.inl hraw)
    · unfold movedEntry at hraw
      split at hraw
      · exact h.2 raw (.inr hraw)
      · split at hraw
        · exact h.2 raw (.inl hraw)
        · contradiction

/-- They are so under every policy. -/
theorem granted_steady (grants : List Grant) : CellLaw.Steady (HoldsGranted grants) where
  under _ _ := rfl
  announced _ h := ⟨h.1, fun _ _ hn => absurd hn (by decide)⟩

/-- A grant leaves its own tokens in the cells of the tokens. -/
theorem allowedValue_of_mem {grants : List Grant} {g : Grant} (hg : g ∈ grants) :
    ∀ e ∈ Session.grantValues g, AllowedValue (Granted grants) e.1 e.2 := by
  intro e he c raw hat _ hraw hn
  obtain rfl | rfl | rfl | ⟨id, -, rfl⟩ := Session.mem_grantValues_iff.mp he
  · simp only [encode, hat.2.1, CellName.kind, Value.display_text, Except.ok.injEq] at hraw
    exact ⟨g, hg, congrArg some hraw⟩
  · simp only [encode, hat.2.1, CellName.kind, Value.display_text, Except.ok.injEq] at hraw
    exact ⟨g, hg, congrArg some hraw⟩
  · exact absurd hn (show CellName.user ∉ CellName.tokens by decide)
  · exact absurd hn (show CellName.clientId ∉ CellName.tokens by decide)

/-- The copy of a value, if there is one, is that of the present value, and there is none where the
policy wants none. -/
def Fresh (c : Cell) (p : Policy) (entry : Option String) : Prop :=
  entry = none ∨ (c.persists p = true ∧ entry = c.raw)

theorem Agrees.fresh (h : c.Agrees p entry) : c.Fresh p entry := by
  obtain ⟨hentry, -⟩ := h
  unfold Fresh
  split at hentry
  · next hp => exact .inr ⟨hp, hentry⟩
  · exact .inl hentry

theorem Fresh.eq_or_none (h : c.Fresh p entry) : entry = c.raw ∨ entry = none :=
  h.elim .inr fun h => .inl h.2

/-- Where copies are wanted, it matters only that they are not those of other values. -/
theorem fresh_always (h : entry = c.raw ∨ entry = none) : c.Fresh .always entry := by
  obtain h | h := h
  · exact .inr ⟨by simp [persists], h⟩
  · exact .inl h

/-- A cell is fresh if it is that of a token. -/
abbrev HoldsFresh : CellRelation := fun p n c entry =>
  c.IsAt n ∧ (n ∈ CellName.tokens → c.Fresh p entry)

/-- The copies of the tokens stay fresh, whatever is refused, as long as the policy is the same. -/
theorem fresh_law : CellLaw HoldsFresh fun _ _ => True where
  isAt h := h.1
  get _ _ _ _ _ _ _ := trivial
  emptied _ h := ⟨h.1, fun _ => .inl rfl⟩
  filled := by
    intro p n c entry raw _ _ h
    refine ⟨h.1, fun hn => ?_⟩
    unfold filledEntry
    split
    · next hp => exact .inr ⟨hp, rfl⟩
    · next hp =>
      exact .inl ((h.2 hn).resolve_right fun hcopy => hp hcopy.1)
  moved := by
    intro p n c entry _ h
    refine ⟨h.1.moved p, fun hn => ?_⟩
    unfold movedEntry
    split
    · next hstate =>
      rw [moved_eq_self hstate]
      exact h.2 hn
    · split
      · next hp =>
        refine .inr ⟨?_, (c.moved_raw p).symm⟩
        rwa [moved_eq]
      · exact .inl rfl

/-- A token that is moved to where copies are wanted has no copy of another value, if it had none
before. -/
theorem fresh_moved_always (h : entry = c.raw ∨ entry = none) :
    (c.moved .always).Fresh .always (c.movedEntry .always entry) := by
  refine fresh_always ?_
  rw [moved_raw]
  unfold movedEntry
  split
  · exact h
  · split
    · exact .inl rfl
    · exact .inr rfl

/-- A sound one has none in any case, since it is written or has been written before. -/
theorem Sound.fresh_moved (h : c.Sound entry) :
    (c.moved .always).Fresh .always (c.movedEntry .always entry) := by
  refine fresh_always ?_
  cases hraw : c.raw with
  | none =>
    have hempty := (h.moved .always).empty
    rw [moved_raw] at hempty
    exact .inr (hempty hraw).2
  | some raw =>
    refine .inl ((h.moved .always).durable ?_)
    simp [moved_of_raw_eq_some hraw, filled, persists]

end Cell

namespace Snapshot

/-- Unless no tokens are to be kept, the copies of the tokens are fresh. -/
def FreshCopies (s : Snapshot) : Prop :=
  s.view CellName.policy.key ≠ some Policy.never.name → s.Each Cell.HoldsFresh

/-- What leaves the policy alone and the copies fresh does so too where they may be stale. -/
theorem FreshCopies.of_same {s y : Snapshot} (h : s.FreshCopies)
    (hsame : s.SameOutside (· ≠ .policy) y)
    (hfresh : s.Each Cell.HoldsFresh → y.Each Cell.HoldsFresh) : y.FreshCopies := by
  intro hstored
  rw [(hsame.same .policy (not_not_intro rfl)).2] at hstored
  exact hfresh (h hstored)

/-- Copies stay fresh in every single step that leaves the policy alone. -/
theorem freshCopies_law :
    StepLaw (fun s => (∀ n, (s.store.cell n).IsAt n) ∧ s.FreshCopies) (· ≠ .policy)
      fun _ _ => True where
  isAt h := h.1
  get _ _ _ _ _ _ _ := trivial
  emptied {s _} hn h := by
    have hsame := (s.sameOutside_law (· ≠ .policy)).emptied hn (sameOutside_self h.1 _)
    exact ⟨hsame.isAt, h.2.of_same hsame (Cell.fresh_law.stepLaw.emptied hn)⟩
  filled {s n raw} hn hraw h := by
    have hsame : s.SameOutside (· ≠ .policy) (s.filled n raw) :=
      (s.sameOutside_law (· ≠ .policy)).filled hn hraw (sameOutside_self h.1 _)
    exact ⟨hsame.isAt, h.2.of_same hsame (Cell.fresh_law.stepLaw.filled hn hraw)⟩

end Snapshot

namespace Installation

variable {σ : Type} [Durable σ]

/-- Whether a use tears the tokens of grants apart: a write that raises and leaves other tokens in
the cells than before, or a change to keep tokens that raises while the storage holds copies of
other tokens than those in the cells. -/
def tears [LawfulDurable σ] (i : Installation σ) (u : Use) : Bool :=
  match u, i.store? with
  | .change (.write g), some store =>
    let write : Act (Session σ) Unit := Session.writeAuthorization g
    write.raises ⟨store, i.durable⟩ && CellName.tokens.any fun n =>
      ((write.after ⟨store, i.durable⟩).store.cell n).raw ≠ (store.cell n).raw
  | .change (.setPolicy .always), some store =>
    (Session.setPolicy .always).raises (⟨store, i.durable⟩ : Session σ) &&
      CellName.tokens.any fun n => LawfulDurable.value? i.durable n.key ≠ none ∧
        LawfulDurable.value? i.durable n.key ≠ (store.cell n).raw
  | _, _ => false

variable [LawfulDurable σ]

open LawfulDurable

/-- The storage and the open store hold only tokens of grants. -/
structure Sourced (grants : List Grant) (i : Installation σ) : Prop where
  /-- The storage does. -/
  stored : ∀ n raw, value? i.durable (CellName.key n) = some raw → Granted grants n raw
  /-- The open store does. -/
  opened : ∀ store ∈ i.store?, Snapshot.Each (Cell.HoldsGranted grants) ⟨store, value? i.durable⟩

/-- A use keeps it so, if it writes one of the grants at most. -/
theorem Sourced.use {grants : List Grant} {i : Installation σ} (h : i.Sourced grants) {u : Use}
    (hu : ∀ g ∈ u.grant?, g ∈ grants) : (i.use u).Sourced grants := by
  obtain ⟨store?, d⟩ := i
  cases u with
  | change e =>
    cases store? with
    | none => exact h
    | some store =>
      have hafter := (Cell.granted_law grants).apply (Cell.granted_steady grants) (s := ⟨store, d⟩)
        (h.opened store rfl) (e := e) fun g hg => Cell.allowedValue_of_mem (hu g hg)
      refine ⟨fun n raw hraw => (hafter n).2 raw (.inr hraw), ?_⟩
      rintro _ ⟨⟩
      exact hafter
  | reopen defaultPolicy =>
    have hkept : ∀ {done store now}, Opening defaultPolicy (value? d) done store now →
        ∀ n raw, now (CellName.key n) = some raw → Granted grants n raw := by
      intro done store now hopening n raw hraw
      obtain hentry | hentry := hopening.entry_or_none n
      · exact h.stored n raw (hentry.symm.trans hraw)
      · rw [hentry] at hraw
        contradiction
    have hcases := Session.openStore_cases defaultPolicy d
    simp only [Installation.use]
    cases hopen : Session.openStore defaultPolicy d with
    | ok store d' =>
      rw [hopen] at hcases
      refine ⟨hkept hcases, ?_⟩
      rintro _ ⟨⟩ n
      refine ⟨hcases.settled.isAt n, ?_⟩
      rintro raw (hraw | hraw)
      · obtain hentry | hentry := hcases.raw_or_none n.mem_all_reverse
        · exact h.stored n raw (hentry.symm.trans hraw)
        · rw [hentry] at hraw
          contradiction
      · exact hkept hcases n raw hraw
    | error e d' =>
      rw [hopen] at hcases
      obtain ⟨done, store, hopening⟩ := hcases
      exact ⟨hkept hopening, fun _ h => absurd h (Option.not_mem_none _)⟩

/-- The tokens in the open store are those of one grant, and so are those in the storage as far as
another opening may find them. -/
structure Unmixed (grants : List Grant) (i : Installation σ) : Prop where
  /-- The storage holds no tokens of different grants, unless no tokens are to be kept. -/
  stored : value? i.durable CellName.policy.key ≠ some Policy.never.name →
    OneGrant grants fun n => value? i.durable n.key
  /-- The open store has none. -/
  values : ∀ store ∈ i.store?, OneGrant grants fun n => (store.cell n).raw
  /-- The copies of the tokens of the open store are fresh. -/
  copies : ∀ store ∈ i.store?, (⟨store, value? i.durable⟩ : Snapshot).FreshCopies

/-- It is enough to know it of the open store. -/
theorem Unmixed.of_open {grants : List Grant} {s : Session σ}
    (hvalues : OneGrant grants fun n => (s.store.cell n).raw) (hcopies : s.seen.FreshCopies) :
    Unmixed grants ⟨some s.store, s.durable⟩ where
  stored hstored := hvalues.mono fun n hn => ((hcopies hstored n).2 hn).eq_or_none
  values := by
    rintro _ ⟨⟩
    exact hvalues
  copies := by
    rintro _ ⟨⟩
    exact hcopies

/-- Where no store is open, only the storage matters. -/
theorem Unmixed.of_closed {grants : List Grant} {d : σ}
    (h : value? d CellName.policy.key ≠ some Policy.never.name →
      OneGrant grants fun n => value? d n.key) : (closed d).Unmixed grants where
  stored := h
  values _ hstore := absurd hstore (Option.not_mem_none _)
  copies _ hstore := absurd hstore (Option.not_mem_none _)

/-- Opening a storage finds tokens of one grant, since it removes what is not to be kept. -/
theorem Unmixed.reopen {grants : List Grant} {i : Installation σ} (h : i.Unmixed grants)
    (defaultPolicy : Policy) : (i.use (.reopen defaultPolicy)).Unmixed grants := by
  have hcases := Session.openStore_cases defaultPolicy i.durable
  simp only [Installation.use]
  cases hopen : Session.openStore defaultPolicy i.durable with
  | ok store d =>
    rw [hopen] at hcases
    refine .of_open (s := ⟨store, d⟩) ?_ fun _ n =>
      ⟨hcases.settled.isAt n, fun _ => (hcases.settled.agrees n).fresh⟩
    by_cases hnever : value? i.durable CellName.policy.key = some Policy.never.name
    · intro hall
      refine absurd ?_ (hall .accessToken (by decide))
      have hstored : Policy.stored defaultPolicy (value? i.durable) = .never := by
        rw [Policy.stored, hnever]
        rfl
      change (store.cell .accessToken).raw = none
      rw [(hcases.opened .accessToken (by decide)).1, hstored]
      cases value? i.durable CellName.accessToken.key <;> rfl
    · exact (h.stored hnever).mono fun n _ => hcases.raw_or_none n.mem_all_reverse
  | error e d =>
    rw [hopen] at hcases
    obtain ⟨done, store, hopening⟩ := hcases
    refine .of_closed fun hstored => ?_
    rw [hopening.policy_entry_eq] at hstored
    exact (h.stored hstored).mono fun n _ => hopening.entry_or_none n

/-- A write that leaves no other tokens behind when it raises leaves the tokens of one grant. -/
theorem Unmixed.write {grants : List Grant} {store : Store} {d : σ}
    (hat : ∀ n, (store.cell n).IsAt n) (h : Unmixed grants ⟨some store, d⟩) {g : Grant}
    (hg : g ∈ grants) (htears : tears ⟨some store, d⟩ (.change (.write g)) = false) :
    (use ⟨some store, d⟩ (.change (.write g))).Unmixed grants := by
  have hkeeps := Snapshot.freshCopies_law.keeps_writeAuthorization (σ := σ) (g := g)
    fun _ _ _ _ _ _ _ => trivial
  refine .of_open (s := (Session.writeAuthorization g).after ⟨store, d⟩) ?_
    (hkeeps.after (s := ⟨store, d⟩) ⟨hat, h.copies store rfl⟩).2
  cases hraises : (Session.writeAuthorization g).raises (⟨store, d⟩ : Session σ) with
  | false =>
    obtain ⟨_, hok⟩ := Act.exists_eq_ok hraises
    exact fun _ => ⟨g, hg, Session.writeAuthorization_ok (s := ⟨store, d⟩) hat hok⟩
  | true =>
    simp only [tears, hraises, Bool.true_and, List.any_eq_false] at htears
    refine (h.values store rfl).mono fun n hn => .inl ?_
    simpa using htears n hn

theorem Unmixed.clear {grants : List Grant} {store : Store} {d : σ}
    (hat : ∀ n, (store.cell n).IsAt n) (h : Unmixed grants ⟨some store, d⟩) :
    (use ⟨some store, d⟩ (.change .clear)).Unmixed grants := by
  have hkeeps := Snapshot.freshCopies_law.keeps_clearAuthorization (σ := σ)
  refine .of_open (s := Session.clearAuthorization.after ⟨store, d⟩) ?_
    (hkeeps.after (s := ⟨store, d⟩) ⟨hat, h.copies store rfl⟩).2
  exact (h.values store rfl).mono fun n _ => Session.clearAuthorization_fewerValues ⟨store, d⟩ n

/-- A change of the policy leaves fresh copies where copies are to be kept, unless it raises while
there are other ones. -/
theorem Unmixed.freshCopies_setPolicy {grants : List Grant} {store : Store} {d : σ}
    (hsound : Sound ⟨some store, d⟩) (h : Unmixed grants ⟨some store, d⟩) {p : Policy}
    (htears : tears ⟨some store, d⟩ (.change (.setPolicy p)) = false) :
    ((Session.setPolicy p).after (⟨store, d⟩ : Session σ)).seen.FreshCopies := by
  have hat : ∀ n, (store.cell n).IsAt n := fun n => (hsound store rfl n).1
  have hat' := fun n => (hsound.use (.change (.setPolicy p)) _ rfl n).1
  have hbegun := Session.setPolicy_begun (s := ⟨store, d⟩) hat p
  cases p with
  | never =>
    obtain hsame | ⟨done, hbegun⟩ := hbegun
    · rw [hsame]
      exact h.copies store rfl
    · exact fun hstored => absurd hbegun.stored hstored
  | always =>
    cases hraises : (Session.setPolicy .always).raises (⟨store, d⟩ : Session σ) with
    | false =>
      obtain ⟨changed, hok⟩ := Act.exists_eq_ok hraises
      obtain ⟨hpolicy, -, hsame, hcarried⟩ := Session.setPolicy_eq_ok (hat .policy).2.1 hok
      cases changed with
      | false =>
        rw [hsame rfl]
        exact h.copies store rfl
      | true =>
        intro _ n
        refine ⟨hat' n, fun hn => ?_⟩
        have hnamed : (⟨store, d⟩ : Session σ).seen.Named := fun m => (hat m).1
        obtain ⟨hcell, hview⟩ := hnamed.carriedOut_token (hat .policy).2.2 .always hn
        rw [← hcarried rfl] at hcell hview
        have hforce : ((Session.setPolicy .always).after
            (⟨store, d⟩ : Session σ)).seen.store.policy = .always := hpolicy
        rw [hcell, hview, hforce]
        exact (hsound store rfl n).2.fresh_moved
    | true =>
      obtain hsame | ⟨done, hbegun⟩ := hbegun
      · rw [hsame]
        exact h.copies store rfl
      · intro _ n
        refine ⟨hat' n, fun hn => ?_⟩
        have hcopy : value? d n.key = (store.cell n).raw ∨ value? d n.key = none := by
          simp only [tears, hraises, Bool.true_and, List.any_eq_false,
            decide_eq_true_eq] at htears
          by_contra hother
          rw [not_or] at hother
          exact htears n hn ⟨hother.2, hother.1⟩
        rw [hbegun.policy]
        obtain ⟨hcell, hview⟩ | ⟨hcell, hview⟩ := hbegun.tokens hn
        · rw [hcell, hview]
          exact Cell.fresh_always hcopy
        · rw [hcell, hview]
          exact Cell.fresh_moved_always hcopy

theorem Unmixed.setPolicy {grants : List Grant} {store : Store} {d : σ}
    (hsound : Sound ⟨some store, d⟩) (h : Unmixed grants ⟨some store, d⟩) {p : Policy}
    (htears : tears ⟨some store, d⟩ (.change (.setPolicy p)) = false) :
    (use ⟨some store, d⟩ (.change (.setPolicy p))).Unmixed grants := by
  refine .of_open (s := (Session.setPolicy p).after ⟨store, d⟩) ?_
    (h.freshCopies_setPolicy hsound htears)
  refine (h.values store rfl).mono fun n hn => .inl ?_
  obtain hsame | ⟨done, hbegun⟩ := Session.setPolicy_begun (s := ⟨store, d⟩)
    (fun n => (hsound store rfl n).1) p
  · exact congrArg (fun s : Snapshot => (s.store.cell n).raw) hsame
  · exact hbegun.raw_eq hn

/-- A use that does not tear tokens apart leaves those of one grant. -/
theorem Unmixed.use {grants : List Grant} {i : Installation σ} (hsound : i.Sound)
    (h : i.Unmixed grants) {u : Use} (hu : ∀ g ∈ u.grant?, g ∈ grants)
    (htears : i.tears u = false) : (i.use u).Unmixed grants := by
  obtain ⟨store?, d⟩ := i
  cases u with
  | reopen defaultPolicy => exact h.reopen defaultPolicy
  | change e =>
    cases store? with
    | none => exact h
    | some store =>
      have hat : ∀ n, (store.cell n).IsAt n := fun n => (hsound store rfl n).1
      cases e with
      | write g => exact h.write hat (hu g rfl) htears
      | clear => exact h.clear hat
      | setPolicy p => exact h.setPolicy hsound htears

/-- A storage that has been empty and that may refuse anything since gives no header but one of two
tokens of grants that have been written. They are those of one grant if no use has torn tokens
apart. -/
theorem header_ofGrants (d : σ) (hempty : ∀ key, value? d key = none) (uses : List Use)
    (store : Store) (hopen : ((closed d).run uses).store? = some store) (header : String)
    (hheader : store.header = some header) :
    (∃ g ∈ grantsOf uses, ∃ g' ∈ grantsOf uses,
      header = Header.ofTokens g.accessToken g'.idToken) ∧
    (Throughout (fun i u => i.tears u = false) (closed d) uses →
      ∃ g ∈ grantsOf uses, header = Header.ofTokens g.accessToken g.idToken) := by
  have hgrants : ∀ u ∈ uses, ∀ g ∈ u.grant?, g ∈ grantsOf uses := fun u hu g hg =>
    List.mem_filterMap.mpr ⟨u, hu, hg⟩
  have hsourced : ((closed d).run uses).Sourced (grantsOf uses) := by
    refine run_keeps (fun _ u hu h => h.use (hgrants u hu)) ⟨fun n raw hraw => ?_,
      fun _ h => absurd h (Option.not_mem_none _)⟩
    exact absurd (hraw.symm.trans (hempty n.key)) (Option.some_ne_none raw)
  refine ⟨header_of_granted hheader fun n raw hraw =>
    (hsourced.opened store hopen n).2 raw (.inl hraw), fun htears => ?_⟩
  have hunmixed : ((closed d).run uses).Sound ∧
      ((closed d).run uses).Unmixed (grantsOf uses) := by
    refine run_induction (I := fun i => i.Sound ∧ i.Unmixed (grantsOf uses))
      (fun _ u hu hi h => ⟨h.1.use u, h.2.use h.1 (hgrants u hu) hi⟩) htears
      ⟨fun _ h => absurd h (Option.not_mem_none _), .of_closed fun _ hall => ?_⟩
    exact absurd (hempty _) (hall .accessToken (by decide))
  exact header_of_oneGrant hheader (hunmixed.2.values store hopen)

/-- A storage that is empty and refuses some of the operations to come. -/
def empty (refusals : List Nat) : Unreliable Memory := ⟨⟨[], []⟩, fun n => n ∈ refusals⟩

/-- The second grant is refused at its second token and taken back, a change of the policy is
refused at the first token, and the change back at the second one. -/
def hardships : List Use :=
  [.reopen .always, .change (.write firstGrant), .change (.write secondGrant),
    .change (.setPolicy .never), .reopen .always, .change (.write secondGrant),
    .change (.setPolicy .always), .reopen .always, .change (.write firstGrant)]

/-- The grant that has been written last gives the header after all this. -/
theorem hardships_ofGrants :
    (∀ key, value? (empty [4, 10, 17]) key = none) ∧
    ∃ store header, ((closed (empty [4, 10, 17])).run hardships).store? = some store ∧
      store.header = some header ∧
      ∃ g ∈ grantsOf hardships, header = Header.ofTokens g.accessToken g.idToken := by
  have hempty : ∀ key, value? (empty [4, 10, 17]) key = none := fun _ => rfl
  have hsome : (((closed (empty [4, 10, 17])).run hardships).store?.bind Store.header).isSome =
      true := by decide +kernel
  obtain ⟨header, hheader⟩ := Option.isSome_iff_exists.mp hsome
  obtain ⟨store, hopen, hheader⟩ := Option.bind_eq_some_iff.mp hheader
  obtain ⟨-, hgrant⟩ := header_ofGrants _ hempty hardships store hopen header hheader
  exact ⟨hempty, store, header, hopen, hheader, hgrant (by decide +kernel)⟩

/-- A token of the one grant and a token of the other are those of neither. -/
theorem exists_torn {i : Installation (Unreliable Memory)} {uses : List Use}
    (huses : grantsOf uses = [firstGrant, secondGrant])
    (htokens : (i.store?.map fun store =>
        ((store.cell .accessToken).raw, (store.cell .idToken).raw)) =
      some (some "second", some "first-id")) :
    ∃ store, i.store? = some store ∧ store.header = some (Header.ofTokens "second" "first-id") ∧
      ¬ ∃ g ∈ grantsOf uses,
        Header.ofTokens "second" "first-id" = Header.ofTokens g.accessToken g.idToken := by
  obtain ⟨store, hopen, htokens⟩ := Option.map_eq_some_iff.mp htokens
  obtain ⟨haccess, hid⟩ := Prod.mk.inj htokens
  refine ⟨store, hopen, ?_, ?_⟩
  · rw [Store.header, haccess, hid]
    rfl
  · rintro ⟨g, hg, heq⟩
    simp only [huses, List.mem_cons, List.not_mem_nil, or_false] at hg
    rcases hg with rfl | rfl
    · simp [firstGrant, Header.ofTokens, Header.bearer] at heq
    · simp [secondGrant, Header.ofTokens, Header.bearer] at heq

/-- A grant is written while copies of another one could not be removed, and the change that is to
keep its tokens is refused at the second one. -/
def staleCopies : List Use :=
  [.reopen .always, .change (.write firstGrant), .change (.setPolicy .never),
    .change (.write secondGrant), .change (.setPolicy .always), .reopen .always]

/-- A grant is refused at its second token, and the first one cannot be given back. -/
def halfWritten : List Use :=
  [.reopen .always, .change (.write firstGrant), .change (.write secondGrant)]

/-- In both cases the header is made of a token of the one grant and a token of the other. -/
theorem staleCopies_torn :
    (∃ store, ((closed (empty [4, 9])).run staleCopies).store? = some store ∧
      store.header = some (Header.ofTokens "second" "first-id") ∧
      ¬ ∃ g ∈ grantsOf staleCopies,
        Header.ofTokens "second" "first-id" = Header.ofTokens g.accessToken g.idToken) ∧
    ∃ store, ((closed (empty [4, 5])).run halfWritten).store? = some store ∧
      store.header = some (Header.ofTokens "second" "first-id") ∧
      ¬ ∃ g ∈ grantsOf halfWritten,
        Header.ofTokens "second" "first-id" = Header.ofTokens g.accessToken g.idToken :=
  ⟨exists_torn rfl (by decide +kernel), exists_torn rfl (by decide +kernel)⟩

end Installation

end BearerSession
