import BearerSession.Proofs.Credential.HeaderOrigin
import BearerSession.Proofs.Credential.Identities
import BearerSession.Proofs.Credential.InForce

/-!
# Tokens that are forgotten

Forgetting the authorization empties the cells of the tokens and removes their copies; a change to
the policy that keeps nothing removes the copies alone. From then on there are only tokens of grants
that are still to come. So as long as none is written, a session that is opened on the storage finds
no tokens and leaves none, under whatever policy.
-/

namespace BearerSession

/-- No token is among the values of a storage. -/
def Tokenless (view : String → Option String) : Prop := ∀ n ∈ CellName.tokens, view n.key = none

namespace Snapshot

variable {s : Snapshot}

/-- There are no tokens, neither in the cells nor in the storage. -/
def Forgotten (s : Snapshot) : Prop := s.Each (Cell.HoldsGranted [])

theorem forgotten_iff : s.Forgotten ↔ (∀ n, (s.store.cell n).IsAt n) ∧
    (∀ n ∈ CellName.tokens, (s.store.cell n).raw = none) ∧ Tokenless s.view := by
  constructor
  · refine fun h => ⟨fun n => (h n).1, fun n hn => ?_, fun n hn => ?_⟩
    · refine Option.eq_none_iff_forall_ne_some.mpr fun raw hraw => ?_
      obtain ⟨g, hg, -⟩ := (h n).2 raw (.inl hraw) hn
      contradiction
    · refine Option.eq_none_iff_forall_ne_some.mpr fun raw hraw => ?_
      obtain ⟨g, hg, -⟩ := (h n).2 raw (.inr hraw) hn
      contradiction
  · rintro ⟨hat, hvalues, hview⟩ n
    refine ⟨hat n, fun raw hraw hn => ?_⟩
    rw [hvalues n hn, hview n hn] at hraw
    rcases hraw with hraw | hraw <;> contradiction

/-- Whether a cell has neither a value nor a copy of one. -/
def Bare (s : Snapshot) (n : CellName) : Prop :=
  (s.store.cell n).raw = none ∧ s.view n.key = none

variable {n m : CellName}

/-- A cell that is emptied is bare. -/
theorem bare_emptied (h : (s.store.cell n).IsAt n) : (s.emptied n).Bare n :=
  ⟨congrArg Cell.raw (put_cell_self s n _ _), put_view_self h.1 _ _⟩

/-- It stays so when others are emptied. -/
theorem Bare.emptied (h : s.Bare n) (hm : (s.store.cell m).IsAt m) : (s.emptied m).Bare n := by
  by_cases hne : n = m
  · subst hne
    exact bare_emptied hm
  · rw [Bare, Snapshot.emptied, put_cell_of_ne _ _ _ hne, put_view_of_ne hm.1 _ _ hne]
    exact h

/-- Without tokens there is no header. -/
theorem Forgotten.header (h : s.Forgotten) : s.store.header = none := by
  refine Option.eq_none_iff_forall_ne_some.mpr fun header hheader => ?_
  obtain ⟨a, -, ha, -⟩ := header_eq_some hheader
  rw [(forgotten_iff.mp h).2.1 .accessToken (by decide)] at ha
  contradiction

end Snapshot

section Install

variable {σ : Type} [Durable σ] [LawfulDurable σ] {R : CellRelation}
  {allowed : CellName → String → Prop}

/-- What is said of every cell stays true when an installation is given its identities. -/
theorem CellLaw.keeps_install (law : CellLaw R allowed)
    (hallowed : ∀ n ∈ CellName.installation, ∀ raw, allowed n raw)
    (device : Identity .device) (app : Identity .app) :
    Session.Keeps (σ := σ) (Snapshot.Each R) (Session.install device app) := by
  have hset : ∀ n ∈ CellName.installation, ∀ v,
      Session.Keeps (σ := σ) (Snapshot.Each R) (Session.setIfAbsent n v) := by
    intro n hn v
    have hpolicy : n ≠ .policy := by
      rintro rfl
      exact absurd hn (by decide)
    refine .bind (Session.anyhow_get n _) fun w => ?_
    split
    · exact law.stepLaw.keeps_set hpolicy fun _ raw _ _ _ => hallowed n hn raw
    · exact Session.Keeps.pure ()
  exact .bind (hset .device (by decide) _) fun _ => hset .app (by decide) _

end Install

namespace Session

variable {σ : Type} [Durable σ] [LawfulDurable σ]

open LawfulDurable

/-- What holds of the store that a storage holds, and stays true when identities are given, holds of
the session that is opened. Where opening raises, less is known. -/
theorem openFor_keeps {J : Snapshot → Prop} {K : (String → Option String) → Prop}
    (describer : Describer σ) {c : Config} {d : σ}
    (hinstall : ∀ device app, Keeps (σ := σ) J (install device app))
    (hopen : match openStore c.policy d with
      | .ok store d => J ⟨store, value? d⟩
      | .error _ d => K (value? d))
    (hview : ∀ s, J s → K s.view) :
    match openFor describer.describe c d with
    | .ok store d => J ⟨store, value? d⟩
    | .error _ d => K (value? d) := by
  unfold openFor
  cases hstore : openStore c.policy d with
  | error e d₁ =>
    rw [hstore] at hopen
    exact hopen
  | ok opened d₁ =>
    rw [hstore] at hopen
    cases hget : (opened.cell .device).get with
    | error e =>
      simp only [hget]
      exact hview _ hopen
    | ok device =>
      have hunseen : value? (describer.describe device d₁).2 = value? d₁ :=
        funext (describer.unseen device d₁)
      have hend := anyhow_iff.mp (hinstall (describer.describe device d₁).1
        (.app c.appId c.appVersion)) ⟨opened, (describer.describe device d₁).2⟩
        (show J ⟨opened, value? (describer.describe device d₁).2⟩ from hunseen ▸ hopen)
      simp only [hget]
      generalize install (describer.describe device d₁).1 (.app c.appId c.appVersion)
        (⟨opened, (describer.describe device d₁).2⟩ : Session σ) = r at hend ⊢
      cases r with
      | ok u s => exact hend
      | error e s => exact hview _ hend

/-- A session that is opened is settled on its policy. -/
theorem settled_of_openFor (describer : Describer σ) {c : Config} {d d' : σ} {store : Store}
    (h : openFor describer.describe c d = .ok store d') :
    Settled (fun _ => store.policy) store (value? d') := by
  have hopen := openStore_cases c.policy d
  have hend := openFor_keeps (K := fun _ => True) describer (c := c) (d := d)
    (Cell.agrees_law.keeps_install fun _ _ _ => trivial) ?_ fun _ _ => trivial
  · rw [h] at hend
    exact ⟨fun n => (hend n).1, fun n => (hend n).2⟩
  · generalize openStore c.policy d = r at hopen ⊢
    cases r with
    | ok opened d₁ => exact fun n => ⟨hopen.settled.isAt n, hopen.settled.agrees n⟩
    | error e d₁ => trivial

/-- On a storage without tokens a session is opened that has none, and the storage stays without
them whether opening succeeds or not. -/
theorem openFor_forgotten (describer : Describer σ) (c : Config) {d : σ}
    (h : Tokenless (value? d)) :
    match openFor describer.describe c d with
    | .ok store d => Snapshot.Forgotten ⟨store, value? d⟩
    | .error _ d => Tokenless (value? d) := by
  have hopen := openStore_cases c.policy d
  refine openFor_keeps (J := Snapshot.Forgotten) describer
    ((Cell.granted_law []).keeps_install fun n hn raw htoken => ?_) ?_
    fun s hs => (Snapshot.forgotten_iff.mp hs).2.2
  · cases n <;> first | exact absurd hn (by decide) | exact absurd htoken (by decide)
  · have hview {done : List CellName} {store : Store} {now : String → Option String}
        (hopening : Opening c.policy (value? d) done store now) : Tokenless now := fun n hn =>
      (hopening.entry_or_none n).elim (fun he => he.trans (h n hn)) id
    generalize openStore c.policy d = r at hopen ⊢
    cases r with
    | error e d₁ =>
      obtain ⟨done, store, hopening⟩ := hopen
      exact hview hopening
    | ok store d₁ =>
      refine Snapshot.forgotten_iff.mpr ⟨hopen.settled.isAt, fun n hn => ?_, hview hopen⟩
      exact (hopen.raw_or_none n.mem_all_reverse).elim (fun he => he.trans (h n hn)) id

/-- A session that has forgotten its authorization has no tokens. -/
theorem clearAuthorization_forgets {s t : Session σ} (hs : ∀ n, (s.store.cell n).IsAt n)
    (h : clearAuthorization s = .ok () t) : t.seen.Forgotten := by
  -- each step empties one cell and its entry, and a later one brings neither back
  have hclear (n : CellName) {s t : Session σ} (hs : ∀ n, (s.store.cell n).IsAt n)
      (h : clear n s = .ok () t) :
      (∀ n, (t.store.cell n).IsAt n) ∧ t.seen.Bare n ∧ ∀ m, s.seen.Bare m → t.seen.Bare m := by
    have hseen := ((allOrNothing_clear n s).of_ok h).2
    have hspares : Spares (σ := σ) (· = n) (clear n) := spares_clear rfl
    refine ⟨(hspares.of_ok hs h).isAt, ?_, fun m hm => ?_⟩
    · rw [hseen]
      exact Snapshot.bare_emptied (hs n)
    · rw [hseen]
      exact hm.emptied (hs n)
  obtain ⟨_, s₁, haccess, hrest⟩ := Act.bind_eq_ok.mp h
  obtain ⟨_, s₂, hid, huser⟩ := Act.bind_eq_ok.mp hrest
  obtain ⟨hs₁, haccess₁, -⟩ := hclear .accessToken hs haccess
  obtain ⟨hs₂, hid₂, hkept₂⟩ := hclear .idToken hs₁ hid
  obtain ⟨ht, -, hkept⟩ := hclear .user hs₂ huser
  have htokens : ∀ n ∈ CellName.tokens, t.seen.Bare n := by
    intro n hn
    obtain rfl | rfl := CellName.eq_of_mem_tokens hn
    · exact hkept _ (hkept₂ _ haccess₁)
    · exact hkept _ hid₂
  exact Snapshot.forgotten_iff.mpr ⟨ht, fun n hn => (htokens n hn).1, fun n hn => (htokens n hn).2⟩

/-- Where a change to the policy that keeps no tokens has not raised, the storage has none, whether
the policy is a new one or not. -/
theorem setPolicy_never_tokenless {s t : Session σ} {changed : Bool}
    (hs : Settled (fun _ => s.store.policy) s.store (value? s.durable))
    (h : setPolicy .never s = .ok changed t) : Tokenless (value? t.durable) := by
  have hsettled := setPolicy_settled hs h
  rw [(setPolicy_eq_ok (hs.isAt .policy).2.1 h).1] at hsettled
  intro n hn
  refine (hsettled.agrees n).entry_eq_none ?_
  rw [Cell.persists, (hsettled.isAt n).2.2, CellName.mem_tokens.mp hn]
  rfl

/-- A change that writes no grant leaves a session without tokens, whatever is refused. -/
theorem apply_forgotten {s : Session σ} (h : s.seen.Forgotten) {e : Effect} (he : e.grant? = none) :
    (e.apply s).seen.Forgotten := by
  refine (Cell.granted_law []).apply (Cell.granted_steady []) h fun g hg => ?_
  rw [he] at hg
  contradiction

end Session

end BearerSession
