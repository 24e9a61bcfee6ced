import BearerSession.Proofs.Credential.Forgetting
import BearerSession.Proofs.Credential.Reached

/-!
# Clearing an authorization

The cells of an authorization are emptied one after the other, the access token first. What the
storage refuses stops that where it is. Either all three are gone for good, or the header is still
the one from before, or there is none; and nothing else is touched in any case.
-/

namespace BearerSession

/-- The cells of an authorization, in the order in which they are emptied. -/
def CellName.authorization : List CellName := [.accessToken, .idToken, .user]

/-- Whether a storage carries out any removals from now on. -/
def RemovesAll {σ : Type} [Durable σ] (d : σ) : Prop :=
  ∀ keys : List String, Act.raises (keys.forM Durable.remove) d = false

/-- The next removal is carried out, and those after it will be. -/
theorem RemovesAll.exists_remove {σ : Type} [Durable σ] {d : σ} (h : RemovesAll d) (key : String) :
    ∃ d', Durable.remove key d = .ok () d' ∧ RemovesAll d' := by
  have hraises (keys : List String) : Act.raises (Durable.remove key >>= fun _ =>
      keys.forM Durable.remove) d = false := h (key :: keys)
  simp only [Act.raises, Act.bind_apply] at hraises
  cases hremove : Durable.remove key d with
  | ok u d' =>
    simp only [hremove] at hraises
    exact ⟨d', rfl, hraises⟩
  | error e d' =>
    simp only [hremove] at hraises
    exact absurd (hraises []) (by decide)

namespace Snapshot

variable {s : Snapshot} {n : CellName}

/-- Several cells are emptied, one after the other. -/
def emptiedAll (s : Snapshot) (names : List CellName) : Snapshot := names.foldl emptied s

theorem isAt_emptied (h : ∀ m, (s.store.cell m).IsAt m) (n m : CellName) :
    ((s.emptied n).store.cell m).IsAt m := by
  by_cases hm : m = n
  · subst hm
    rw [emptied, put_cell_self]
    exact h m
  · rw [emptied, put_cell_of_ne _ _ _ hm]
    exact h m

/-- A cell that is bare stays so when others are emptied. -/
theorem Bare.emptiedAll (hn : s.Bare n) (h : ∀ m, (s.store.cell m).IsAt m)
    (names : List CellName) : (s.emptiedAll names).Bare n := by
  induction names generalizing s with
  | nil => exact hn
  | cons m rest ih => exact ih (hn.emptied (h m)) (isAt_emptied h m)

/-- Each of the cells that are emptied is bare in the end. -/
theorem bare_emptiedAll (h : ∀ m, (s.store.cell m).IsAt m) {names : List CellName}
    (hn : n ∈ names) : (s.emptiedAll names).Bare n := by
  induction names generalizing s with
  | nil => contradiction
  | cons m rest ih =>
    rcases List.mem_cons.mp hn with rfl | hn
    · exact (bare_emptied (h n)).emptiedAll (isAt_emptied h n) rest
    · exact ih (isAt_emptied h m) hn

/-- Whether nothing is left of an authorization, neither in the cells nor in the storage. -/
def Cleared (s : Snapshot) : Prop := ∀ n ∈ CellName.authorization, s.Bare n

/-- Without an access token there is no header. -/
theorem Bare.header (h : s.Bare .accessToken) : s.store.header = none := by
  rw [Store.header, h.1]
  rfl

end Snapshot

namespace Installation

variable {σ : Type} [Durable σ] [LawfulDurable σ]

open LawfulDurable

/-- Whether nothing is left of an authorization in an installation: not in the storage, and not in
the store that is open, if any. -/
def Cleared (i : Installation σ) : Prop :=
  ∀ n ∈ CellName.authorization,
    value? i.durable n.key = none ∧ ∀ store ∈ i.store?, (store.cell n).raw = none

/-- Opening the storage brings nothing back, whether it succeeds or not. -/
theorem Cleared.reopen {i : Installation σ} (h : i.Cleared) (defaultPolicy : Policy) :
    (i.use (.reopen defaultPolicy)).Cleared := by
  intro n hn
  have hentry {done : List CellName} {store : Store} {now : String → Option String}
      (hopening : Opening defaultPolicy (value? i.durable) done store now) : now n.key = none :=
    (hopening.entry_or_none n).elim (fun he => he.trans (h n hn).1) id
  have hopen := Session.openStore_cases defaultPolicy i.durable
  simp only [Installation.use]
  generalize Session.openStore defaultPolicy i.durable = r at hopen ⊢
  cases r with
  | ok store d =>
    refine ⟨hentry hopen, ?_⟩
    rintro _ ⟨⟩
    exact (hopen.raw_or_none n.mem_all_reverse).elim (fun he => he.trans (h n hn).1) id
  | error e d =>
    obtain ⟨done, store, hopening⟩ := hopen
    exact ⟨hentry hopening, fun _ h => absurd h (Option.not_mem_none _)⟩

/-- However often it is opened. -/
theorem Cleared.reopenings {i : Installation σ} (h : i.Cleared) (defaults : List Policy) :
    (i.run (defaults.map .reopen)).Cleared := by
  refine run_keeps (fun j u hu hj => ?_) h
  obtain ⟨defaultPolicy, -, rfl⟩ := List.mem_map.mp hu
  exact hj.reopen defaultPolicy

end Installation

namespace Session

variable {σ : Type} [Durable σ] [LawfulDurable σ]

open LawfulDurable Snapshot

/-- Emptying cells one after the other gets through all of them, or stops before one of them. -/
theorem clearAll_cases (names : List CellName) (s : Session σ) :
    match (names.forM clear : Act (Session σ) Unit) s with
    | .ok _ t => t.seen = s.seen.emptiedAll names
    | .error _ t => ∃ done n rest, names = done ++ n :: rest ∧ t.seen = s.seen.emptiedAll done := by
  induction names generalizing s with
  | nil => rfl
  | cons n rest ih =>
    have hclear := allOrNothing_clear n s
    change match (clear n >>= fun _ => rest.forM clear : Act (Session σ) Unit) s with
      | .ok _ t => _
      | .error _ t => _
    rw [Act.bind_apply]
    cases hn : clear n s with
    | ok u r =>
      have hr : r.seen = s.seen.emptied n := (hclear.of_ok hn).2
      have hrest := ih r
      dsimp only
      cases hresult : (rest.forM clear : Act (Session σ) Unit) r with
      | ok v t =>
        simp only [hresult, hr] at hrest
        exact hrest
      | error e t =>
        simp only [hresult, hr] at hrest
        obtain ⟨done, m, more, hnames, ht⟩ := hrest
        exact ⟨n :: done, m, more, by rw [hnames]; rfl, ht⟩
    | error e t => exact ⟨[], n, rest, rfl, hclear.of_error hn⟩

omit [LawfulDurable σ] in
theorem clearAuthorization_eq :
    (clearAuthorization : Act (Session σ) Unit) = CellName.authorization.forM clear := by
  simp only [clearAuthorization, CellName.authorization, List.forM, bind_pure_unit]

omit [LawfulDurable σ] in
/-- Where the storage carries out every removal, so does it with those of several cells. -/
theorem exists_clearAll_eq_ok (names : List CellName) {s : Session σ} (h : RemovesAll s.durable) :
    ∃ t, (names.forM clear : Act (Session σ) Unit) s = .ok () t := by
  induction names generalizing s with
  | nil => exact ⟨s, rfl⟩
  | cons n rest ih =>
    obtain ⟨d, hremove, hd⟩ := h.exists_remove (s.store.cell n).name
    have hclear : clear n s = .ok () ⟨s.store.put n (s.store.cell n).emptied, d⟩ := by
      simp only [clear, change, onCell, Cell.clear, Act.bind_apply, hremove]
      rfl
    obtain ⟨t, ht⟩ := ih (s := ⟨s.store.put n (s.store.cell n).emptied, d⟩) hd
    exact ⟨t, Act.bind_eq_ok.mpr ⟨(), _, hclear, ht⟩⟩

/-- A session whose authorization has been cleared has nothing left of it. -/
theorem cleared_of_clearAuthorization {s t : Session σ} (hs : ∀ n, (s.store.cell n).IsAt n)
    (h : clearAuthorization s = .ok () t) : t.seen.Cleared := by
  have hcases := clearAll_cases CellName.authorization s
  rw [← clearAuthorization_eq, h] at hcases
  intro n hn
  rw [hcases]
  exact Snapshot.bare_emptiedAll hs hn

/-- Where clearing stops, the header is the one from before, or there is none. -/
theorem header_of_clearAuthorization_error {s t : Session σ} {e : Raised}
    (hs : ∀ n, (s.store.cell n).IsAt n) (h : clearAuthorization s = .error e t) :
    t.store.header = none ∨ t.store.header = s.store.header := by
  have hcases := clearAll_cases CellName.authorization s
  rw [← clearAuthorization_eq, h] at hcases
  obtain ⟨done, n, rest, hnames, hseen⟩ := hcases
  cases done with
  | nil => exact .inr (congrArg (fun x => x.store.header) hseen)
  | cons m more =>
    -- the access token goes first
    left
    obtain ⟨rfl, -⟩ := List.cons.inj hnames
    have hbare : (s.seen.emptiedAll (.accessToken :: more)).Bare .accessToken :=
      Snapshot.bare_emptiedAll hs List.mem_cons_self
    rw [← hseen] at hbare
    exact hbare.header

/-- Clearing leaves all cells but those of the authorization alone, wherever it stops. -/
theorem clearAuthorization_sameOutside {s : Session σ} (hs : ∀ n, (s.store.cell n).IsAt n) :
    s.seen.SameOutside (· ∈ CellName.authorization) (clearAuthorization.after s).seen := by
  have law := s.seen.sameOutside_law (· ∈ CellName.authorization)
  have hkeeps : Keeps (σ := σ) (s.seen.SameOutside (· ∈ CellName.authorization))
      clearAuthorization :=
    .bind (law.keeps_clear (by decide)) fun _ =>
      .bind (law.keeps_clear (by decide)) fun _ => law.keeps_clear (by decide)
  exact hkeeps.after (Snapshot.sameOutside_self hs _)

/-- It leaves the policy in force. -/
theorem policy_clearAuthorization (s : Session σ) :
    (clearAuthorization.after s).store.policy = s.store.policy := by
  have hclear {n : CellName} (hn : n ≠ .policy) :
      Keeps (σ := σ) (fun x => x.store.policy = s.store.policy) (clear n) :=
    .of_allOrNothing fun t ht =>
      ⟨_, _, allOrNothing_clear n t, (policy_put_of_ne t.store hn _).trans ht⟩
  have hkeeps : Keeps (σ := σ) (fun x => x.store.policy = s.store.policy) clearAuthorization :=
    .bind (hclear (by decide)) fun _ =>
      .bind (hclear (by decide)) fun _ => hclear (by decide)
  exact hkeeps.after rfl

/-- A session that has been reached is cleared of its authorization for good, or keeps its header or
loses it as a whole; then it can still be cleared later, as soon as the storage carries out all
removals. Whether clearing succeeds or not, the policy, the client and the identities of device and
application stay as they are, and so do their entries. -/
theorem clearAuthorization_clearsForGood (s : Session σ) (hs : s.Reached) :
    (match clearAuthorization s with
      | .ok _ t => t.seen.Cleared ∧ ∀ (d : σ) (defaults : List Policy),
          value? d = value? t.durable →
            ((Installation.closed d).run (defaults.map .reopen)).Cleared
      | .error _ t => (t.store.header = none ∨ t.store.header = s.store.header) ∧
          ∀ (calls : List StoreCall) (later : Session σ),
            later.seen = (calls.foldl call t).seen → RemovesAll later.durable →
              ∃ u, clearAuthorization later = .ok () u ∧ u.seen.Cleared) ∧
      (clearAuthorization.after s).store.policy = s.store.policy ∧
      ∀ n ∈ [CellName.policy, .clientId, .device, .app],
        (clearAuthorization.after s).store.cell n = s.store.cell n ∧
          value? (clearAuthorization.after s).durable n.key = value? s.durable n.key := by
  have hsound := hs.sound
  refine ⟨?_, policy_clearAuthorization s, fun n hn => ?_⟩
  · cases h : clearAuthorization s with
    | ok u t =>
      have hcleared := cleared_of_clearAuthorization hsound.isAt h
      refine ⟨hcleared, fun d defaults hd => Installation.Cleared.reopenings (fun n hn => ?_) _⟩
      refine ⟨(congrFun hd n.key).trans (hcleared n hn).2, ?_⟩
      exact fun _ h => absurd h (Option.not_mem_none _)
    | error e t =>
      refine ⟨header_of_clearAuthorization_error hsound.isAt h, fun calls later hseen hworks => ?_⟩
      have ht : t.Sound := by
        have hafter := hsound.call (.change .clear)
        simp only [Session.call, Effect.apply, Act.after, h] at hafter
        exact hafter
      have hlater : later.Sound := by
        unfold Sound
        rw [hseen]
        exact Sound.calls (s := t) ht calls
      obtain ⟨u, hu⟩ := exists_clearAll_eq_ok CellName.authorization hworks
      rw [← clearAuthorization_eq] at hu
      exact ⟨u, hu, cleared_of_clearAuthorization hlater.isAt hu⟩
  · have hframe := clearAuthorization_sameOutside hsound.isAt
    exact hframe.same n (by revert hn; revert n; decide)

/-- A memory that has no refusals left carries out all removals. -/
theorem removesAll_memory {m : Memory}
    (h : ∀ key, Memory.refuse? .remove key m.refusals = none) : RemovesAll m := by
  intro keys
  induction keys generalizing m with
  | nil => rfl
  | cons key rest ih =>
    have hremove : Durable.remove key m =
        .ok () { m with values := Value.eraseEntry key m.values } := by
      simp only [Durable.remove, Memory.attempt, h key]
    change Act.raises (Durable.remove key >>= fun _ => rest.forM Durable.remove) m = false
    simp only [Act.raises, Act.bind_apply, hremove]
    exact ih h

/-- A memory with both tokens and a user, which refuses once to remove the identity token. -/
def clinging : Memory :=
  ⟨[("access_token", "a"), ("id_token", "i"), ("user_identity", "\x7b\x7d")],
    [⟨.remove, "id_token", 1⟩]⟩

/-- The header is lost when clearing is refused, and the rest is cleared at the second attempt. -/
theorem clinging_clearsForGood :
    ∃ (s t u : Session Memory) (e : Raised), s.Reached ∧ s.store.header = some "Bearer a i" ∧
      clearAuthorization s = .error e t ∧ t.store.header = none ∧
        (t.store.cell .user).raw = some "\x7b\x7d" ∧ RemovesAll t.durable ∧
          clearAuthorization t = .ok () u ∧ u.seen.Cleared := by
  have hends : endsAs .always clinging [] (fun s =>
      let t := clearAuthorization.after s
      decide (s.store.header = some "Bearer a i" ∧ clearAuthorization.raises s = true ∧
        t.store.header = none ∧ (t.store.cell .user).raw = some "\x7b\x7d" ∧
          t.durable.refusals = [⟨.remove, "id_token", 0⟩])) = true := by decide +kernel
  obtain ⟨s, hs, hasked⟩ := exists_reached_of_endsAs hends
  obtain ⟨hheader, hraises, hlost, huser, hrefusals⟩ := of_decide_eq_true hasked
  obtain ⟨e, herror⟩ := Act.exists_eq_error hraises
  have hremoves : RemovesAll (clearAuthorization.after s).durable := by
    refine removesAll_memory fun key => ?_
    rw [hrefusals]
    simp [Memory.refuse?]
  have hcases := (clearAuthorization_clearsForGood s hs).1
  rw [herror] at hcases
  obtain ⟨u, hu, hcleared⟩ := hcases.2 [] (clearAuthorization.after s) rfl hremoves
  exact ⟨s, _, u, e, hs, hheader, herror, hlost, huser, hremoves, hu, hcleared⟩

end Session

end BearerSession
