import BearerSession.Proofs.Credential.Consistent
import BearerSession.Proofs.Credential.Effect

/-!
# Restarts

Opening a store on the durable storage of another one gives back what that one holds, as far as its
policy wants it kept, and changes nothing in the storage. This is so after any use of the other
store, as long as nothing was refused.
-/

namespace BearerSession

namespace Cell

/-- What opening makes of an empty cell. -/
def opened (c : Cell) (p : Policy) (entry : Option String) : Cell :=
  match entry with
  | some raw => if c.persists p = true then c.filled p raw else c
  | none => c

/-- What opening leaves of the entry of a cell. -/
def kept (c : Cell) (p : Policy) (entry : Option String) : Option String :=
  if c.persists p = true then entry else none

/-- Opening a cell does not change which one it is. -/
theorem opened_same (c : Cell) (p : Policy) (entry : Option String) :
    (c.opened p entry).name = c.name ∧ (c.opened p entry).kind = c.kind ∧
      (c.opened p entry).governed = c.governed := by
  unfold opened
  split
  · split <;> exact ⟨rfl, rfl, rfl⟩
  · exact ⟨rfl, rfl, rfl⟩

section Rules

variable {σ : Type} [Durable σ] [CountedDurable σ] {E : σ → Prop}
  {Q : Cell → (String → Option String) → Prop}

open CountedDurable LawfulDurable

theorem undisturbed_restore (c : Cell) (p : Policy) :
    Undisturbed refusals
      (fun d => Q (c.opened p (value? d c.name))
        (Function.update (value? d) c.name (c.kept p (value? d c.name))))
      (c.restore p : Act σ Cell) (fun c' d => Q c' (value? d)) E := by
  unfold restore
  by_cases hp : c.persists p = true
  · simp only [hp, if_true]
    refine .bind (.given (.read c.name (Q := fun entry view => Q (c.opened p entry) view))
      fun d hd => ?_) fun entry => ?_
    · rwa [kept, if_pos hp, Function.update_eq_self] at hd
    · cases entry with
      | none => exact .pure (Q := fun c' d => Q c' (value? d)) c
      | some raw =>
        have hopened : c.opened p (some raw) = { c with raw := some raw, state := .durable } := by
          simp [opened, filled, hp]
        rw [hopened]
        exact .pure (Q := fun c' d => Q c' (value? d)) _
  · simp only [hp, if_false, Bool.false_eq_true]
    have hopened : ∀ entry, c.opened p entry = c := by
      intro entry
      cases entry <;> simp [opened, hp]
    refine .bind (.given (.remove c.name (Q := fun view => Q c view)) fun d hd => ?_) fun _ => ?_
    · rwa [hopened, kept, if_neg hp] at hd
    · exact .pure (Q := fun c' d => Q c' (value? d)) c

end Rules

end Cell

/-- The policy that is in force once a durable storage has been opened. -/
def Policy.stored (defaultPolicy : Policy) (view : String → Option String) : Policy :=
  ((view CellName.policy.key).bind Policy.ofName?).getD defaultPolicy

/-- A settled store holds the policy in force. -/
theorem Settled.stored_eq {under : CellName → Policy} {store : Store}
    {view : String → Option String} (h : Settled under store view) :
    Policy.stored store.defaultPolicy view = store.policy := by
  have hraw := (h.agrees .policy).1
  rw [if_pos (Cell.persists_eq_of_not_governed (h.isAt .policy).2.2 _)] at hraw
  rw [Policy.stored, hraw]
  rfl

theorem CellName.mem_all_reverse (n : CellName) : n ∈ CellName.all.reverse := by
  cases n <;> decide

/-- An empty cell of a name. -/
def CellName.blank (n : CellName) : Cell := .blank n.key n.kind n.governed

/-- How far a store has been opened on a durable storage that looked like `view` before. -/
structure Opening (defaultPolicy : Policy) (view : String → Option String)
    (done : List CellName) (store : Store) (now : String → Option String) : Prop where
  /-- The default policy is the one asked for. -/
  defaultPolicy_eq : store.defaultPolicy = defaultPolicy
  /-- The cells that have been opened, and their entries. -/
  opened : ∀ n ∈ done,
    store.cell n = n.blank.opened (.stored defaultPolicy view) (view n.key) ∧
      now n.key = n.blank.kept (.stored defaultPolicy view) (view n.key)
  /-- The cells that have not been opened yet. -/
  unopened : ∀ n, n ∉ done → store.cell n = n.blank ∧ now n.key = view n.key
  /-- Whatever else the storage holds. -/
  other : ∀ key, (∀ n : CellName, n.key ≠ key) → now key = view key

namespace Opening

variable {defaultPolicy : Policy} {view now : String → Option String} {done : List CellName}
  {store : Store}

theorem new (defaultPolicy : Policy) (view : String → Option String) :
    Opening defaultPolicy view [] (.blank defaultPolicy) view :=
  ⟨rfl, fun _ hn => absurd hn List.not_mem_nil, fun _ _ => ⟨rfl, rfl⟩, fun _ _ => rfl⟩

/-- Once its cell has been opened, the policy is known. -/
theorem policy_eq (h : Opening defaultPolicy view done store now) (hd : .policy ∈ done) :
    store.policy = .stored defaultPolicy view := by
  have hraw : (store.cell .policy).raw = view CellName.policy.key := by
    rw [(h.opened .policy hd).1]
    cases view CellName.policy.key <;> rfl
  rw [Store.policy, hraw, h.defaultPolicy_eq]
  rfl

/-- The next cell may be opened, a governed one only when the policy is known. -/
theorem next (h : Opening defaultPolicy view done store now) {n : CellName} (hn : n ∉ done)
    (hg : n.governed = true → .policy ∈ done) :
    Opening defaultPolicy view (n :: done)
      (store.put n ((store.cell n).opened store.policy (now n.key)))
      (Function.update now n.key ((store.cell n).kept store.policy (now n.key))) := by
  obtain ⟨hblank, hentry⟩ := h.unopened n hn
  have hpersists : n.blank.persists store.policy =
      n.blank.persists (.stored defaultPolicy view) := by
    cases hgov : n.governed with
    | true => rw [h.policy_eq (hg hgov)]
    | false =>
      rw [Cell.persists_eq_of_not_governed hgov, Cell.persists_eq_of_not_governed hgov]
  have hopened : n.blank.opened store.policy (view n.key) =
      n.blank.opened (.stored defaultPolicy view) (view n.key) := by
    simp only [Cell.opened, Cell.filled, hpersists]
  have hkept : n.blank.kept store.policy (view n.key) =
      n.blank.kept (.stored defaultPolicy view) (view n.key) := by
    simp only [Cell.kept, hpersists]
  rw [hblank, hentry, hopened, hkept]
  constructor
  · exact h.defaultPolicy_eq
  · intro m hm
    by_cases hmn : m = n
    · subst hmn
      rw [Store.cell_put_self, Function.update_self]
      exact ⟨rfl, rfl⟩
    · have hkey : m.key ≠ n.key := fun he => hmn (CellName.key_injective he)
      rw [Store.cell_put_of_ne _ _ hmn, Function.update_of_ne hkey]
      exact h.opened m (List.mem_of_ne_of_mem hmn hm)
  · intro m hm
    rw [List.mem_cons, not_or] at hm
    obtain ⟨hmn, hmd⟩ := hm
    have hkey : m.key ≠ n.key := fun he => hmn (CellName.key_injective he)
    rw [Store.cell_put_of_ne _ _ hmn, Function.update_of_ne hkey]
    exact h.unopened m hmd
  · intro key hkey
    rw [Function.update_of_ne (hkey n).symm]
    exact h.other key hkey

/-- A store that has been opened is settled under its policy. -/
theorem settled (h : Opening defaultPolicy view CellName.all.reverse store now) :
    Settled (fun _ => store.policy) store now := by
  rw [h.policy_eq (CellName.mem_all_reverse .policy)]
  constructor
  · intro n
    rw [(h.opened n n.mem_all_reverse).1]
    exact n.blank.opened_same _ _
  · intro n
    obtain ⟨hcell, hentry⟩ := h.opened n n.mem_all_reverse
    rw [hcell, hentry]
    cases hview : view n.key with
    | none =>
      rw [Cell.kept, ite_self]
      exact n.blank.agrees_emptied _
    | some raw =>
      by_cases hp : n.blank.persists (.stored defaultPolicy view) = true
      · have hagrees := n.blank.agrees_filled (.stored defaultPolicy view) raw
        rw [if_pos hp] at hagrees
        rwa [Cell.opened, Cell.kept, if_pos hp, if_pos hp]
      · rw [Cell.opened, Cell.kept, if_neg hp, if_neg hp]
        exact n.blank.agrees_emptied _

end Opening

namespace Session

variable {σ : Type} [Durable σ] [CountedDurable σ]

open LawfulDurable

theorem undisturbed_open_cell {defaultPolicy : Policy} {view : String → Option String}
    {done : List CellName} {n : CellName} (hn : n ∉ done)
    (hg : n.governed = true → .policy ∈ done) {E : Session σ → Prop} :
    Undisturbed refusals
      (fun s => Opening defaultPolicy view done s.store (value? s.durable))
      (change n Cell.restore : Act (Session σ) Unit)
      (fun _ s => Opening defaultPolicy view (n :: done) s.store (value? s.durable)) E := by
  refine undisturbed_change fun store => ?_
  refine .given (Cell.undisturbed_restore (store.cell n) store.policy (Q := fun c now =>
    Opening defaultPolicy view (n :: done) (store.put n c) now)) fun d hd => ?_
  have hname : (store.cell n).name = n.key := by
    rw [(hd.unopened n hn).1]
    rfl
  rw [hname]
  exact hd.next hn hg

/-- Cells may be opened one after another, the policy before those that it governs. -/
theorem undisturbed_open_cells (defaultPolicy : Policy) (view : String → Option String)
    (names done : List CellName) (hnodup : names.Nodup) (hfresh : ∀ n ∈ names, n ∉ done)
    (hg : ∀ n ∈ names, n.governed = true → .policy ∈ done) {E : Session σ → Prop} :
    Undisturbed refusals
      (fun s => Opening defaultPolicy view done s.store (value? s.durable))
      (names.forM fun n => (change n Cell.restore : Act (Session σ) Unit))
      (fun _ s => Opening defaultPolicy view (names.reverse ++ done) s.store (value? s.durable))
      E := by
  induction names generalizing done with
  | nil =>
    exact .pure (Q := fun _ (s : Session σ) =>
      Opening defaultPolicy view done s.store (value? s.durable)) ()
  | cons n rest ih =>
    obtain ⟨hnew, hrest⟩ := List.nodup_cons.mp hnodup
    refine .bind (undisturbed_open_cell (hfresh n List.mem_cons_self)
      (hg n List.mem_cons_self)) fun _ => ?_
    have hnext := ih (n :: done) hrest (fun m hm => ?_) fun m hm hgov => ?_
    · simpa using hnext
    · have hne : m ≠ n := fun he => hnew (he ▸ hm)
      rw [List.mem_cons, not_or]
      exact ⟨hne, hfresh m (List.mem_cons_of_mem _ hm)⟩
    · exact List.mem_cons_of_mem _ (hg m (List.mem_cons_of_mem _ hm) hgov)

/-- Opening a store raises only when something is refused. -/
theorem undisturbed_openStore (defaultPolicy : Policy) (view : String → Option String) :
    Undisturbed CountedDurable.refusals (fun d => value? d = view)
      (openStore defaultPolicy : Act σ Store)
      (fun store d => Opening defaultPolicy view CellName.all.reverse store (value? d))
      fun _ => False := by
  have hrest := undisturbed_open_cells (E := fun _ : Session σ => False) defaultPolicy view
    [.clientId, .device, .app, .user, .accessToken, .idToken] [.policy] (by decide) (by decide)
    (by decide)
  have hopened : Undisturbed refusals
      (fun s : Session σ => Opening defaultPolicy view [] s.store (value? s.durable))
      (CellName.all.forM fun n => (change n Cell.restore : Act (Session σ) Unit))
      (fun _ s => Opening defaultPolicy view CellName.all.reverse s.store (value? s.durable))
      fun _ => False :=
    .bind (undisturbed_open_cell List.not_mem_nil (by decide)) fun _ => hrest
  intro d
  obtain ⟨hle, hpost⟩ := hopened ⟨.blank defaultPolicy, d⟩
  cases hr : (CellName.all.forM fun n => (change n Cell.restore : Act (Session σ) Unit))
      ⟨.blank defaultPolicy, d⟩ with
  | ok u s =>
    have hopen : openStore defaultPolicy d = .ok s.store s.durable := by
      simp only [openStore, hr]
    simp only [Act.after, hr] at hle hpost
    simp only [Act.after, hopen]
    refine ⟨hle, fun hcount hview => hpost hcount ?_⟩
    rw [hview]
    exact .new defaultPolicy view
  | error e s =>
    have hopen : openStore defaultPolicy d = .error e s.durable := by
      simp only [openStore, hr]
    simp only [Act.after, hr] at hle hpost
    simp only [Act.after, hopen]
    refine ⟨hle, fun hcount hview => hpost hcount ?_⟩
    rw [hview]
    exact .new defaultPolicy view

/-- A store opened on the storage of another one, against that one. -/
structure Reopened (s : Session σ) (t : Store) (d : σ) : Prop where
  /-- The same policy is in force. -/
  policy : t.policy = s.store.policy
  /-- The cells that no policy governs have the same values in the same states. -/
  installation : ∀ n, n.governed = false → t.cell n = s.store.cell n
  /-- Tokens that the policy keeps are the same, and so is the header. -/
  always : s.store.policy = .always →
    (∀ n ∈ CellName.tokens, t.cell n = s.store.cell n) ∧ t.header = s.store.header
  /-- Tokens that it does not keep are absent, and the storage did not have them before. -/
  never : s.store.policy = .never →
    ∀ n ∈ CellName.tokens, (t.cell n).raw = none ∧ value? s.durable n.key = none
  /-- The storage holds what it held. -/
  durable : ∀ key, value? d key = value? s.durable key

end Session

namespace Cell

/-- Opening a cell on the entry of one that is kept gives that one back. -/
theorem opened_blank_eq {c : Cell} {n : CellName} {p : Policy} {entry : Option String}
    (hat : c.IsAt n) (h : c.Agrees p entry) (hp : c.persists p = true) :
    n.blank.opened p entry = c := by
  obtain ⟨name, kind, governed, raw, state⟩ := c
  obtain ⟨rfl, rfl, rfl⟩ := hat
  obtain ⟨hentry, hstate⟩ := h
  rw [if_pos hp] at hentry
  simp only at hentry hstate
  subst hentry hstate
  cases entry with
  | none => rfl
  | some raw =>
    have hblank : n.blank.persists p = true := hp
    rw [opened, if_pos hblank, filled, if_pos hblank]
    rfl

/-- Opening leaves an entry alone that a cell agrees with. -/
theorem kept_blank_eq {c : Cell} {n : CellName} {p : Policy} {entry : Option String}
    (hat : c.IsAt n) (h : c.Agrees p entry) : n.blank.kept p entry = entry := by
  have hblank : n.blank.persists p = c.persists p := by
    rw [persists, persists, hat.2.2]
    rfl
  unfold kept
  cases hp : c.persists p with
  | true => rw [hblank, hp, if_pos rfl]
  | false => rw [h.entry_eq_none hp, ite_self]

end Cell

/-- A store opened on the storage of a consistent session is as that one wants it. -/
theorem Opening.reopened {σ : Type} [Durable σ] [CountedDurable σ] {s : Session σ}
    (hs : s.Consistent) {t : Store} {d : σ}
    (h : Opening s.store.defaultPolicy (LawfulDurable.value? s.durable) CellName.all.reverse t
      (LawfulDurable.value? d)) : s.Reopened t d := by
  have hpersists : ∀ n p, n.governed = false → (s.store.cell n).persists p = true := by
    intro n p hn
    exact Cell.persists_eq_of_not_governed ((hs.isAt n).2.2.trans hn) p
  have hstored : Policy.stored s.store.defaultPolicy (LawfulDurable.value? s.durable) =
      s.store.policy := hs.stored_eq
  have hopened := h.opened
  rw [hstored] at hopened
  have hsame : ∀ n, (s.store.cell n).persists s.store.policy = true →
      t.cell n = s.store.cell n := by
    intro n hp
    rw [(hopened n n.mem_all_reverse).1]
    exact Cell.opened_blank_eq (hs.isAt n) (hs.agrees n) hp
  refine ⟨?_, fun n hn => hsame n (hpersists n _ hn), fun halways => ?_, fun hnever n hn => ?_,
    fun key => ?_⟩
  · rw [h.policy_eq (CellName.mem_all_reverse .policy), hstored]
  · have htokens : ∀ n ∈ CellName.tokens, t.cell n = s.store.cell n := by
      intro n _
      refine hsame n ?_
      simp [Cell.persists, halways]
    refine ⟨htokens, ?_⟩
    rw [Store.header, Store.header, htokens .accessToken (by decide),
      htokens .idToken (by decide)]
  · have hgoverned : n.governed = true := by
      simp only [CellName.tokens, List.mem_cons, List.not_mem_nil, or_false] at hn
      rcases hn with rfl | rfl <;> rfl
    have hnot : (s.store.cell n).persists s.store.policy = false := by
      simp [Cell.persists, hnever, (hs.isAt n).2.2, hgoverned]
    have hnone := (hs.agrees n).entry_eq_none hnot
    refine ⟨?_, hnone⟩
    rw [(hopened n n.mem_all_reverse).1, hnone]
    rfl
  · by_cases hkey : ∃ n : CellName, n.key = key
    · obtain ⟨n, rfl⟩ := hkey
      rw [(hopened n n.mem_all_reverse).2]
      exact Cell.kept_blank_eq (hs.isAt n) (hs.agrees n)
    · exact h.other key fun n hn => hkey ⟨n, hn⟩

/-- What can be done with a session in the course of several openings of its storage. -/
inductive Use where
  /-- It is changed. -/
  | change (e : Effect)
  /-- Its storage is opened anew under a default policy. -/
  | reopen (defaultPolicy : Policy)

namespace Session

variable {σ : Type} [Durable σ]

/-- The session after a use; a storage that cannot be opened leaves the old store in use. -/
def use (s : Session σ) : Use → Session σ
  | .change e => e.apply s
  | .reopen defaultPolicy =>
    match openStore defaultPolicy s.durable with
    | .ok t d => ⟨t, d⟩
    | .error _ d => { s with durable := d }

/-- The session that is opened on a storage and used. -/
def life (defaultPolicy : Policy) (d : σ) (uses : List Use) : Session σ :=
  uses.foldl use (use ⟨.blank defaultPolicy, d⟩ (.reopen defaultPolicy))

variable [CountedDurable σ]

/-- Where nothing is refused, opening makes a session consistent, whatever it was before. -/
theorem use_reopen (s : Session σ) (defaultPolicy : Policy) :
    s.refusals ≤ (s.use (.reopen defaultPolicy)).refusals ∧
      ((s.use (.reopen defaultPolicy)).refusals = s.refusals →
        (s.use (.reopen defaultPolicy)).Consistent) := by
  obtain ⟨hle, hpost⟩ := undisturbed_openStore defaultPolicy (LawfulDurable.value? s.durable)
    s.durable
  unfold use refusals
  cases h : openStore defaultPolicy s.durable with
  | ok t d =>
    simp only [Act.after, h] at hle hpost ⊢
    exact ⟨hle, fun hcount => (hpost hcount trivial).settled⟩
  | error e d =>
    simp only [Act.after, h] at hle hpost ⊢
    exact ⟨hle, fun hcount => absurd (hpost hcount trivial) id⟩

/-- Where nothing is refused, a change keeps a session consistent, also when it raises. -/
theorem use_change (s : Session σ) (e : Effect) :
    s.refusals ≤ (s.use (.change e)).refusals ∧
      ((s.use (.change e)).refusals = s.refusals → s.Consistent →
        (s.use (.change e)).Consistent) := by
  have hafter : ∀ {α : Type} (f : Act (Session σ) α),
      Undisturbed refusals Consistent f (fun _ => Consistent) Consistent →
        s.refusals ≤ (f.after s).refusals ∧
          ((f.after s).refusals = s.refusals → s.Consistent → (f.after s).Consistent) := by
    intro α f hf
    obtain ⟨hle, hpost⟩ := hf s
    refine ⟨hle, fun hcount hs => ?_⟩
    have hend := hpost hcount hs
    unfold Act.after
    split
    · next h => rwa [h] at hend
    · next h => rwa [h] at hend
  cases e with
  | write g => exact hafter _ (undisturbed_writeAuthorization g)
  | clear => exact hafter _ undisturbed_clearAuthorization
  | setPolicy p => exact hafter _ (undisturbed_setPolicy p)

/-- A session stays consistent through any uses that meet no refusal. -/
theorem uses_consistent {count : Int} (uses : List Use) {s : Session σ} (hle : count ≤ s.refusals)
    (hs : s.refusals = count → s.Consistent) :
    count ≤ (uses.foldl use s).refusals ∧
      ((uses.foldl use s).refusals = count → (uses.foldl use s).Consistent) := by
  induction uses generalizing s with
  | nil => exact ⟨hle, hs⟩
  | cons u rest ih =>
    rw [List.foldl_cons]
    cases u with
    | change e =>
      obtain ⟨hle', hpost⟩ := s.use_change e
      refine ih (by omega) fun hcount => ?_
      exact hpost (by omega) (hs (by omega))
    | reopen p =>
      obtain ⟨hle', hpost⟩ := s.use_reopen p
      refine ih (by omega) fun hcount => ?_
      exact hpost (by omega)

/-- A session that has been used without refusals is consistent. -/
theorem life_consistent (defaultPolicy : Policy) (d : σ) (uses : List Use) :
    CountedDurable.refusals d ≤ (life defaultPolicy d uses).refusals ∧
      ((life defaultPolicy d uses).refusals = CountedDurable.refusals d →
        (life defaultPolicy d uses).Consistent) := by
  obtain ⟨hle, hpost⟩ := use_reopen ⟨.blank defaultPolicy, d⟩ defaultPolicy
  exact uses_consistent uses hle hpost

/-- Opening the storage of a session again gives back what the session has, as far as its policy
wants it kept, and changes nothing, if nothing has been refused since the storage was opened
first. -/
theorem life_reopened (defaultPolicy : Policy) (d : σ) (uses : List Use)
    (h : CountedDurable.refusals (Act.after
      (openStore (life defaultPolicy d uses).store.defaultPolicy)
      (life defaultPolicy d uses).durable) = CountedDurable.refusals d) :
    ∃ t d', openStore (life defaultPolicy d uses).store.defaultPolicy
        (life defaultPolicy d uses).durable = .ok t d' ∧
      (life defaultPolicy d uses).Reopened t d' := by
  obtain ⟨hle, hconsistent⟩ := life_consistent defaultPolicy d uses
  generalize life defaultPolicy d uses = s at h hle hconsistent ⊢
  obtain ⟨hle', hpost⟩ := undisturbed_openStore s.store.defaultPolicy
    (LawfulDurable.value? s.durable) s.durable
  change _ ≤ CountedDurable.refusals s.durable at hle
  have hs := hconsistent (by change CountedDurable.refusals s.durable = _; omega)
  have hend := hpost (by omega) rfl
  cases hopen : openStore s.store.defaultPolicy s.durable with
  | ok t d' =>
    rw [hopen] at hend
    exact ⟨t, d', rfl, hend.reopened hs⟩
  | error e d' =>
    rw [hopen] at hend
    exact absurd hend id

/-- A storage that holds an unknown policy, a token and a user that is no identity, and that would
refuse a write somewhere else. -/
def worn : Memory :=
  ⟨[("persistence_policy", "SOMETIMES"), ("access_token", "old"), ("user_identity", "[1]")],
    [⟨.set, "elsewhere", 1⟩]⟩

/-- A grant is written, another one cannot be because its user says bytes that are no text, and the
tokens are taken out of the storage before it is opened again and written once more. -/
def career : List Use :=
  [.change (.write ⟨"t", "i", .empty, some "c", by decide, by decide⟩),
    .change (.write ⟨"u", "j", ⟨fun _ => none, [("photo", .bytes [255])]⟩, none, by decide,
      by decide⟩),
    .change (.setPolicy .never), .reopen .always,
    .change (.write ⟨"v", "k", .empty, none, by decide, by decide⟩)]

/-- The worn storage can be opened again after this, and its tokens are gone. -/
theorem career_reopened :
    CountedDurable.refusals (Act.after (openStore (life .always worn career).store.defaultPolicy)
        (life .always worn career).durable) = CountedDurable.refusals worn ∧
      ∃ t d', openStore (life .always worn career).store.defaultPolicy
          (life .always worn career).durable = .ok t d' ∧
        (life .always worn career).Reopened t d' := by
  have hcount : CountedDurable.refusals
      (Act.after (openStore (life .always worn career).store.defaultPolicy)
        (life .always worn career).durable) = CountedDurable.refusals worn := by
    decide +kernel
  exact ⟨hcount, life_reopened .always worn career hcount⟩

end Session

end BearerSession
