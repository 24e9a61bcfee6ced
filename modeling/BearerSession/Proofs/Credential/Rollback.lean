import BearerSession.Proofs.Credential.GivenBack

/-!
# Grants that are written or taken back

What is refused is as if it had not been given. So a grant that cannot be written is the same as one
of which a part was given and then the values from before, except for those of the key that is
refused. As long as all refusals concern one key this makes no difference, since the write stopped
at the cell of that key and never changed it.
-/

namespace BearerSession

namespace Session

variable {σ : Type} [Durable σ]

/-- Several values are given, or all those before one of them and that one is refused. -/
theorem setAll_error_cases {values : List (CellName × Value)} {s t : Session σ} {e : Raised}
    (h : setAll values s = .error e t) :
    ∃ before n v rest r, values = before ++ (n, v) :: rest ∧ setAll before s = .ok () r ∧
      set n v r = .error e t := by
  induction values generalizing s with
  | nil => contradiction
  | cons entry rest ih =>
    obtain ⟨n, v⟩ := entry
    simp only [setAll, Act.bind_apply] at h
    cases hset : set n v s with
    | ok u s₁ =>
      simp only [hset] at h
      obtain ⟨before, m, w, more, r, rfl, hbefore, hfailed⟩ := ih h
      refine ⟨(n, v) :: before, m, w, more, r, rfl, ?_, hfailed⟩
      simp only [setAll, Act.bind_apply, hset, hbefore]
    | error e' s₁ =>
      simp only [hset] at h
      cases h
      exact ⟨[], n, v, rest, s, rfl, rfl, hset⟩

/-- A cell that cannot be given back what it had does not keep the others from it. -/
theorem putBack_cons (n : CellName) (v : Value) (rest : List (CellName × Value)) (s : Session σ) :
    putBack ((n, v) :: rest) s = putBack rest ((set n v).after s) := by
  simp only [putBack, Act.bind_apply, Act.tryCatch_apply, Act.after]
  cases set n v s <;> rfl

section Lawful

variable [LawfulDurable σ]

/-- Values that have all been given determine what is seen. -/
theorem seen_of_setAll_ok {values : List (CellName × Value)} {s t : Session σ}
    (h : setAll values s = .ok () t) : t.seen = s.seen.givenAll values := by
  induction values generalizing s with
  | nil =>
    cases h
    rfl
  | cons entry rest ih =>
    obtain ⟨_, s₁, hset, hrest⟩ := Act.bind_eq_ok.mp h
    rw [ih hrest, ((allOrNothing_given entry.1 entry.2 s).of_ok hset).2]
    rfl

omit [LawfulDurable σ] in
/-- Only durable storage refuses a value that has an encoding. -/
theorem set_refused {n : CellName} {v : Value} {s t : Session σ} {e : Raised} (hv : v ≠ .null)
    (henc : Encodable n v) (hat : (s.store.cell n).IsAt n) (h : set n v s = .error e t) :
    ∃ raw, (s.store.cell n).encode v = .ok raw ∧
      Durable.set n.key raw s.durable = .error e t.durable := by
  obtain ⟨raw, hraw⟩ := henc _ hat hv
  refine ⟨raw, hraw, ?_⟩
  have hset : (s.store.cell n).set (σ := σ) s.store.policy v =
      (s.store.cell n).write s.store.policy raw := by
    cases v with
    | null => exact absurd rfl hv
    | _ => simp only [Cell.set, hraw]
  rw [set_apply, hset, Cell.write] at h
  cases hp : (s.store.cell n).persists s.store.policy with
  | false =>
    simp only [hp, if_false, Bool.false_eq_true] at h
    contradiction
  | true =>
    simp only [hp, if_true, Act.bind_apply, hat.1] at h
    cases hdurable : Durable.set n.key raw s.durable with
    | ok u d =>
      simp only [hdurable] at h
      contradiction
    | error e' d =>
      simp only [hdurable] at h
      cases h
      rfl

end Lawful

section Listed

variable [ListedDurable σ]

/-- The values that cells are given back are all those that are not refused, and each refusal
concerns the key of one of them. -/
theorem putBack_cases {values : List (CellName × Value)}
    (henc : ∀ e ∈ values, Encodable e.1 e.2) {s : Session σ}
    (hs : ∀ n, (s.store.cell n).IsAt n) :
    ∃ t kept more, putBack values s = .ok () t ∧ t.seen = s.seen.givenAll kept ∧
      kept.Sublist values ∧ refused t = refused s ++ more ∧
        ∀ e ∈ values, e ∈ kept ∨ e.1.key ∈ more := by
  induction values generalizing s with
  | nil => exact ⟨s, [], [], rfl, rfl, .slnil, (List.append_nil _).symm, by simp⟩
  | cons entry rest ih =>
    obtain ⟨n, v⟩ := entry
    obtain ⟨hv, hothers⟩ := List.forall_mem_cons.mp henc
    have hgiven := allOrNothing_given n v s
    have hconcerns := concerns_set hv (hs n)
    rw [putBack_cons]
    unfold Act.after
    cases hset : set n v s with
    | ok u s₁ =>
      have hseen := (hgiven.of_ok hset).2
      have hat : ∀ m, (s₁.seen.store.cell m).IsAt m := by
        rw [hseen]
        exact Snapshot.isAt_given (s := s.seen) hs n v
      obtain ⟨t, kept, more, hback, hkept, hsub, hmore, hall⟩ := ih hothers hat
      refine ⟨t, (n, v) :: kept, more, hback, ?_, hsub.cons_cons _, ?_, ?_⟩
      · rw [hkept, hseen]
        rfl
      · rw [hmore, show refused s₁ = refused s from hconcerns.of_ok hset]
      · exact List.forall_mem_cons.mpr ⟨.inl List.mem_cons_self,
          fun e he => (hall e he).imp_left (List.mem_cons_of_mem _)⟩
    | error e s₁ =>
      have hseen := hgiven.of_error hset
      have hat : ∀ m, (s₁.seen.store.cell m).IsAt m := by
        rw [hseen]
        exact hs
      obtain ⟨t, kept, more, hback, hkept, hsub, hmore, hall⟩ := ih hothers hat
      refine ⟨t, kept, n.key :: more, hback, by rw [hkept, hseen], hsub.cons _, ?_, ?_⟩
      · rw [hmore, show refused s₁ = refused s ++ [n.key] from hconcerns.of_error hset]
        simp
      · exact List.forall_mem_cons.mpr ⟨.inr List.mem_cons_self,
          fun e he => (hall e he).imp_right (List.mem_cons_of_mem _)⟩

/-- Values that are all given are given without a refusal. -/
theorem refused_of_setAll_ok {values : List (CellName × Value)}
    (henc : ∀ e ∈ values, Encodable e.1 e.2) {s t : Session σ}
    (hs : ∀ n, (s.store.cell n).IsAt n) (h : setAll values s = .ok () t) :
    refused t = refused s := by
  induction values generalizing s with
  | nil =>
    cases h
    rfl
  | cons entry rest ih =>
    obtain ⟨hv, hothers⟩ := List.forall_mem_cons.mp henc
    obtain ⟨_, s₁, hset, hrest⟩ := Act.bind_eq_ok.mp h
    have hat : ∀ m, (s₁.seen.store.cell m).IsAt m := by
      rw [((allOrNothing_given entry.1 entry.2 s).of_ok hset).2]
      exact Snapshot.isAt_given (s := s.seen) hs _ _
    exact (ih hothers hat hrest).trans ((concerns_set hv (hs entry.1)).of_ok hset)

end Listed

/-- Giving back never raises. -/
theorem exists_putBack_eq_ok (values : List (CellName × Value)) (s : Session σ) :
    ∃ t, putBack values s = .ok () t := by
  induction values generalizing s with
  | nil => exact ⟨s, rfl⟩
  | cons e rest ih =>
    rw [putBack_cons e.1 e.2 rest s]
    exact ih _

omit [Durable σ] in
/-- Reading cells changes nothing, and succeeds unless one of them cannot be read. -/
theorem valuesOf_cases (names : List CellName) (s : Session σ) :
    (∃ e, valuesOf names s = .error e s ∧ ∃ n ∈ names, (s.store.cell n).get = .error e) ∨
      ∃ values, valuesOf names s = .ok values s ∧ values.map Prod.fst = names ∧
        ∀ e ∈ values, (s.store.cell e.1).get = .ok e.2 := by
  induction names with
  | nil => exact .inr ⟨[], rfl, rfl, by simp⟩
  | cons n rest ih =>
    simp only [valuesOf, Act.bind_apply, Session.get]
    cases hget : (s.store.cell n).get with
    | error e => exact .inl ⟨e, rfl, n, List.mem_cons_self, hget⟩
    | ok v =>
      obtain ⟨e, he, m, hm, hfailed⟩ | ⟨values, hvalues, hnames, hgets⟩ := ih
      · left
        simp only [he]
        exact ⟨e, rfl, m, List.mem_cons_of_mem _ hm, hfailed⟩
      · right
        simp only [hvalues]
        refine ⟨(n, v) :: values, rfl, by rw [List.map_cons, hnames], ?_⟩
        exact List.forall_mem_cons.mpr ⟨hget, hgets⟩

/-- Values for cells among those that others spare the policy for spare it too. -/
theorem SparesPolicy.of_subset {values others : List (CellName × Value)}
    (h : SparesPolicy values) (hnames : others.map Prod.fst ⊆ values.map Prod.fst) :
    SparesPolicy others := by
  intro e he
  obtain ⟨e', he', hsame⟩ := List.mem_map.mp (hnames (List.mem_map_of_mem he))
  exact hsame ▸ h e' he'

/-- A grant always brings a user. -/
theorem user_mem_grantValues (g : Grant) : (CellName.user, g.user.toValue) ∈ grantValues g :=
  mem_grantValues_iff.mpr (.inr (.inr (.inl rfl)))

/-- All values that a grant brings are some. -/
theorem ne_null_of_mem_grantValues {g : Grant} : ∀ e ∈ grantValues g, e.2 ≠ .null := by
  intro e he
  obtain rfl | rfl | rfl | ⟨id, -, rfl⟩ := mem_grantValues_iff.mp he <;> exact nofun

/-- A grant brings one identity, that of the user. -/
theorem eq_user_of_mem_grantValues {g : Grant} {n : CellName}
    (hn : n ∈ (grantValues g).map Prod.fst) (hkind : n.kind = .identity) : n = .user := by
  obtain ⟨e, he, rfl⟩ := List.mem_map.mp hn
  obtain rfl | rfl | rfl | ⟨id, -, rfl⟩ := mem_grantValues_iff.mp he
  · contradiction
  · contradiction
  · rfl
  · contradiction

/-- What a grant is in the cells: its tokens, what its user is stored as, and its client id, if it
has one that is not empty. The other cells are those from before. -/
structure Holds [LawfulDurable σ] (before : Session σ) (g : Grant) (after : Session σ) : Prop where
  /-- The tokens are those of the grant. -/
  tokens : ∀ n ∈ CellName.tokens, (after.store.cell n).get = .ok (.ofText? (g.token? n))
  /-- The user is the one of the grant, and reads so within the limits of what is read. -/
  user : ∃ entries raw, g.user.toMap = .ok entries ∧
    Json.encode .line (Value.map entries).sorted = .ok raw ∧
      (after.store.cell .user).raw = some raw ∧
        ((Value.map entries).ReadsBack Json.depthLimit →
          (after.store.cell .user).get = .ok (Value.map entries).sorted)
  /-- The client id is the one of the grant, or the one from before. -/
  client : (after.store.cell .clientId).get =
    match g.clientId.bind Text.nonempty? with
    | some id => .ok (.text id)
    | none => (before.store.cell .clientId).get
  /-- The other cells and their entries are the same as before. -/
  others : ∀ n ∉ (grantValues g).map Prod.fst, after.seen.slot n = before.seen.slot n

/-- Whether the storage refuses a value of a grant, after the values before it have been given. -/
def Refuses [LawfulDurable σ] (s : Session σ) (g : Grant) (e : Raised) : Prop :=
  ∃ first n v rest r raw d, grantValues g = first ++ (n, v) :: rest ∧
    setAll first s = .ok () r ∧ (r.store.cell n).encode v = .ok raw ∧
      Durable.set n.key raw r.durable = .error e d

/-- What is left of a grant that has been taken back: nothing in the cells, and nothing in the
storage of a token that was in the state required. -/
structure TakesBack [LawfulDurable σ] (before : Session σ) (g : Grant) (e : Raised)
    (after : Session σ) : Prop where
  /-- The error is that of the write that the storage refused. -/
  refused : before.Refuses g e
  /-- The tokens and the client id read as before. -/
  texts : ∀ n, n.kind = .plain → (after.store.cell n).get = (before.store.cell n).get
  /-- So does the user, up to the order of keys. -/
  user : ∃ v, (before.store.cell .user).get = .ok v ∧
    ((after.store.cell .user).get = .ok v ∨ (after.store.cell .user).get = .ok v.sorted)
  /-- The header is the old one. -/
  header : after.store.header = before.store.header
  /-- The policy in force is the same. -/
  policy : after.store.policy = before.store.policy
  /-- A token that was in the state required by the policy still is, with the same entry. -/
  inState : ∀ n, n.kind = .plain → (before.store.cell n).InState before.store.policy →
    after.seen.slot n = before.seen.slot n
  /-- The other cells and their entries are the same as before. -/
  others : ∀ n ∉ (grantValues g).map Prod.fst, after.seen.slot n = before.seen.slot n

/-- Whether all that a refused grant has changed has been given back, as far as it could be. -/
structure Undone [LawfulDurable σ] (before : Session σ) (g : Grant) (e : Raised)
    (after : Session σ) : Prop where
  /-- The error is that of the write that the storage refused. -/
  refused : before.Refuses g e
  /-- The user could be read. -/
  readable : ∃ v, (before.store.cell .user).get = .ok v
  /-- Each cell is as before, or has been given back what it had. -/
  cells : ∀ n, before.seen.GivenBack after.seen n
  /-- The policy in force is the same. -/
  policy : after.store.policy = before.store.policy
  /-- The other cells and their entries are the same as before. -/
  others : ∀ n ∉ (grantValues g).map Prod.fst, after.seen.slot n = before.seen.slot n

namespace Undone

variable [LawfulDurable σ] {g : Grant} {s t : Session σ} {e : Raised}

/-- Then the header is the old one. -/
theorem header (h : s.Undone g e t) (hat : ∀ n, (s.store.cell n).IsAt n) :
    t.store.header = s.store.header := by
  have hraw (n : CellName) (hkind : n.kind = .plain) :
      (t.store.cell n).raw = (s.store.cell n).raw := (h.cells n).raw_eq (hat n) hkind
  rw [Store.header, Store.header, hraw .accessToken rfl, hraw .idToken rfl]

/-- In a sound session nothing of the grant is left then. -/
theorem takesBack (h : s.Undone g e t) (hs : s.Sound) : s.TakesBack g e t := by
  have hat := hs.isAt
  refine ⟨h.refused, fun n hkind => ?_, ?_, h.header hat, h.policy, fun n hkind hstate => ?_,
    h.others⟩
  · have hplain : (s.store.cell n).kind = .plain := (hat n).2.1.trans hkind
    have hplain' : (t.store.cell n).kind = .plain := ((h.cells n).isAt (hat n)).2.1.trans hkind
    have hraw : (t.store.cell n).raw = (s.store.cell n).raw :=
      (h.cells n).raw_eq (hat n) hkind
    simp only [Cell.get, hplain, hplain', hraw]
  · obtain ⟨v, hget⟩ := h.readable
    exact ⟨v, hget, (h.cells .user).get_eq (hat .user) rfl hget⟩
  · exact (h.cells n).slot_eq (hat n) hkind (hs n).2 hstate

end Undone

section Grants

variable [ListedDurable σ] {g : Grant} {s t : Session σ} {e : Raised}

omit [ListedDurable σ] in
/-- A grant that has been written is what the cells hold. -/
theorem holds_of_setAll [LawfulDurable σ] (hs : s.Sound) (hg : g.Serialises)
    (h : setAll (grantValues g) s = .ok () t) : s.Holds g t := by
  have hat : ∀ n, (s.seen.store.cell n).IsAt n := hs.isAt
  have hseen := seen_of_setAll_ok h
  have hslot {n : CellName} {v : Value} (hv : (n, v) ∈ grantValues g) :
      t.seen.slot n = (s.store.cell n).given s.store.policy v (s.seen.view n.key) := by
    rw [hseen]
    exact Snapshot.slot_givenAll_of_mem hat (nodup_grantValues g) (sparesPolicy_grantValues g) hv
  -- a text that is given is what is read
  have htext {n : CellName} {text : String} (hv : (n, .text text) ∈ grantValues g)
      (hkind : n.kind = .plain) : (t.store.cell n).get = .ok (.text text) := by
    have hplain : (s.store.cell n).kind = .plain := (hat n).2.1.trans hkind
    have hcell : (t.store.cell n).get = (t.seen.slot n).1.get := rfl
    rw [hcell, hslot hv, show Value.text text = .ofText? (some text) from rfl,
      Cell.given_ofText? hplain]
    simp only [Cell.get, Cell.filled, hplain]
  refine ⟨fun n hn => ?_, ?_, ?_, fun n hn => ?_⟩
  · obtain rfl | rfl := CellName.eq_of_mem_tokens hn
    · exact htext (mem_grantValues_iff.mpr (.inl rfl)) rfl
    · exact htext (mem_grantValues_iff.mpr (.inr (.inl rfl))) rfl
  · have hv := user_mem_grantValues g
    have hkind : (s.store.cell .user).kind = .identity := (hat .user).2.1
    have hsome := ne_null_of_mem_grantValues _ hv
    obtain ⟨raw, hraw⟩ := hg (s.store.cell .user) (hat .user) hsome
    have hcell : (t.store.cell .user) = (s.store.cell .user).filled s.store.policy raw := by
      have hgiven := congrArg Prod.fst (hslot hv)
      rw [Cell.given_of_encode hsome hraw] at hgiven
      exact hgiven
    obtain ⟨entries, hmap, hencode⟩ := Cell.encode_toValue_eq_ok hkind hraw
    refine ⟨entries, raw, hmap, hencode, by rw [hcell]; rfl, fun hreads => ?_⟩
    obtain ⟨_, hencode', hread⟩ := Json.exists_encode .line hreads.sorted
    cases hencode.symm.trans hencode'
    rw [hcell]
    exact Cell.get_of_read hkind rfl hread
  · cases hid : g.clientId.bind Text.nonempty? with
    | some id => exact htext (mem_grantValues_iff.mpr (.inr (.inr (.inr ⟨id, hid, rfl⟩)))) rfl
    | none =>
      have hn : CellName.clientId ∉ (grantValues g).map Prod.fst := by simp [grantValues, hid]
      have hsame : t.seen.slot .clientId = s.seen.slot .clientId := by
        rw [hseen]
        exact Snapshot.slot_givenAll_of_not_mem hat hn
      exact congrArg (fun slot => slot.1.get) hsame
  · rw [hseen]
    exact Snapshot.slot_givenAll_of_not_mem hat hn

/-- After a refusal each cell is as before or has been given back what it had. -/
theorem givenBack_of_refused {before rest previous kept : List (CellName × Value)} {n : CellName}
    {v : Value} (hat : ∀ m, (s.seen.store.cell m).IsAt m)
    (hvalues : grantValues g = before ++ (n, v) :: rest)
    (hgets : ∀ e ∈ previous, (s.store.cell e.1).get = .ok e.2)
    (hnames : previous.map Prod.fst = (grantValues g).map Prod.fst)
    (hkept : kept.Sublist previous) (hother : ∀ e ∈ previous, e ∈ kept ∨ e.1 = n)
    (ht : t.seen = (s.seen.givenAll before).givenAll kept) (m : CellName) :
    s.seen.GivenBack t.seen m := by
  have hbefore : before.Sublist (grantValues g) := hvalues ▸ List.sublist_append_left before _
  have hspares := sparesPolicy_grantValues g
  have hnodup := nodup_grantValues g
  have hfresh : n ∉ before.map Prod.fst := by
    intro hn
    rw [hvalues, List.map_append, List.map_cons] at hnodup
    exact List.disjoint_of_nodup_append hnodup hn List.mem_cons_self
  have hsparesBefore : SparesPolicy before := hspares.of_subset (hbefore.map _).subset
  have hsparesKept : SparesPolicy kept := hspares.of_subset (hnames ▸ (hkept.map _).subset)
  by_cases hm : m ∈ kept.map Prod.fst
  · obtain ⟨⟨_, w⟩, hw, rfl⟩ := List.mem_map.mp hm
    obtain ⟨hsame, hentry⟩ := Snapshot.slot_givenAll_cases hat (hnodup.sublist (hbefore.map _))
      hsparesBefore (fun e he => ne_null_of_mem_grantValues e (hbefore.subset he)) _
    refine .inr ⟨w, _, _, hgets _ (hkept.subset hw), ?_, hsame, hentry⟩
    rw [ht, Snapshot.slot_givenAll_of_mem (Snapshot.isAt_givenAll hat before)
      ((hnames ▸ hnodup).sublist (hkept.map _)) hsparesKept hw,
      Snapshot.policy_givenAll hsparesBefore]
  · -- the cell that is not given back is the one that was not given anything
    have hm' : m ∉ before.map Prod.fst := by
      intro hin
      obtain ⟨e, he, rfl⟩ := List.mem_map.mp (hnames ▸ (hbefore.map Prod.fst).subset hin)
      obtain hgiven | hn := hother e he
      · exact hm (List.mem_map_of_mem hgiven)
      · exact hfresh (hn ▸ hin)
    left
    rw [ht, Snapshot.slot_givenAll_of_not_mem (Snapshot.isAt_givenAll hat before) hm,
      Snapshot.slot_givenAll_of_not_mem hat hm']

omit [ListedDurable σ] in
/-- The cells that a grant writes can all be read unless the user cannot be. -/
theorem valuesOf_grant_cases [LawfulDurable σ] (hat : ∀ n, (s.store.cell n).IsAt n) (g : Grant) :
    (∃ e, valuesOf ((grantValues g).map Prod.fst) s = .error e s ∧
      (s.store.cell .user).get = .error e) ∨
      ∃ values, valuesOf ((grantValues g).map Prod.fst) s = .ok values s ∧
        values.map Prod.fst = (grantValues g).map Prod.fst ∧
          (∀ e ∈ values, (s.store.cell e.1).get = .ok e.2) ∧
            ∃ v, (s.store.cell .user).get = .ok v := by
  obtain ⟨e, hread, n, hn, hget⟩ | ⟨values, hread, hnames, hgets⟩ :=
    valuesOf_cases ((grantValues g).map Prod.fst) s
  · left
    cases hkind : n.kind with
    | plain =>
      rw [Cell.get, (hat n).2.1, hkind] at hget
      contradiction
    | identity =>
      obtain rfl := eq_user_of_mem_grantValues hn hkind
      exact ⟨e, hread, hget⟩
  · right
    have huser : CellName.user ∈ values.map Prod.fst :=
      hnames ▸ List.mem_map_of_mem (user_mem_grantValues g)
    obtain ⟨⟨_, v⟩, hv, rfl⟩ := List.mem_map.mp huser
    exact ⟨values, hread, hnames, hgets, v, hgets _ hv⟩

omit [ListedDurable σ] in
/-- Where the user cannot be read, no grant can be written. -/
theorem writeAuthorization_of_get_error [LawfulDurable σ] (hat : ∀ n, (s.store.cell n).IsAt n)
    (g : Grant) (hget : (s.store.cell .user).get = .error e) :
    writeAuthorization g s = .error e s := by
  simp only [writeAuthorization, Act.bind_apply]
  obtain ⟨e', hread, huser⟩ | ⟨values, -, -, -, v, huser⟩ := valuesOf_grant_cases hat g
  · cases hget.symm.trans huser
    rw [hread]
  · cases hget.symm.trans huser

/-- What the storage refuses is given back, as long as it refuses one key only. -/
theorem undone_of_refused {previous : List (CellName × Value)} {s₁ : Session σ}
    (hat : ∀ n, (s.seen.store.cell n).IsAt n) (hg : g.Serialises)
    (hnames : previous.map Prod.fst = (grantValues g).map Prod.fst)
    (hgets : ∀ e ∈ previous, (s.store.cell e.1).get = .ok e.2)
    (huser : ∃ v, (s.store.cell .user).get = .ok v)
    (hset : setAll (grantValues g) s = .error e s₁) (hback : putBack previous s₁ = .ok () t)
    (hkey : RefusesOneKey s.durable t.durable) : s.Undone g e t := by
  obtain ⟨key, more, hmore, hone⟩ := hkey
  obtain ⟨before, n, v, rest, r, hvalues, hbefore, hfailed⟩ := setAll_error_cases hset
  have henc := hg.encodable
  have hspares := sparesPolicy_grantValues g
  have hsub : before.Sublist (grantValues g) := hvalues ▸ List.sublist_append_left before _
  have hv : (n, v) ∈ grantValues g := by
    rw [hvalues]
    exact List.mem_append_right _ List.mem_cons_self
  -- the cells are those after the values before the refused one
  have hseen : r.seen = s.seen.givenAll before := seen_of_setAll_ok hbefore
  have hatr : ∀ m, (r.seen.store.cell m).IsAt m := by
    rw [hseen]
    exact Snapshot.isAt_givenAll hat before
  have hseen₁ : s₁.seen = r.seen := (allOrNothing_given n v r).of_error hfailed
  have hat₁ : ∀ m, (s₁.seen.store.cell m).IsAt m := by rwa [hseen₁]
  have hrefused : refused s₁ = refused s ++ [n.key] := by
    rw [← refused_of_setAll_ok (fun e he => henc e (hsub.subset he)) hat hbefore]
    exact (concerns_set (henc _ hv) (hatr n)).of_error hfailed
  obtain ⟨t', kept, others, hback', hkept, hkeptSub, hothers, hall⟩ := putBack_cases
    (fun e he => encodable_of_get (hat e.1) (hgets e he)) hat₁
  cases hback.symm.trans hback'
  have hkeys : more = n.key :: others := by
    have hlists : refused s ++ more = refused s ++ ([n.key] ++ others) := by
      rw [← List.append_assoc, ← hrefused, ← hothers]
      exact hmore.symm
    exact List.append_cancel_left hlists
  have ht : t.seen = (s.seen.givenAll before).givenAll kept := by rw [hkept, hseen₁, hseen]
  have hother : ∀ e ∈ previous, e ∈ kept ∨ e.1 = n := fun e he =>
    (hall e he).imp_right fun hkey => CellName.key_injective <| by
      rw [hone e.1.key (by simp [hkeys, hkey]), hone n.key (by simp [hkeys])]
  refine ⟨?_, huser, givenBack_of_refused hat hvalues hgets hnames hkeptSub hother ht, ?_,
    fun m hm => ?_⟩
  · obtain ⟨raw, hencode, hdurable⟩ :=
      set_refused (ne_null_of_mem_grantValues _ hv) (henc _ hv) (hatr n) hfailed
    exact ⟨before, n, v, rest, r, raw, _, hvalues, hbefore, hencode, hdurable⟩
  · change t.seen.store.policy = s.seen.store.policy
    rw [ht, Snapshot.policy_givenAll (hspares.of_subset (hnames ▸ (hkeptSub.map _).subset)),
      Snapshot.policy_givenAll (hspares.of_subset (hsub.map _).subset)]
  · have hkeptNames : m ∉ kept.map Prod.fst := fun hin =>
      hm (hnames ▸ (hkeptSub.map Prod.fst).subset hin)
    have hbeforeNames : m ∉ before.map Prod.fst := fun hin => hm ((hsub.map Prod.fst).subset hin)
    rw [ht, Snapshot.slot_givenAll_of_not_mem (Snapshot.isAt_givenAll hat before) hkeptNames,
      Snapshot.slot_givenAll_of_not_mem hat hbeforeNames]

/-- Where the user cannot be read, a grant is refused at once. Otherwise what the storage refuses
is given back, as long as it refuses one key only. -/
theorem undone_of_error (hat : ∀ n, (s.store.cell n).IsAt n) (hg : g.Serialises)
    (h : writeAuthorization g s = .error e t) (hkey : RefusesOneKey s.durable t.durable) :
    (s.store.cell .user).get = .error e ∧ t = s ∨ s.Undone g e t := by
  simp only [writeAuthorization, Act.bind_apply] at h
  obtain ⟨e', hread, huser⟩ | ⟨previous, hread, hnames, hgets, huser⟩ := valuesOf_grant_cases hat g
  · rw [hread] at h
    cases h
    exact .inl ⟨huser, rfl⟩
  · simp only [hread, Act.tryCatch_apply] at h
    cases hset : setAll (grantValues g) s with
    | ok u s₁ =>
      simp only [hset] at h
      contradiction
    | error e₁ s₁ =>
      simp only [hset, Act.bind_apply] at h
      obtain ⟨s₂, hback⟩ := exists_putBack_eq_ok previous s₁
      simp only [hback, Act.throw_apply] at h
      cases h
      exact .inr (undone_of_refused hat hg hnames hgets huser hset hback hkey)

/-- A grant that cannot be written leaves the header as it was. -/
theorem header_of_writeAuthorization_error (hat : ∀ n, (s.store.cell n).IsAt n)
    (hg : g.Serialises) (h : writeAuthorization g s = .error e t)
    (hkey : RefusesOneKey s.durable t.durable) : t.store.header = s.store.header := by
  obtain ⟨-, rfl⟩ | hundone := undone_of_error hat hg h hkey
  · rfl
  · exact hundone.header hat

omit [ListedDurable σ] in
/-- A grant that has been written is what the header shows. -/
theorem header_of_writeAuthorization_ok [LawfulDurable σ] (hat : ∀ n, (s.store.cell n).IsAt n)
    (h : writeAuthorization g s = .ok () t) :
    t.store.header = some (Header.ofTokens g.accessToken g.idToken) := by
  have htokens := writeAuthorization_ok hat h
  exact Header.authorization_eq_some_iff.mpr ⟨g.accessToken, g.idToken,
    htokens .accessToken (by decide), htokens .idToken (by decide), g.accessToken_ne, g.idToken_ne,
    rfl⟩

/-- A session that has been reached holds a grant as a whole, or has taken it back, as long as the
user of the grant can be written down and all refusals concern one key; or its own user cannot be
read, and then it is left alone. -/
theorem writeAuthorization_allOrNothing (s : Session σ) (hs : s.Reached) (g : Grant)
    (hg : g.Serialises)
    (hkey : RefusesOneKey s.durable ((writeAuthorization g).after s).durable) :
    match writeAuthorization g s with
    | .ok _ t => s.Holds g t
    | .error e t => (s.store.cell .user).get = .error e ∧ t = s ∨ s.TakesBack g e t := by
  cases h : writeAuthorization g s with
  | ok u t =>
    obtain ⟨previous, s₁, hread, htry⟩ := Act.bind_eq_ok.mp h
    obtain ⟨e, herror, -⟩ | ⟨_, hvalues, -⟩ := valuesOf_cases ((grantValues g).map Prod.fst) s
    · cases hread.symm.trans herror
    cases hread.symm.trans hvalues
    obtain hset | ⟨e, s₂, -, hback⟩ := Act.tryCatch_eq_ok htry
    · exact holds_of_setAll hs.sound hg hset
    · obtain ⟨_, _, -, hthrow⟩ := Act.bind_eq_ok.mp hback
      rw [Act.throw_apply] at hthrow
      contradiction
  | error e t =>
    rw [Act.after, h] at hkey
    exact (undone_of_error hs.sound.isAt hg h hkey).imp_right (·.takesBack hs.sound)

end Grants

section

open Installation (firstGrant secondGrant)

/-- A user who says nothing can be written down. -/
theorem serialises_of_empty {g : Grant} (h : g.user = .empty) : g.Serialises := by
  intro c hat _
  refine ⟨"\x7b\x7d", ?_⟩
  rw [Cell.encode, hat.2.1, h]
  with_unfolding_all rfl

/-- A storage that holds two tokens and a user, and does not change the identity token any more. -/
def stuck : Listed Memory :=
  ⟨⟨[("access_token", "old"), ("id_token", "old-id"), ("user_identity", "\x7b\"a\": [1]\x7d")],
    [⟨.set, "id_token", -1⟩, ⟨.remove, "id_token", -1⟩]⟩, []⟩

/-- It refuses the identity token of a grant, and the old one when it is given back. -/
theorem stuck_takesBack :
    ∃ (s : Session (Listed Memory)) (e : Raised) (t : Session (Listed Memory)), s.Reached ∧
      secondGrant.Serialises ∧ RefusesOneKey s.durable t.durable ∧
        writeAuthorization secondGrant s = .error e t ∧
          t.durable.keys = ["id_token", "id_token"] ∧ s.TakesBack secondGrant e t := by
  have hends : endsAs .always stuck [] (fun s =>
      match writeAuthorization secondGrant s with
      | .ok _ _ => false
      | .error _ t => decide ((s.store.cell .user).get.isOk = true ∧ s.durable.keys = [] ∧
          t.durable.keys = ["id_token", "id_token"])) = true := by decide +kernel
  obtain ⟨s, hs, hasked⟩ := exists_reached_of_endsAs hends
  clear hends
  cases hwrite : writeAuthorization secondGrant s with
  | ok u t =>
    rw [hwrite] at hasked
    contradiction
  | error e t =>
    rw [hwrite] at hasked
    obtain ⟨huser, hbefore, hafter⟩ := of_decide_eq_true hasked
    have hserialises : secondGrant.Serialises := serialises_of_empty rfl
    have hkey : RefusesOneKey s.durable t.durable :=
      ⟨"id_token", t.durable.keys, by simp [ListedDurable.refusedKeys, hbefore], by simp [hafter]⟩
    have hcases := writeAuthorization_allOrNothing s hs secondGrant hserialises
      (by rwa [Act.after, hwrite])
    simp only [hwrite] at hcases
    obtain ⟨hget, -⟩ | htakes := hcases
    · rw [hget] at huser
      contradiction
    · exact ⟨s, e, t, hs, hserialises, hkey, hwrite, hafter, htakes⟩

/-- A map with a number of so many digits. -/
def longNumber (digits : Nat) : String :=
  String.ofList ('\x7b' :: (Json.writeText true "n" ++ ':' :: ' ' ::
    (List.replicate digits '1' ++ ['\x7d'])))

/-- An identity with a number of more digits than are read cannot be read. -/
theorem get_longNumber {c : Cell} (hkind : c.kind = .identity) {digits : Nat}
    (hlong : Json.digitLimit < digits) (hraw : c.raw = some (longNumber digits)) :
    c.get = .error (.notJson (.tooManyDigits digits)) := by
  have hleads : Json.Leads (List.replicate digits '1') := by
    obtain ⟨n, rfl⟩ : ∃ n, digits = n + 1 := Nat.exists_eq_add_one_of_ne_zero (by omega)
    refine ⟨fun c hc => ?_, .inr ⟨'1', _, List.replicate_succ, by decide⟩⟩
    rw [List.eq_of_mem_replicate hc]
    rfl
  have hread := Json.read_tooManyDigits "n" hleads (by rwa [List.length_replicate])
  rw [List.length_replicate] at hread
  simp only [Cell.get, hkind, Cell.identity?, hraw, Cell.decodeIdentity, longNumber, hread]
  rfl

/-- A storage that holds a user and nothing else. -/
def holdingUser (text : String) : Listed Memory := ⟨⟨[("user_identity", text)], []⟩, []⟩

/-- Whatever the text of the user, the storage can be opened, and stays as it is. -/
theorem exists_reached_holdingUser (text : String) :
    ∃ s : Session (Listed Memory), s.Reached ∧ s.durable = holdingUser text ∧
      (s.store.cell .user).raw = some text :=
  ⟨_, ⟨.always, holdingUser text, _, _, [], rfl, rfl⟩, rfl, rfl⟩

/-- Nothing is written over a user with too many digits, although nothing is refused. -/
theorem not_takesBack_longNumber :
    ∃ s : Session (Listed Memory), s.Reached ∧ s.durable = holdingUser (longNumber 4301) ∧
      firstGrant.Serialises ∧
        writeAuthorization firstGrant s = .error (.notJson (.tooManyDigits 4301)) s ∧
          ¬ s.TakesBack firstGrant (.notJson (.tooManyDigits 4301)) s := by
  obtain ⟨s, hs, hdurable, hraw⟩ := exists_reached_holdingUser (longNumber 4301)
  have hget := get_longNumber (hs.sound.isAt .user).2.1 (by decide) hraw
  refine ⟨s, hs, hdurable, serialises_of_empty rfl,
    writeAuthorization_of_get_error hs.sound.isAt firstGrant hget, fun htakes => ?_⟩
  obtain ⟨v, hread, -⟩ := htakes.user
  cases hget.symm.trans hread

end

end Session

end BearerSession
