import BearerSession.Proofs.Credential.Identities
import BearerSession.Proofs.Credential.Listed
import BearerSession.Proofs.Credential.Reached

/-!
# Values that are given back

What several cells become when they are given values is determined cell by cell. A cell that was in
the state required by the policy is the same as before when it has been given back what it had, and
so is its entry. An identity is given back with its keys in order.
-/

namespace BearerSession

namespace Cell

variable {c c' : Cell} {p : Policy} {v : Value} {entry entry' : Option String}

/-- Whether a cell that has a value is in the state that a policy requires. -/
def InState (c : Cell) (p : Policy) : Prop :=
  c.raw ≠ none → (c.state = .durable ↔ c.persists p = true)

/-- Being given a value changes no more of a cell than its value and its state. -/
theorem given_eq (c : Cell) (p : Policy) (v : Value) (entry : Option String) :
    ∃ raw state, (c.given p v entry).1 = { c with raw, state } := by
  obtain hgiven | ⟨raw, hgiven⟩ | hgiven := c.given_cases p v entry <;> rw [hgiven]
  · exact ⟨none, .transient, rfl⟩
  · exact ⟨some raw, _, rfl⟩
  · exact ⟨c.raw, c.state, rfl⟩

/-- Where a policy wants no copy, a value that a cell is given leaves the entry alone. -/
theorem given_entry_eq (hv : v ≠ .null) (hp : c.persists p = false) :
    (c.given p v entry).2 = entry := by
  cases hraw : c.encode v with
  | ok raw => simp [given_of_encode hv hraw, filledEntry, hp]
  | error e => rw [given_of_encode_error hv hraw]

/-- A text in a cell that is not for identities is what the cell has then. -/
theorem given_ofText? (hkind : c.kind = .plain) (raw : Option String) :
    c.given p (.ofText? raw) entry = match raw with
      | none => (c.emptied, none)
      | some text => (c.filled p text, c.filledEntry p text entry) := by
  cases raw with
  | none => rfl
  | some text =>
    refine given_of_encode (v := .text text) nofun ?_
    simp only [encode, hkind, Value.display_text]

/-- A cell that was in the state required is given back what it had, whatever it has been given in
the meantime, and so is its entry. -/
theorem given_back (hkind : c.kind = .plain) (hsound : c.Sound entry) (hstate : c.InState p)
    (hsame : ∃ raw state, c' = { c with raw, state })
    (hentry : c.persists p = false → entry' = entry) :
    c'.given p (.ofText? c.raw) entry' = (c, entry) := by
  obtain ⟨raw', state', rfl⟩ := hsame
  rw [given_ofText? (c := { c with raw := raw', state := state' }) hkind]
  cases hraw : c.raw with
  | none =>
    obtain ⟨htransient, rfl⟩ := hsound.empty hraw
    change (({ c with raw := none, state := .transient } : Cell), none) = (c, none)
    rw [← hraw, ← htransient]
  | some text =>
    have hdurable := hstate (by rw [hraw]; exact Option.some_ne_none text)
    have hstays : (if c.persists p = true then CellState.durable else .transient) = c.state := by
      split
      · next hp => exact (hdurable.mpr hp).symm
      · next hp =>
        cases hc : c.state with
        | transient => rfl
        | durable => exact absurd (hdurable.mp hc) hp
    refine Prod.ext ?_ ?_
    · change ({ c with
        raw := some text
        state := if c.persists p = true then CellState.durable else .transient } : Cell) = c
      rw [hstays, ← hraw]
    · change (if c.persists p = true then some text else entry') = entry
      split
      · next hp => rw [← hraw, hsound.durable (hdurable.mpr hp)]
      · next hp => exact hentry (Bool.eq_false_iff.mpr hp)

/-- The value of an identity cell is no value, or a map that can be written and read back. -/
theorem readsBack_of_get (hkind : c.kind = .identity) (h : c.get = .ok v) :
    v = .null ∨ ∃ entries, v = .map entries ∧ v.ReadsBack Json.depthLimit := by
  simp only [get, hkind, identity?, decodeIdentity] at h
  split at h
  · cases h
    exact .inl rfl
  · split at h
    · next hread =>
      cases h
      exact .inr ⟨_, rfl, Json.readsBack_of_read hread⟩
    · cases h
      exact .inl rfl
    · cases h
      exact .inl rfl
    · contradiction

/-- The encoding of an identity is the text of the map that it is stored as. -/
theorem encode_toValue_eq_ok {kind : IdentityKind} {i : Identity kind} {raw : String}
    (hkind : c.kind = .identity) (h : c.encode i.toValue = .ok raw) :
    ∃ entries, i.toMap = .ok entries ∧
      Json.encode .line (Value.map entries).sorted = .ok raw := by
  simp only [encode, hkind, entriesOf_toValue] at h
  cases hmap : i.toMap with
  | error e => simp [hmap] at h
  | ok entries =>
    refine ⟨entries, rfl, ?_⟩
    cases hencode : Json.encode .line (Value.map entries).sorted with
    | error e => simp [hmap, hencode] at h
    | ok raw' => simpa [hmap, hencode] using h

/-- A map that can be read back has an encoding, which reads as the map with its keys in order. -/
theorem exists_encode_map (hkind : c.kind = .identity) {entries : List (String × Value)}
    (h : (Value.map entries).ReadsBack Json.depthLimit) :
    ∃ raw, c.encode (.map entries) = .ok raw ∧
      Json.read raw = .ok (Value.map entries).sorted := by
  obtain ⟨raw, hraw, hread⟩ := Json.exists_encode .line h.sorted
  exact ⟨raw, by simp only [encode, hkind, entriesOf, hraw], hread⟩

/-- An identity cell has the map that its text reads as. -/
theorem get_of_read {raw : String} {entries : List (String × Value)} (hkind : c.kind = .identity)
    (hraw : c.raw = some raw) (hread : Json.read raw = .ok (.map entries)) :
    c.get = .ok (.map entries) := by
  simp only [get, hkind, identity?, hraw, decodeIdentity, hread]
  rfl

/-- An identity is given back as it was read, with its keys in order. -/
theorem get_given_back (hkind : c.kind = .identity) (h : c.get = .ok v)
    (hsame : ∃ raw state, c' = { c with raw, state }) :
    (c'.given p v entry').1.get = .ok v.sorted := by
  have hkind' : c'.kind = .identity := by
    obtain ⟨raw', state', rfl⟩ := hsame
    exact hkind
  obtain rfl | ⟨entries, rfl, hv⟩ := readsBack_of_get hkind h
  · simp only [given_null, get, emptied, hkind', identity?]
    rfl
  · obtain ⟨raw, hraw, hread⟩ := exists_encode_map hkind' hv
    have hsome : Value.map entries ≠ .null := by simp
    rw [given_of_encode hsome hraw]
    exact get_of_read hkind' rfl hread

end Cell

/-- What a cell holds can be put back into the cell of its name. -/
theorem encodable_of_get {n : CellName} {c : Cell} {v : Value} (hat : c.IsAt n)
    (h : c.get = .ok v) : Encodable n v := by
  cases hkind : n.kind with
  | plain => exact encodable_of_plain hkind v
  | identity =>
    intro c' hat' hnull
    obtain rfl | ⟨entries, rfl, hv⟩ := Cell.readsBack_of_get (hat.2.1.trans hkind) h
    · exact absurd rfl hnull
    · obtain ⟨raw, hraw, -⟩ := Cell.exists_encode_map (hat'.2.1.trans hkind) hv
      exact ⟨raw, hraw⟩

namespace Snapshot

variable {s : Snapshot} {n m : CellName} {v : Value} {values : List (CellName × Value)}

/-- A cell with its entry. -/
def slot (s : Snapshot) (n : CellName) : Cell × Option String := (s.store.cell n, s.view n.key)

theorem slot_given_self (h : (s.store.cell n).IsAt n) (v : Value) :
    (s.given n v).slot n = (s.slot n).1.given s.store.policy v (s.slot n).2 := by
  simp only [slot, given, put, h.1, Store.cell_put_self, Function.update_self]

theorem slot_given_of_ne (h : (s.store.cell n).IsAt n) (v : Value) (hm : m ≠ n) :
    (s.given n v).slot m = s.slot m := by
  have hkey : m.key ≠ n.key := fun he => hm (CellName.key_injective he)
  simp only [slot, given, put, h.1, Store.cell_put_of_ne _ _ hm, Function.update_of_ne hkey]

theorem isAt_given (h : ∀ m, (s.store.cell m).IsAt m) (n : CellName) (v : Value) (m : CellName) :
    ((s.given n v).store.cell m).IsAt m := by
  by_cases hm : m = n
  · subst hm
    rw [given, put_cell_self]
    exact (h m).given _ _ _
  · rw [given, put_cell_of_ne _ _ _ hm]
    exact h m

/-- Several cells are given values, one after the other. -/
def givenAll (s : Snapshot) (values : List (CellName × Value)) : Snapshot :=
  values.foldl (fun s e => s.given e.1 e.2) s

theorem isAt_givenAll (h : ∀ m, (s.store.cell m).IsAt m) (values : List (CellName × Value)) :
    ∀ m, ((s.givenAll values).store.cell m).IsAt m := by
  induction values generalizing s with
  | nil => exact h
  | cons e rest ih => exact ih (isAt_given h e.1 e.2)

theorem policy_givenAll (hspares : Session.SparesPolicy values) :
    (s.givenAll values).store.policy = s.store.policy := by
  induction values generalizing s with
  | nil => rfl
  | cons e rest ih =>
    obtain ⟨hn, hrest⟩ := List.forall_mem_cons.mp hspares
    exact (ih hrest).trans (Session.policy_put_of_ne s.store hn _)

/-- Cells that are not given anything stay as they are, with their entries. -/
theorem slot_givenAll_of_not_mem (h : ∀ m, (s.store.cell m).IsAt m)
    (hn : n ∉ values.map Prod.fst) : (s.givenAll values).slot n = s.slot n := by
  induction values generalizing s with
  | nil => rfl
  | cons e rest ih =>
    rw [List.map_cons, List.mem_cons, not_or] at hn
    exact (ih (isAt_given h e.1 e.2) hn.2).trans (slot_given_of_ne (h e.1) e.2 hn.1)

/-- A cell that is given a value among others becomes what it does alone. -/
theorem slot_givenAll_of_mem (h : ∀ m, (s.store.cell m).IsAt m)
    (hnodup : (values.map Prod.fst).Nodup) (hspares : Session.SparesPolicy values)
    (hv : (n, v) ∈ values) :
    (s.givenAll values).slot n = (s.slot n).1.given s.store.policy v (s.slot n).2 := by
  induction values generalizing s with
  | nil => contradiction
  | cons e rest ih =>
    obtain ⟨hfresh, hrest⟩ := List.nodup_cons.mp hnodup
    obtain ⟨he, hothers⟩ := List.forall_mem_cons.mp hspares
    have hat := isAt_given h e.1 e.2
    rcases List.mem_cons.mp hv with rfl | hv
    · exact (slot_givenAll_of_not_mem hat hfresh).trans (slot_given_self (h n) v)
    · have hne : n ≠ e.1 := fun hn => hfresh (hn ▸ List.mem_map_of_mem hv)
      have hpolicy : (s.given e.1 e.2).store.policy = s.store.policy :=
        Session.policy_put_of_ne s.store he _
      have hnext := ih hat hrest hothers hv
      rwa [slot_given_of_ne (h e.1) e.2 hne, hpolicy] at hnext

/-- Several values, each of which is one, change no more of a cell than its value and its state, and
not its entry where the policy wants no copy. -/
theorem slot_givenAll_cases (h : ∀ m, (s.store.cell m).IsAt m)
    (hnodup : (values.map Prod.fst).Nodup) (hspares : Session.SparesPolicy values)
    (hvalues : ∀ e ∈ values, e.2 ≠ .null) (n : CellName) :
    (∃ raw state, ((s.givenAll values).slot n).1 = { s.store.cell n with raw, state }) ∧
      ((s.store.cell n).persists s.store.policy = false →
        ((s.givenAll values).slot n).2 = s.view n.key) := by
  by_cases hn : n ∈ values.map Prod.fst
  · obtain ⟨⟨_, v⟩, hv, rfl⟩ := List.mem_map.mp hn
    rw [slot_givenAll_of_mem h hnodup hspares hv]
    exact ⟨Cell.given_eq _ _ _ _, Cell.given_entry_eq (hvalues _ hv)⟩
  · rw [slot_givenAll_of_not_mem h hn]
    exact ⟨⟨(s.store.cell n).raw, (s.store.cell n).state, rfl⟩, fun _ => rfl⟩

/-- A cell and its entry are as before, or the cell has been given back what it had. -/
def GivenBack (s t : Snapshot) (n : CellName) : Prop :=
  t.slot n = s.slot n ∨ ∃ v c entry,
    (s.store.cell n).get = .ok v ∧ t.slot n = c.given s.store.policy v entry ∧
      (∃ raw state, c = { s.store.cell n with raw, state }) ∧
        ((s.store.cell n).persists s.store.policy = false → entry = s.view n.key)

namespace GivenBack

variable {t : Snapshot}

/-- The cell is still the one of its name. -/
theorem isAt (h : s.GivenBack t n) (hat : (s.store.cell n).IsAt n) : (t.store.cell n).IsAt n := by
  have hcell : t.store.cell n = (t.slot n).1 := rfl
  rw [hcell]
  obtain hsame | ⟨v, c, entry, -, hgiven, ⟨raw, state, rfl⟩, -⟩ := h
  · rw [hsame]
    exact hat
  · rw [hgiven]
    exact Cell.IsAt.given (c := { s.store.cell n with raw, state }) hat _ _ _

/-- A text is read as it was. -/
theorem raw_eq (h : s.GivenBack t n) (hat : (s.store.cell n).IsAt n) (hkind : n.kind = .plain) :
    (t.store.cell n).raw = (s.store.cell n).raw := by
  obtain hsame | ⟨v, c, entry, hget, hgiven, ⟨raw, state, rfl⟩, -⟩ := h
  · exact congrArg (fun slot => slot.1.raw) hsame
  · have hplain : (s.store.cell n).kind = .plain := hat.2.1.trans hkind
    rw [Cell.get, hplain] at hget
    obtain rfl := Except.ok.inj hget
    rw [Cell.given_ofText? (c := { s.store.cell n with raw, state }) hplain] at hgiven
    have hraw : (t.store.cell n).raw = (t.slot n).1.raw := rfl
    rw [hraw, hgiven]
    cases (s.store.cell n).raw <;> rfl

/-- A cell that was in the state required is the same as before, and so is its entry. -/
theorem slot_eq (h : s.GivenBack t n) (hat : (s.store.cell n).IsAt n) (hkind : n.kind = .plain)
    (hsound : (s.store.cell n).Sound (s.view n.key))
    (hstate : (s.store.cell n).InState s.store.policy) : t.slot n = s.slot n := by
  obtain hsame | ⟨v, c, entry, hget, hgiven, hc, hentry⟩ := h
  · exact hsame
  · have hplain : (s.store.cell n).kind = .plain := hat.2.1.trans hkind
    rw [Cell.get, hplain] at hget
    obtain rfl := Except.ok.inj hget
    rw [hgiven]
    exact Cell.given_back hplain hsound hstate hc hentry

/-- An identity is read as it was, up to the order of its keys. -/
theorem get_eq (h : s.GivenBack t n) (hat : (s.store.cell n).IsAt n) (hkind : n.kind = .identity)
    {v : Value} (hget : (s.store.cell n).get = .ok v) :
    (t.store.cell n).get = .ok v ∨ (t.store.cell n).get = .ok v.sorted := by
  obtain hsame | ⟨w, c, entry, hread, hgiven, hc, -⟩ := h
  · exact .inl ((congrArg (fun slot => slot.1.get) hsame).trans hget)
  · right
    cases hget.symm.trans hread
    have hcell : (t.store.cell n).get = (t.slot n).1.get := rfl
    rw [hcell, hgiven]
    exact Cell.get_given_back (hat.2.1.trans hkind) hget hc

end GivenBack

end Snapshot

end BearerSession
