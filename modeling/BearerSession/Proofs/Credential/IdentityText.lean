import BearerSession.Proofs.Credential.GivenBack
import BearerSession.Proofs.Durable.GivesBack
import BearerSession.Proofs.Json.Limits

/-!
# The text of an identity

An identity cell keeps a map as a JSON text, and this is all that it keeps. So it answers the map
that it was given, up to the order of the keys, and so does any cell that is opened on the same
storage later. Of a text that somebody else has stored it answers what the text says where that is
a map, and no identity otherwise.
-/

namespace BearerSession

namespace Value

mutual

/-- Whether two values are the same up to the order of the keys of their maps. A number and a truth
value, which may compare as the same, are not. -/
def SameAs : Value → Value → Prop
  | .list items, .list others => ItemsSameAs items others
  | .map entries, .map others =>
    entries.length = others.length ∧ EntriesSameAs entries others
  | v, w => v = w

/-- Whether the values of two lists are the same in turn. -/
def ItemsSameAs : List Value → List Value → Prop
  | [], [] => True
  | v :: rest, w :: others => v.SameAs w ∧ ItemsSameAs rest others
  | _, _ => False

/-- Whether the same values are found in a map under all these keys. -/
def EntriesSameAs : List (String × Value) → List (String × Value) → Prop
  | [], _ => True
  | (k, v) :: rest, others =>
    (∃ w, find? others k = some w ∧ v.SameAs w) ∧ EntriesSameAs rest others

end

theorem entriesSameAs_iff {entries others : List (String × Value)} :
    EntriesSameAs entries others ↔
      ∀ e ∈ entries, ∃ w, find? others e.1 = some w ∧ e.2.SameAs w := by
  induction entries with
  | nil => simp [EntriesSameAs]
  | cons e rest ih => rw [EntriesSameAs, ih, List.forall_mem_cons]

/-- Putting the keys of the values of a map in order does so to each of them. -/
theorem sortedEntries_eq_map (entries : List (String × Value)) :
    sortedEntries entries = entries.map fun e => (e.1, e.2.sorted) := by
  induction entries with
  | nil => rfl
  | cons e rest ih => rw [sortedEntries, ih, List.map_cons]

mutual

/-- A value with its keys in order is the same. -/
theorem ReadsBack.sameAs_sorted {depth : Nat} {v : Value} (h : v.ReadsBack depth) :
    v.SameAs v.sorted := by
  match v with
  | .null | .bool _ | .text _ | .int _ | .real _ => rfl
  | .list items => exact h.2.sameAs_sorted
  | .map entries =>
    have hperm := (sortedEntries entries).mergeSort_perm fun a b => decide (a.1 ≤ b.1)
    refine ⟨?_, entriesSameAs_iff.mpr fun e he => ⟨e.2.sorted, ?_, ?_⟩⟩
    · rw [hperm.length_eq, sortedEntries_eq_map, List.length_map]
    · have hkeyed := (ReadsBack.sorted h).2.1
      rw [hkeyed.find?_eq_some_iff, hperm.mem_iff, sortedEntries_eq_map]
      exact List.mem_map_of_mem he
    · exact h.2.2.sameAs_sorted e he

/-- So are the values of a list. -/
theorem ItemsReadBack.sameAs_sorted {depth : Nat} {items : List Value}
    (h : ItemsReadBack depth items) : ItemsSameAs items (sortedItems items) := by
  match items with
  | [] => trivial
  | v :: rest => exact ⟨h.1.sameAs_sorted, h.2.sameAs_sorted⟩

/-- So is each value of a map. -/
theorem EntriesReadBack.sameAs_sorted {depth : Nat} {entries : List (String × Value)}
    (h : EntriesReadBack depth entries) : ∀ e ∈ entries, e.2.SameAs e.2.sorted := by
  match entries with
  | [] => exact List.forall_mem_nil _
  | (_, v) :: rest => exact List.forall_mem_cons.mpr ⟨h.1.sameAs_sorted, h.2.sameAs_sorted⟩

end

end Value

namespace Cell

variable {c : Cell} {raw : String}

/-- A cell answers a map, up to the order of the keys. -/
def Answers (c : Cell) (entries : List (String × Value)) : Prop :=
  ∃ found, (Value.map entries).SameAs (.map found) ∧ c.get = .ok (.map found) ∧
    c.getAsMap = .ok found

/-- What a cell answers about a text that it holds. -/
structure Tells (c : Cell) (raw : String) : Prop where
  /-- It answers what the text says, which is a map, or no identity where the text says no map. -/
  honest : ∀ v, c.get = .ok v →
    (∃ entries, v = .map entries ∧ Json.Says raw v ∧ c.getAsMap = .ok entries) ∨
      v = .null ∧ (∀ entries, ¬ Json.Says raw (.map entries)) ∧ c.getAsMap = .ok []
  /-- It answers, as long as the text keeps the limits of the reader. -/
  answers : Json.WithinLimits raw.toList → ∃ v, c.get = .ok v

/-- A map is answered from the text that reads as this map with its keys in order. -/
theorem answers_of_read (hkind : c.kind = .identity) (hraw : c.raw = some raw)
    {entries : List (String × Value)} (h : (Value.map entries).ReadsBack Json.depthLimit)
    (hread : Json.read raw = .ok (Value.map entries).sorted) : c.Answers entries :=
  ⟨_, h.sameAs_sorted, get_of_read hkind hraw hread,
    by simp only [getAsMap, identity?, hraw, decodeIdentity, hread]; rfl⟩

/-- A text holds an identity where it says a map, and none where it does not; it is refused only
beyond the limits of the reader. -/
theorem decodeIdentity_cases (raw : String) :
    (∃ entries, Json.Says raw (.map entries) ∧ decodeIdentity raw = .ok (some entries)) ∨
      ((∀ entries, ¬ Json.Says raw (.map entries)) ∧ decodeIdentity raw = .ok none) ∨
        ¬ Json.WithinLimits raw.toList ∧ ∃ e, decodeIdentity raw = .error e := by
  unfold decodeIdentity
  split
  · next entries hread => exact .inl ⟨entries, Json.says_of_read hread, rfl⟩
  · next v hother hread =>
    exact .inr (.inl ⟨fun entries h => hother entries (h.eq_of_read hread), rfl⟩)
  · next hread => exact .inr (.inl ⟨fun _ h => h.not_malformed hread, rfl⟩)
  · next e hother hread =>
    refine .inr (.inr ⟨fun hwithin => ?_, _, rfl⟩)
    obtain ⟨complaint, line, column, position, hform⟩ := Json.exists_malformed_of_read hwithin hread
    exact hother complaint line column position hform

/-- An identity cell tells what its text says. -/
theorem tells_of_raw (hkind : c.kind = .identity) (hraw : c.raw = some raw) : c.Tells raw := by
  have hget : c.get = (decodeIdentity raw).map fun entries => entries.elim .null .map := by
    simp only [get, hkind, identity?, hraw]
  have hmap : c.getAsMap = (decodeIdentity raw).map fun entries => entries.getD [] := by
    simp only [getAsMap, identity?, hraw]
  obtain ⟨entries, hsays, hdecode⟩ | ⟨hnone, hdecode⟩ | ⟨hbeyond, e, hdecode⟩ :=
    decodeIdentity_cases raw <;> rw [hdecode] at hget hmap
  · refine ⟨fun v hv => .inl ⟨entries, ?_⟩, fun _ => ⟨_, hget⟩⟩
    obtain rfl := Except.ok.inj (hv.symm.trans hget)
    exact ⟨rfl, hsays, hmap⟩
  · exact ⟨fun v hv => .inr ⟨Except.ok.inj (hv.symm.trans hget), hnone, hmap⟩, fun _ => ⟨_, hget⟩⟩
  · refine ⟨fun v hv => ?_, fun hwithin => absurd hwithin hbeyond⟩
    cases hv.symm.trans hget

section Kept

variable {σ : Type} [Durable σ] {p : Policy} {d d' : σ} {c' : Cell}

/-- A cell that is durable is opened with what is read under its name, and nothing is changed. -/
theorem restore_of_persists (hp : c.persists p = true) {entry : Option String}
    (hget : Durable.get c.name d = .ok entry) : c.restore p d = .ok (c.opened p entry) d := by
  simp only [restore, hp, if_true, Act.bind_apply, Durable.read, hget]
  cases entry with
  | none => rfl
  | some raw =>
    simp only [opened, filled, hp, if_true]
    rfl

/-- A text that a cell takes is in it then, and it is read under its name where the cell is durable.
-/
theorem filled_of_write (hstorage : GivesBack σ) (h : c.write p raw d = .ok c' d') :
    c' = c.filled p raw ∧ (c.persists p = true → Durable.get c.name d' = .ok (some raw)) := by
  unfold write at h
  split at h
  · next hp =>
    obtain ⟨_, e, hset, hpure⟩ := Act.bind_eq_ok.mp h
    cases hpure
    exact ⟨by simp [filled, hp], fun _ => hstorage c.name raw d d' hset⟩
  · next hp =>
    cases h
    exact ⟨by simp [filled, hp], fun hdurable => absurd hdurable hp⟩

/-- Whichever identity cell of a name is opened on a storage, it is such a cell, and the storage is
as before. Where the policy decides on the cell it has to be one that lets it be durable. -/
def OpensAs (name : String) (d : σ) (P : Cell → Prop) : Prop :=
  ∀ (governed : Bool) (p : Policy), (blank name .identity governed).persists p = true →
    ∃ fresh, (blank name .identity governed).restore p d = .ok fresh d ∧ P fresh

theorem opensAs_of_get {name : String} (hget : Durable.get name d = .ok (some raw))
    {P : Cell → Prop} (hP : ∀ c : Cell, c.kind = .identity → c.raw = some raw → P c) :
    OpensAs name d P := by
  intro governed p hp
  refine ⟨_, restore_of_persists hp hget, ?_⟩
  rw [opened, if_pos hp]
  exact hP _ rfl rfl

/-- Where a text is refused, the cell is durable, and it is the storage that refuses it. -/
theorem refused_of_write {e : Raised} (h : c.write p raw d = .error e d') :
    c.persists p = true ∧ Durable.set c.name raw d = .error e d' := by
  unfold write at h
  split at h
  · next hp =>
    refine ⟨hp, ?_⟩
    rw [Act.bind_apply] at h
    cases hset : Durable.set c.name raw d with
    | ok u t => simp [hset, pure, EStateM.pure] at h
    | error e' t => simpa [hset] using h
  · cases h

/-- A map that an identity cell takes is answered by it, and by every cell that is opened on the
same storage later where the first one is durable, which identity cells are under every policy
unless it decides on them. Only the storage may refuse the map. And of whatever text is stored, a
cell that is opened tells what it says. -/
theorem identity_faithful (hkind : c.kind = .identity) (hstorage : GivesBack σ) :
    (∀ (p : Policy) (entries : List (String × Value)) (d d' : σ),
      (Value.map entries).ReadsBack Json.depthLimit →
        (∀ c' : Cell, c.set p (.map entries) d = .ok c' d' → c'.Answers entries ∧
          (c.persists p = true → OpensAs c.name d' fun fresh => fresh.Answers entries)) ∧
        ∀ e : Raised, c.set p (.map entries) d = .error e d' →
          c.persists p = true ∧ ∃ raw, Durable.set c.name raw d = .error e d') ∧
      ∀ (d : σ) (raw : String), Durable.get c.name d = .ok (some raw) →
        OpensAs c.name d fun fresh => fresh.Tells raw := by
  refine ⟨fun p entries d d' hentries => ?_, fun d raw hget =>
    opensAs_of_get hget fun _ => tells_of_raw⟩
  obtain ⟨raw, hraw, hread⟩ := exists_encode_map hkind hentries
  have hset : (c.set p (.map entries) : Act σ Cell) = c.write p raw := by
    simp only [set, hraw]
  have hanswers (c' : Cell) (hkind' : c'.kind = .identity) (hraw' : c'.raw = some raw) :
      c'.Answers entries := answers_of_read hkind' hraw' hentries hread
  rw [hset]
  refine ⟨fun c' hwrite => ?_, fun e hwrite => ?_⟩
  · obtain ⟨rfl, hget⟩ := filled_of_write hstorage hwrite
    exact ⟨hanswers _ hkind rfl, fun hp => opensAs_of_get (hget hp) hanswers⟩
  · obtain ⟨hp, hrefused⟩ := refused_of_write hwrite
    exact ⟨hp, raw, hrefused⟩

end Kept

/-- A map with values inside one another, and with keys that are not in order. -/
def nestedMap : List (String × Value) :=
  [("tags", .list [.text "\u00e9", .null, .bool true]), ("id", .map [("n", .int (-7))])]

/-- A storage in memory that has these values. -/
def inMemory (values : List (String × String)) : Mount := ⟨.empty, .memory ⟨values, []⟩⟩

/-- Such a map is taken and answered later, and a text that is no JSON is no identity. -/
theorem nestedMap_faithful :
    (∃ c d, (blank "user_identity" .identity false).set .never (.map nestedMap) (inMemory []) =
      .ok c d ∧ c.Answers nestedMap ∧
        OpensAs "user_identity" d fun fresh => fresh.Answers nestedMap) ∧
      OpensAs "user_identity" (inMemory [("user_identity", "\x7bnot json")]) fun fresh =>
        fresh.get = .ok .null ∧ fresh.getAsMap = .ok [] := by
  have hmap : (Value.map nestedMap).ReadsBack Json.depthLimit := by
    have hshort : 7 < 10 ^ Json.digitLimit :=
      Nat.lt_of_lt_of_le (by decide) (Nat.pow_le_pow_right (by decide) (by decide : 1 ≤ _))
    simp [nestedMap, Value.ReadsBack, Value.ItemsReadBack, Value.EntriesReadBack, Value.Keyed,
      Json.depthLimit, hshort]
  have hkind : (blank "user_identity" .identity false).kind = .identity := rfl
  obtain ⟨htakes, htells⟩ := identity_faithful hkind Mount.givesBack
  constructor
  · obtain ⟨raw, hraw, -⟩ := exists_encode_map hkind hmap
    have hset : (blank "user_identity" .identity false).set .never (.map nestedMap) (inMemory []) =
        .ok ⟨"user_identity", .identity, false, some raw, .durable⟩
          (inMemory [("user_identity", raw)]) := by
      simp only [set, hraw]
      rfl
    obtain ⟨hanswers, hopens⟩ := (htakes _ _ _ _ hmap).1 _ hset
    exact ⟨_, _, hset, hanswers, hopens rfl⟩
  · intro governed p hp
    obtain ⟨fresh, hopened, htells⟩ :=
      htells (inMemory [("user_identity", "\x7bnot json")]) _ rfl governed p hp
    refine ⟨fresh, hopened, ?_⟩
    obtain ⟨v, hv⟩ := htells.answers (Json.withinLimits_of_length_le (by decide))
    obtain ⟨entries, -, hsays, -⟩ | ⟨rfl, -, hmap⟩ := htells.honest v hv
    · have hread : Json.read "\x7bnot json" = .error (.malformed .key 1 2 1) := by rfl
      exact absurd hread hsays.not_malformed
    · exact ⟨hv, hmap⟩

end Cell

end BearerSession
