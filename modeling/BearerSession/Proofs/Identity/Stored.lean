import BearerSession.Identity
import BearerSession.Proofs.Durable.SessionFile
import BearerSession.Proofs.Value.Stored

/-!
# Identities in stored form

An identity is stored as a map: each declared field under its key, and whatever else the identity
says under its own keys. Nothing is stored of what has no value.
-/

namespace BearerSession

open Value (Keyed)

namespace Identity

variable {kind : IdentityKind}

/-- The declared fields that an identity says something about, under their keys. -/
def texts (i : Identity kind) : List (String × String) :=
  kind.fields.filterMap fun f => (i.declared f).map fun s => (f.key, s)

theorem keyOfName_name (f : IdentityField) : keyOfName f.name = f.key := by
  cases f <;> decide

/-- Declared fields go under their keys, and those without a value go nowhere. -/
theorem storedFields_eq (levels : Nat) (declared : IdentityField → Option String)
    (fields : List IdentityField) :
    Value.storedFields ⟨keyOfName, false⟩ levels
        (fields.map fun f => (f.name, .ofText? (declared f))) =
      .ok (Value.ofTexts (fields.filterMap fun f => (declared f).map fun s => (f.key, s))) := by
  induction fields with
  | nil => rfl
  | cons f rest ih =>
    cases hf : declared f with
    | none =>
      rw [List.filterMap_cons_none (by simp [hf]), ← ih, List.map_cons, hf]
      simp [Value.storedFields, Value.StoredLayout.omits, Value.ofText?, Value.isNull]
    | some s =>
      rw [List.filterMap_cons_some (b := (f.key, s)) (by simp [hf]), List.map_cons, hf,
        Value.storedFields]
      simp only [ih]
      simp [Value.storedField, Value.StoredLayout.omits, Value.ofText?, Value.isNull,
        keyOfName_name, Value.ofTexts, Except.map]

/-- An identity is stored as the texts of its declared fields and what else it says, unless that is
nested too deep. -/
theorem toMap_eq_ite {i : Identity kind} (h : Value.EntriesAreData i.extras) :
    i.toMap = if Value.entriesNesting (Value.said i.extras) ≤ Value.nestingLimit then
      .ok (Value.ofTexts i.texts ++ Value.said i.extras) else .error .overnested := by
  rw [toMap, Value.storedRecord, fields, storedFields_eq, Value.storedExtras_eq _ _ h]
  by_cases hn : Value.entriesNesting (Value.said i.extras) ≤ Value.nestingLimit
  · rw [if_pos hn, if_pos hn]
    rfl
  · rw [if_neg hn, if_neg hn]
    rfl

/-- One that says nothing else is stored as these texts. -/
theorem toMap_eq {i : Identity kind} (h : i.extras = []) :
    i.toMap = .ok (Value.ofTexts i.texts) := by
  rw [toMap_eq_ite (h ▸ trivial), h]
  exact congrArg Except.ok (List.append_nil _)

/-- No two fields of an identity share a key. -/
theorem keyed_texts (i : Identity kind) : Keyed i.texts := by
  have hkeys : i.texts.map Prod.fst = (kind.fields.filter fun f => (i.declared f).isSome).map
      IdentityField.key := by
    unfold texts
    induction kind.fields with
    | nil => rfl
    | cons f rest ih => cases hf : i.declared f <;> simp [hf, ih]
  have hfields : (kind.fields.map IdentityField.key).Nodup := by cases kind <;> decide
  unfold Keyed
  rw [hkeys]
  exact hfields.sublist (List.filter_sublist.map _)

/-- The declared fields of an identity are read back from their names. -/
theorem declared_ofFields (i : Identity kind) (extras : List (String × Value)) {f : IdentityField}
    (hf : f ∈ kind.fields) :
    (ofFields i.fields extras : Identity kind).declared f = i.declared f := by
  have hfound : Value.find? i.fields f.name = some (.ofText? (i.declared f)) := by
    cases kind <;> simp only [IdentityKind.fields, List.mem_cons, List.not_mem_nil, or_false] at hf
    · rcases hf with rfl | rfl <;> rfl
    · rcases hf with rfl | rfl | rfl | rfl <;> rfl
    · rcases hf with rfl | rfl | rfl <;> rfl
  simp only [ofFields, hfound]
  cases i.declared f <;> simp [Value.ofText?, hf]

/-- An identity that is read from its own fields is stored as the same map. -/
theorem toMap_ofFields (i : Identity kind) :
    (ofFields i.fields i.extras : Identity kind).toMap = i.toMap := by
  have hfields : (ofFields i.fields i.extras : Identity kind).fields = i.fields :=
    List.map_congr_left fun _ hf => by rw [declared_ofFields i i.extras hf]
  rw [toMap, hfields]
  rfl

end Identity

end BearerSession
