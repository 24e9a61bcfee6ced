import BearerSession.Proofs.Identity.Stored

/-!
# Identities that are read back

A field takes what stands under its key, and only where the key is missing what stands under its
name. Where the key is there without a value, the name is therefore an unknown key. It is stored,
and the key, which has no value, is not: the next reader takes the name for the field. Whatever else
an identity says survives in storage.
-/

namespace BearerSession

open Value (Keyed find? said)

namespace IdentityField

/-- No two fields share a key or a name, and no field has the key of another one for its name. -/
theorem key_inj {f g : IdentityField} (h : f.key = g.key) : f = g := by
  revert h
  cases f <;> cases g <;> decide

theorem name_inj {f g : IdentityField} (h : f.name = g.name) : f = g := by
  revert h
  cases f <;> cases g <;> decide

theorem eq_of_key_eq_name {f g : IdentityField} (h : f.key = g.name) : f = g := by
  revert h
  cases f <;> cases g <;> decide

end IdentityField

namespace Value

variable {α : Type} {entries : List (String × α)} {k : String}

/-- In two maps one behind the other, what is found is what the first one has, and else what the
second one has. -/
theorem find?_append (entries others : List (String × α)) (k : String) :
    find? (entries ++ others) k = (find? entries k).or (find? others k) := by
  rw [find?, find?, find?, List.find?_append]
  cases entries.find? fun e => e.1 = k <;> rfl

/-- Among the entries whose keys are of a kind, the same is found under a key of this kind. -/
theorem find?_filter_key (P : String → Bool) (entries : List (String × α)) (k : String) :
    find? (entries.filter fun e => P e.1) k = if P k then find? entries k else none := by
  induction entries with
  | nil => simp [find?]
  | cons e rest ih =>
    unfold find? at ih ⊢
    by_cases hk : e.1 = k
    · cases hP : P k with
      | true => simp [hk, hP]
      | false =>
        rw [hP] at ih
        simpa [List.filter_cons, hk, hP] using ih
    · cases hP : P e.1 with
      | true => simpa [List.filter_cons, hk, hP] using ih
      | false => simpa [List.filter_cons, hk, hP] using ih

/-- Among the entries that have a value, what is found is what has a value. -/
theorem Keyed.find?_said {entries : List (String × Value)} (h : Keyed entries) (k : String) :
    find? (said entries) k = (find? entries k).filter fun v => !v.isNull := by
  refine Option.ext fun v => ?_
  have hsaid : Keyed (said entries) := h.sublist (List.filter_sublist.map _)
  rw [hsaid.find?_eq_some_iff, Option.filter_eq_some_iff, h.find?_eq_some_iff]
  exact List.mem_filter

end Value

namespace Identity

open Validation

variable {kind : IdentityKind} {entries : List (String × Value)} {i : Identity kind}
  {f : IdentityField}

/-- What stands under the name of a field while its key is there without a value. -/
def masked? (entries : List (String × Value)) (f : IdentityField) : Option Value :=
  match find? entries f.key with
  | some .null => (find? entries f.name).filter fun v => !v.isNull
  | _ => none

/-- What is masked has a value. -/
theorem isNull_masked {v : Value} (h : masked? entries f = some v) : v.isNull = false := by
  unfold masked? at h
  split at h
  · simpa using (Option.filter_eq_some_iff.mp h).2
  · cases h

/-- A map is read as an identity by its entries. -/
theorem ofGiven_map_eq_ok : ofGiven (.map entries) = .ok i ↔ ofEntries entries = .ok i := by
  have hgiven : (ofGiven (.map entries) : Except Report (Identity kind)) =
      reported kind.title (ofEntries entries) := by
    cases entries <;> rfl
  rw [hgiven]
  cases (ofEntries entries : Checked (Identity kind)) <;> simp [reported]

/-- Where a field reads as nothing, nothing stands there. -/
theorem fieldRule_eq_ok_none {place : List String} {v : Value} (h : fieldRule place v = .ok none) :
    v = .null := by
  cases v with
  | null => rfl
  | bytes b =>
    simp only [fieldRule, textRule?, textRule] at h
    cases hd : Text.Utf8.decode b <;> simp [hd, broken, Except.map] at h
  | _ => simp [fieldRule, textRule?, textRule, broken, Except.map] at h

/-- The fields of a list are read one by one. -/
theorem readFields_eq_ok {fields : List IdentityField} (h : fields.Nodup)
    {declared : IdentityField → Option String} :
    readFields entries fields = .ok declared ↔
      (∀ f ∈ fields, readField entries f = .ok (declared f)) ∧ ∀ f ∉ fields, declared f = none := by
  induction fields generalizing declared with
  | nil =>
    simp only [readFields, Except.ok.injEq, List.not_mem_nil, false_implies, implies_true, true_and,
      not_false_eq_true, true_implies, funext_iff]
    exact ⟨fun h f => (h f).symm, fun h f => (h f).symm⟩
  | cons f rest ih =>
    obtain ⟨hnew, hrest⟩ := List.nodup_cons.mp h
    rw [readFields, also_eq_ok]
    constructor
    · rintro ⟨g, others, hf, hothers, rfl⟩
      obtain ⟨t, ht, rfl⟩ : ∃ t, readField entries f = .ok t ∧
          (fun others g => if g = f then t else others g) = g := by
        cases hread : readField entries f <;> simp_all [Except.map]
      obtain ⟨hall, hnone⟩ := (ih hrest).mp hothers
      refine ⟨fun g hg => ?_, fun g hg => ?_⟩
      · rcases List.mem_cons.mp hg with rfl | hg
        · simpa using ht
        · have hne : g ≠ f := fun heq => hnew (heq ▸ hg)
          simpa [hne] using hall g hg
      · rw [List.mem_cons, not_or] at hg
        simpa [hg.1] using hnone g hg.2
    · rintro ⟨hall, hnone⟩
      rw [List.forall_mem_cons] at hall
      refine ⟨fun others g => if g = f then declared f else others g,
        fun g => if g = f then none else declared g, by rw [hall.1]; rfl, (ih hrest).mpr ?_, ?_⟩
      · refine ⟨fun g hg => ?_, fun g hg => ?_⟩
        · have hne : g ≠ f := fun heq => hnew (heq ▸ hg)
          simpa [hne] using hall.2 g hg
        · by_cases hgf : g = f
          · simp [hgf]
          · simpa [hgf] using hnone g (by simp [hgf, hg])
      · funext g
        by_cases hgf : g = f <;> simp [hgf]

theorem nodup_fields (kind : IdentityKind) : kind.fields.Nodup := by
  cases kind <;> decide

/-- An identity is read field by field, and what no field uses is kept. -/
theorem ofEntries_eq_ok :
    ofEntries entries = .ok i ↔
      ((∀ f ∈ kind.fields, readField entries f = .ok (i.declared f)) ∧
        ∀ f ∉ kind.fields, i.declared f = none) ∧ i.extras = unused kind entries := by
  rw [← readFields_eq_ok (nodup_fields kind), ofEntries]
  obtain ⟨declared, extras⟩ := i
  cases readFields entries kind.fields with
  | error => simp [Except.map]
  | ok d => simp [Except.map, eq_comm]

/-- It is read just where each field is. -/
theorem exists_ofEntries_iff :
    (∃ i : Identity kind, ofEntries entries = .ok i) ↔
      ∀ f ∈ kind.fields, ∃ t, readField entries f = .ok t := by
  constructor
  · rintro ⟨i, hi⟩ f hf
    exact ⟨i.declared f, (ofEntries_eq_ok.mp hi).1.1 f hf⟩
  · intro h
    let declared (f : IdentityField) : Option String :=
      if f ∈ kind.fields then (readField entries f).toOption.join else none
    refine ⟨⟨declared, unused kind entries⟩, ofEntries_eq_ok.mpr ⟨⟨fun f hf => ?_, fun f hf => ?_⟩,
      rfl⟩⟩
    · obtain ⟨t, ht⟩ := h f hf
      simp [declared, hf, ht, Except.toOption]
    · simp [declared, hf]

/-- A field that is there is held under its key or its name. -/
theorem heldUnder?_cases (entries : List (String × Value)) (f : IdentityField) :
    ((find? entries f.key).isSome ∧ heldUnder? entries f = some f.key) ∨
      (find? entries f.key = none ∧ (find? entries f.name).isSome ∧
        heldUnder? entries f = some f.name) ∨
      (find? entries f.key = none ∧ find? entries f.name = none ∧ heldUnder? entries f = none) := by
  unfold heldUnder?
  cases find? entries f.key <;> cases find? entries f.name <;> simp

/-- Whether a field is held under a key. -/
def uses (kind : IdentityKind) (entries : List (String × Value)) (k : String) : Bool :=
  (kind.fields.filterMap (heldUnder? entries)).contains k

theorem uses_iff {k : String} :
    uses kind entries k = true ↔ ∃ f ∈ kind.fields, heldUnder? entries f = some k := by
  simp [uses]

/-- No field but its own is held under the key of a field. -/
theorem uses_key (hf : f ∈ kind.fields) :
    uses kind entries f.key = (find? entries f.key).isSome := by
  rw [Bool.eq_iff_iff, uses_iff]
  constructor
  · rintro ⟨g, -, hg⟩
    rcases heldUnder?_cases entries g with ⟨hkey, h⟩ | ⟨-, hname, h⟩ | ⟨-, -, h⟩
    · rwa [← Option.some.inj (h.symm.trans hg)]
    · rwa [← Option.some.inj (h.symm.trans hg)]
    · simp [h] at hg
  · intro hkey
    refine ⟨f, hf, ?_⟩
    rw [heldUnder?, if_pos hkey]

/-- What is kept besides the fields has no key of a field. -/
theorem find?_unused_key (hf : f ∈ kind.fields) : find? (unused kind entries) f.key = none := by
  have hfilter := Value.find?_filter_key (fun k => !uses kind entries k) entries f.key
  rw [uses_key hf] at hfilter
  refine hfilter.trans ?_
  cases find? entries f.key <;> rfl

/-- It has the name of a field where that is not the field's key, and the field is held under that.
-/
theorem find?_unused_name (hf : f ∈ kind.fields) :
    find? (unused kind entries) f.name =
      if (find? entries f.key).isSome ∧ f.key ≠ f.name then find? entries f.name else none := by
  have hfilter := Value.find?_filter_key (fun k => !uses kind entries k) entries f.name
  by_cases hname : f.key = f.name
  · rw [← hname, find?_unused_key hf]
    simp
  · refine hfilter.trans ?_
    have hused : uses kind entries f.name = true ↔
        find? entries f.key = none ∧ (find? entries f.name).isSome := by
      rw [uses_iff]
      constructor
      · rintro ⟨g, -, hg⟩
        rcases heldUnder?_cases entries g with ⟨-, h⟩ | ⟨hkey, hfound, h⟩ | ⟨-, -, h⟩
        · have hkey := Option.some.inj (h.symm.trans hg)
          obtain rfl := IdentityField.eq_of_key_eq_name hkey
          exact absurd hkey hname
        · obtain rfl := IdentityField.name_inj (Option.some.inj (h.symm.trans hg))
          exact ⟨hkey, hfound⟩
        · simp [h] at hg
      · rintro ⟨hkey, hfound⟩
        exact ⟨f, hf, by simp [heldUnder?, hkey, hfound]⟩
    cases hkey : find? entries f.key <;> cases hfound : find? entries f.name <;>
      simp_all

section Stored

/-- What is stored of an identity: the texts of its fields and whatever else has a value. -/
def stored (i : Identity kind) : List (String × Value) := Value.ofTexts i.texts ++ said i.extras

/-- Under a key stands the text of the field whose key it is. -/
theorem find?_ofTexts_texts {k : String} {v : Value} :
    find? (Value.ofTexts i.texts) k = some v ↔
      ∃ f ∈ kind.fields, ∃ s, i.declared f = some s ∧ k = f.key ∧ v = .text s := by
  have hkeyed : Keyed (Value.ofTexts i.texts) := by
    have h := i.keyed_texts
    unfold Keyed at h ⊢
    rwa [Value.ofTexts, List.map_map]
  rw [hkeyed.find?_eq_some_iff]
  simp only [Value.ofTexts, texts, List.mem_map, List.mem_filterMap, Option.map_eq_some_iff]
  constructor
  · rintro ⟨_, ⟨f, hf, s, hs, rfl⟩, h⟩
    obtain ⟨rfl, rfl⟩ := Prod.mk.inj h
    exact ⟨f, hf, s, hs, rfl, rfl⟩
  · rintro ⟨f, hf, s, hs, rfl, rfl⟩
    exact ⟨_, ⟨f, hf, s, hs, rfl⟩, rfl⟩

variable (hi : ofEntries entries = .ok i)

include hi

/-- A field whose key is there says nothing just where nothing stands under the key. -/
theorem declared_eq_none_iff (hf : f ∈ kind.fields) {v : Value}
    (hv : find? entries f.key = some v) : i.declared f = none ↔ v = .null := by
  have hread := (ofEntries_eq_ok.mp hi).1.1 f hf
  have hheld : heldUnder? entries f = some f.key := by simp [heldUnder?, hv]
  rw [readField, hheld] at hread
  simp only [hv, Option.getD_some] at hread
  constructor
  · intro hnone
    rw [hnone] at hread
    exact fieldRule_eq_ok_none hread
  · rintro rfl
    exact (Except.ok.inj hread).symm

/-- A field that masked something says nothing. -/
theorem declared_eq_none (hf : f ∈ kind.fields) {v : Value} (hv : masked? entries f = some v) :
    i.declared f = none := by
  unfold masked? at hv
  split at hv
  · next hkey => exact (declared_eq_none_iff hi hf hkey).mpr rfl
  · cases hv

/-- So a field that says something masked nothing. -/
theorem masked?_eq_none (hf : f ∈ kind.fields) {s : String} (hs : i.declared f = some s) :
    masked? entries f = none := by
  refine Option.eq_none_iff_forall_not_mem.mpr fun v hv => ?_
  simp [declared_eq_none hi hf hv] at hs

variable (keyed : Keyed entries)

include keyed

/-- What is found besides the fields is what no field uses and what has a value. -/
theorem find?_said_extras (k : String) :
    find? (said i.extras) k = (find? (unused kind entries) k).filter fun v => !v.isNull := by
  rw [(ofEntries_eq_ok.mp hi).2]
  have hunused : Keyed (unused kind entries) := keyed.sublist (List.filter_sublist.map _)
  exact hunused.find?_said k

/-- Under the key of a field its text is stored. -/
theorem find?_stored_key (hf : f ∈ kind.fields) :
    find? i.stored f.key = (i.declared f).map .text := by
  rw [stored, Value.find?_append, find?_said_extras hi keyed, find?_unused_key hf]
  refine (Option.or_none).trans (Option.ext fun v => ?_)
  rw [find?_ofTexts_texts, Option.map_eq_some_iff]
  constructor
  · rintro ⟨g, -, s, hs, hkey, rfl⟩
    exact ⟨s, IdentityField.key_inj hkey ▸ hs, rfl⟩
  · rintro ⟨s, hs, rfl⟩
    exact ⟨f, hf, s, hs, rfl, rfl⟩

/-- Under the name of a field that says nothing, what is stored is what it masked. -/
theorem find?_stored_name (hf : f ∈ kind.fields) (hnone : i.declared f = none) :
    find? i.stored f.name = masked? entries f := by
  have htexts : find? (Value.ofTexts i.texts) f.name = none := by
    refine Option.eq_none_iff_forall_not_mem.mpr fun v hv => ?_
    obtain ⟨g, -, s, hs, hkey, -⟩ := find?_ofTexts_texts.mp hv
    obtain rfl := IdentityField.eq_of_key_eq_name hkey.symm
    simp [hnone] at hs
  rw [stored, Value.find?_append, htexts, Option.none_or, find?_said_extras hi keyed,
    find?_unused_name hf, masked?]
  cases hkey : find? entries f.key with
  | none => simp
  | some v =>
    obtain rfl := (declared_eq_none_iff hi hf hkey).mp hnone
    by_cases hname : f.key = f.name
    · rw [← hname, hkey]
      simp [Value.isNull, Option.filter]
    · simp [hname]

/-- In what is stored, a field that says something is held under its key, and any other one under
its name if it masked something. -/
theorem heldUnder?_stored (hf : f ∈ kind.fields) :
    heldUnder? i.stored f =
      if (i.declared f).isSome then some f.key else (masked? entries f).map fun _ => f.name := by
  have hkey := find?_stored_key hi keyed hf
  unfold heldUnder?
  cases hdeclared : i.declared f with
  | some s => simp [hkey, hdeclared]
  | none =>
    have hname := find?_stored_name hi keyed hf hdeclared
    rw [hkey, hname, hdeclared]
    cases masked? entries f <;> simp

/-- The field that is read from what is stored is the same, unless it masked something. -/
theorem readField_stored (hf : f ∈ kind.fields) :
    readField i.stored f =
      match masked? entries f with
      | some v => fieldRule [f.name] v
      | none => .ok (i.declared f) := by
  have hheld := heldUnder?_stored hi keyed hf
  cases hdeclared : i.declared f with
  | some s =>
    have hkey := find?_stored_key hi keyed hf
    rw [hdeclared] at hheld hkey
    rw [masked?_eq_none hi hf hdeclared]
    simp [readField, hheld, hkey, fieldRule, textRule?, textRule, Except.map]
  | none =>
    have hname := find?_stored_name hi keyed hf hdeclared
    rw [hdeclared] at hheld
    cases hmasked : masked? entries f <;> simp_all [readField]

/-- Whether a key is the name of a field that masked something. -/
def yields (kind : IdentityKind) (entries : List (String × Value)) (k : String) : Bool :=
  kind.fields.any fun f => f.name = k && (masked? entries f).isSome

omit hi keyed in
theorem yields_iff {k : String} :
    yields kind entries k = true ↔
      ∃ f ∈ kind.fields, f.name = k ∧ (masked? entries f).isSome = true := by
  simp [yields]

/-- In what is stored, the used keys are those of the fields that say something and the names of
those that masked something. -/
theorem uses_stored {k : String} :
    uses kind i.stored k = true ↔
      (∃ f ∈ kind.fields, f.key = k ∧ (i.declared f).isSome = true) ∨
        yields kind entries k = true := by
  rw [uses_iff, yields_iff]
  constructor
  · rintro ⟨f, hf, hheld⟩
    rw [heldUnder?_stored hi keyed hf] at hheld
    split at hheld
    · next hsome => exact .inl ⟨f, hf, Option.some.inj hheld, hsome⟩
    · obtain ⟨v, hv, hname⟩ := Option.map_eq_some_iff.mp hheld
      exact .inr ⟨f, hf, hname, by simp [hv]⟩
  · rintro (⟨f, hf, rfl, hsome⟩ | ⟨f, hf, rfl, hsome⟩)
    · exact ⟨f, hf, by rw [heldUnder?_stored hi keyed hf, if_pos hsome]⟩
    · obtain ⟨v, hv⟩ := Option.isSome_iff_exists.mp hsome
      have hnone := declared_eq_none hi hf hv
      exact ⟨f, hf, by rw [heldUnder?_stored hi keyed hf, hnone, hv]; rfl⟩

/-- Besides the fields, the same is read from what is stored, less what a field masked. -/
theorem unused_stored :
    unused kind i.stored = (said i.extras).filter fun e => !yields kind entries e.1 := by
  have htexts : (Value.ofTexts i.texts).filter (fun e => !uses kind i.stored e.1) = [] := by
    refine List.filter_eq_nil_iff.mpr fun e he hunused => ?_
    simp only [Value.ofTexts, texts, List.mem_map, List.mem_filterMap, Option.map_eq_some_iff] at he
    obtain ⟨_, ⟨f, hf, s, hs, rfl⟩, rfl⟩ := he
    have hused : uses kind i.stored f.key = true :=
      (uses_stored hi keyed).mpr (.inl ⟨f, hf, rfl, by rw [hs]; rfl⟩)
    simp [hused] at hunused
  have hextras : ∀ e ∈ said i.extras,
      (!uses kind i.stored e.1) = !yields kind entries e.1 := by
    intro e he
    have hkeyed : Keyed (said i.extras) := by
      rw [(ofEntries_eq_ok.mp hi).2]
      exact (keyed.sublist (List.filter_sublist.map _)).sublist (List.filter_sublist.map _)
    have hfound := hkeyed.find?_eq_some_iff.mpr he
    rw [Bool.not_inj_iff, Bool.eq_iff_iff, uses_stored hi keyed]
    refine or_iff_right ?_
    rintro ⟨f, hf, hkey, -⟩
    rw [← hkey, find?_said_extras hi keyed, find?_unused_key hf] at hfound
    cases hfound
  change i.stored.filter (fun e => !uses kind i.stored e.1) = _
  generalize uses kind i.stored = used at htexts hextras ⊢
  rw [stored, List.filter_append, htexts, List.nil_append, List.filter_congr hextras]

end Stored

/-- What is to be told of an identity that is read back: each field and each unknown key with a
value is the same. -/
structure Survives (i again : Identity kind) : Prop where
  /-- The fields are the same. -/
  declared : again.declared = i.declared
  /-- So is what else has a value. -/
  unknown : ∀ k v, v.isNull = false → (find? again.extras k = some v ↔ find? i.extras k = some v)

/-- What is read from a map that an identity is stored as, which was read from entries before. -/
structure Reread (entries : List (String × Value)) (i : Identity kind)
    (map : List (String × Value)) : Prop where
  /-- The identity survives just where no field masked anything. -/
  survives : (∃ again, ofGiven (.map map) = .ok again ∧ i.Survives again) ↔
    ∀ f ∈ kind.fields, masked? entries f = none
  /-- An identity is read just where what a field masked could be a field's. -/
  accepted : (∃ again : Identity kind, ofGiven (.map map) = .ok again) ↔
    ∀ f ∈ kind.fields, ∀ v ∈ masked? entries f, ∃ t, fieldRule [f.name] v = .ok t
  /-- A field that masked something takes it, and any other one is the same. -/
  declared : ∀ again : Identity kind, ofGiven (.map map) = .ok again → ∀ f ∈ kind.fields,
    (match masked? entries f with
      | some v => fieldRule [f.name] v
      | none => .ok (i.declared f)) = .ok (again.declared f)
  /-- What else has a value is the same, less what fields took. -/
  unknown : ∀ again : Identity kind, ofGiven (.map map) = .ok again →
    again.extras = (said i.extras).filter fun e => !yields kind entries e.1

/-- Reading what is stored of an identity that has been read from entries. -/
theorem reread_stored (hi : ofEntries entries = .ok i) (keyed : Keyed entries) :
    Reread entries i i.stored := by
  have hdeclared : ∀ again : Identity kind, ofGiven (.map i.stored) = .ok again →
      ∀ f ∈ kind.fields, (match masked? entries f with
        | some v => fieldRule [f.name] v
        | none => .ok (i.declared f)) = .ok (again.declared f) := by
    intro again hagain f hf
    rw [← readField_stored hi keyed hf]
    exact (ofEntries_eq_ok.mp (ofGiven_map_eq_ok.mp hagain)).1.1 f hf
  refine ⟨⟨?_, fun hnone => ?_⟩, ?_, hdeclared, fun again hagain => ?_⟩
  · -- A masked value would be read as a field that says something, but it said nothing before.
    rintro ⟨again, hagain, hsurvives⟩ f hf
    refine Option.eq_none_iff_forall_not_mem.mpr fun v hv => ?_
    have hread := hdeclared again hagain f hf
    rw [hv, hsurvives.declared, declared_eq_none hi hf hv] at hread
    have hnull := isNull_masked hv
    rw [fieldRule_eq_ok_none hread] at hnull
    cases hnull
  · have hkept : ∀ k, yields kind entries k = false := by
      refine fun k => Bool.eq_false_iff.mpr fun hk => ?_
      obtain ⟨f, hf, -, hsome⟩ := yields_iff.mp hk
      simp [hnone f hf] at hsome
    have hextras : unused kind i.stored = said i.extras := by
      simp [unused_stored hi keyed, hkept]
    have hkeyed : Keyed i.extras := by
      rw [(ofEntries_eq_ok.mp hi).2]
      exact keyed.sublist (List.filter_sublist.map _)
    refine ⟨⟨i.declared, said i.extras⟩, ofGiven_map_eq_ok.mpr (ofEntries_eq_ok.mpr
      ⟨⟨fun f hf => ?_, (ofEntries_eq_ok.mp hi).1.2⟩, hextras.symm⟩), rfl, fun k v hv => ?_⟩
    · rw [readField_stored hi keyed hf, hnone f hf]
    · rw [hkeyed.find?_said, Option.filter_eq_some_iff]
      simp [hv]
  · simp only [ofGiven_map_eq_ok, exists_ofEntries_iff]
    refine forall₂_congr fun f hf => ?_
    rw [readField_stored hi keyed hf]
    cases masked? entries f <;> simp
  · rw [(ofEntries_eq_ok.mp (ofGiven_map_eq_ok.mp hagain)).2, unused_stored hi keyed]

/-- An identity that is read from data can be stored unless what it says is nested too deep, and
survives unless a field masked something. -/
theorem toMap_reread (keyed : Keyed entries) (data : Value.EntriesAreData entries)
    (h : ofGiven (.map entries) = .ok i) :
    (Value.nestingLimit < Value.entriesNesting (said i.extras) ∧ i.toMap = .error .overnested) ∨
      (Value.entriesNesting (said i.extras) ≤ Value.nestingLimit ∧
        ∃ map, i.toMap = .ok map ∧ Reread entries i map) := by
  have hi := ofGiven_map_eq_ok.mp h
  have hextras := (ofEntries_eq_ok.mp hi).2
  have hdata : Value.EntriesAreData i.extras := by
    rw [Value.entriesAreData_iff] at data ⊢
    exact fun e he => data e (List.mem_filter.mp (hextras ▸ he)).1
  have hmap := toMap_eq_ite hdata
  by_cases hn : Value.entriesNesting (said i.extras) ≤ Value.nestingLimit
  · rw [if_pos hn] at hmap
    exact .inr ⟨hn, i.stored, hmap, reread_stored hi keyed⟩
  · rw [if_neg hn] at hmap
    exact .inl ⟨Nat.lt_of_not_le hn, hmap⟩

/-- A user with a number for an identifier, no name and something else. -/
def tagged : List (String × Value) :=
  [("id", .int 7), ("displayName", .null), ("tags", .list [.text "a", .null])]

/-- Such a user survives. -/
theorem tagged_survives :
    Keyed tagged ∧ Value.EntriesAreData tagged ∧
      ∃ i : Identity .user, ofGiven (.map tagged) = .ok i ∧
        ∃ map, i.toMap = .ok map ∧ ∃ again, ofGiven (.map map) = .ok again ∧ i.Survives again := by
  have hkeyed : Keyed tagged := (by decide : (tagged.map Prod.fst).Nodup)
  have hdata : Value.EntriesAreData tagged := by
    simp [tagged, Value.EntriesAreData, Value.IsData, Value.ItemsAreData]
  refine ⟨hkeyed, hdata, _, rfl, ?_⟩
  obtain ⟨hdeep, -⟩ | ⟨-, map, hmap, hreread⟩ :=
    toMap_reread hkeyed hdata (rfl : (ofGiven (.map tagged) : Except _ (Identity .user)) = .ok _)
  · exact absurd hdeep (by decide)
  · exact ⟨map, hmap, hreread.survives.mpr (by decide)⟩

/-- Where the key of a field is there without a value, its name is not read back as it was. -/
theorem not_survives_displayName :
    ∃ (i : Identity .user) (map : List (String × Value)) (again : Identity .user),
      ofGiven (.map [("displayName", .null), ("display_name", .text "X")]) = .ok i ∧
      i.toMap = .ok map ∧ ofGiven (.map map) = .ok again ∧
      (find? i.extras "display_name").isSome = true ∧ find? again.extras "display_name" = none ∧
      again.declared .displayName = some "X" ∧ ¬ i.Survives again := by
  refine ⟨_, _, _, rfl, rfl, rfl, rfl, rfl, rfl, fun h => ?_⟩
  exact absurd (congrFun h.declared .displayName) (by decide)

end Identity

end BearerSession
