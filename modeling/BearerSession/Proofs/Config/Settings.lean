import Mathlib.Tactic.SplitIfs
import BearerSession.Config.Update

/-!
# Settings by their keys

A configuration is a map of values, some of them in a map of their own, and a key is a way through
these maps with dots between the names. The values at the ends of keys make up the configuration. A
change of one setting puts the meaning of a text at the end of its key and leaves the values at all
other keys alone; where the text means nothing for the setting, nothing is changed.
-/

namespace BearerSession

/-- The value to which names lead through maps. -/
def Value.along? : List String → Value → Option Value
  | [], v => some v
  | name :: names, .map entries => (find? entries name).bind (along? names)
  | _ :: _, _ => none

/-- Whether a value is a map. -/
def Value.isMap : Value → Bool
  | .map _ => true
  | _ => false

/-- What is found under a key is an entry with this key. -/
theorem Value.mem_of_find? {α : Type} {entries : List (String × α)} {key : String} {v : α}
    (h : find? entries key = some v) : (key, v) ∈ entries := by
  obtain ⟨e, he, rfl⟩ := Option.map_eq_some_iff.mp h
  obtain rfl : e.1 = key := by simpa using List.find?_some he
  exact List.mem_of_find?_eq_some he

/-- Names that lead through a map lead on from one of its values. -/
theorem Value.of_along?_cons {entries : List (String × Value)} {name : String}
    {names : List String} {v : Value} (h : (Value.map entries).along? (name :: names) = some v) :
    ∃ w, (name, w) ∈ entries ∧ w.along? names = some v := by
  obtain ⟨w, hw, hv⟩ := Option.bind_eq_some_iff.mp h
  exact ⟨w, mem_of_find? hw, hv⟩

/-- No names lead on from a value that is no map. -/
theorem Value.eq_nil_of_along? {names : List String} {v w : Value} (hw : w.isMap = false)
    (h : w.along? names = some v) : names = [] := by
  cases names with
  | nil => rfl
  | cons name names => cases w with
    | map entries => contradiction
    | _ => cases h

/-- Texts that are the same value are the same. -/
theorem Value.ofText?_inj {s t : Option String} (h : ofText? s = ofText? t) : s = t := by
  cases s <;> cases t <;> simp_all [ofText?]

/-- So are numbers. -/
theorem Value.ofReal?_inj {x y : Option Binary64}
    (h : x.elim Value.null .real = y.elim Value.null .real) : x = y := by
  cases x <;> cases y <;> simp_all

/-- How a text names a policy: in capitals, without blanks around it. -/
def Policy.spelled (s : String) : String :=
  String.ofList ((Text.trimList Text.isBlank s.toList).map capital)

/-- A text names the policy that it spells. -/
theorem Policy.read?_eq_some_iff {s : String} {p : Policy} :
    read? s = some p ↔ spelled s = p.name :=
  ofName?_eq_some_iff

/-- Only the name of a backend reads as it. -/
theorem BackendKind.ofName?_eq_some_iff {s : String} {b : BackendKind} :
    ofName? s = some b ↔ s = b.name := by
  constructor
  · intro h
    unfold ofName? at h
    split_ifs at h with hfile hcache hmemory <;> cases h <;> assumption
  · rintro rfl
    exact ofName?_name b

namespace Config

/-- The names in a key, between its dots. -/
def keyNames (key : String) : List String := (key.toList.splitOn '.').map String.ofList

/-- The value at the end of a key, which is no map. -/
def leaf? (c : Config) (key : String) : Option Value :=
  ((Value.map c.entries).along? (keyNames key)).filter fun v => !v.isMap

/-- What a text means for the setting of a key. -/
def meaning (key value : String) : Value :=
  if key = "default_persistence_policy" then .text (Policy.spelled value)
  else if key = "share_inflight_outcome" then .bool (truthOf value)
  else if key = "authorization_timeout" then (Number.real? value).elim .null .real
  else .text value

namespace Setting

/-- A key is put together from the names in it. -/
theorem eq_of_keyNames_eq {key other : String} (h : keyNames key = keyNames other) :
    key = other := by
  have hlists : key.toList.splitOn '.' = other.toList.splitOn '.' := by
    simpa [keyNames, List.map_map, Function.comp_def] using congrArg (List.map String.toList) h
  have htexts := congrArg (['.'].intercalate ·) hlists
  simp only [List.intercalate_splitOn] at htexts
  exact String.toList_inj.mp htexts

/-- The parts of a key are the names in it. -/
theorem keyParts_eq (key : String) : keyParts key = keyNames key := by
  unfold keyParts keyNames
  congr 1
  induction key.toList with
  | nil => rfl
  | cons c rest ih =>
    rw [List.foldr_cons, ih, List.splitOn, List.splitOn, List.splitOnP_cons_eq_if_modifyHead]
    by_cases hc : c = '.'
    · simp [hc]
    · simp only [hc, if_false, beq_iff_eq]
      cases hparts : rest.splitOnP (· == '.') with
      | nil => exact absurd hparts (List.splitOnP_ne_nil _ _)
      | cons part parts => rfl

/-- The key of a setting. -/
def key (s : Setting) : String := String.intercalate "." s.names

theorem keyNames_key (s : Setting) : keyNames s.key = s.names := by
  cases s <;> decide

/-- Every setting is found by its key, and by no other text. -/
theorem ofKey_eq_ok_iff {key : String} {s : Setting} : ofKey key = .ok s ↔ key = s.key := by
  constructor
  · intro h
    unfold ofKey at h
    dsimp only at h
    split at h
    · contradiction
    · split at h
      · next hfound =>
        cases h
        have hnames := List.find?_some hfound
        refine eq_of_keyNames_eq ?_
        rw [keyNames_key, ← keyParts_eq]
        exact (of_decide_eq_true hnames).symm
      · contradiction
  · rintro rfl
    unfold ofKey
    rw [keyParts_eq, keyNames_key]
    cases s <;> rfl

/-- What a setting holds, as it is written. -/
def held (c : Config) : Setting → Value
  | .appId => .text c.appId
  | .appVersion => .text c.appVersion
  | .policy => .text c.policy.name
  | .backend => .text c.storage.backend.name
  | .path => .ofText? c.storage.path
  | .timeout => c.timeout.elim .null .real
  | .share => .bool c.share

/-- What is held by no setting is no map. -/
theorem isMap_held (c : Config) (s : Setting) : (held c s).isMap = false := by
  cases s with
  | path => cases h : c.storage.path <;> simp [held, h, Value.ofText?, Value.isMap]
  | timeout => cases h : c.timeout <;> simp [held, h, Value.isMap]
  | _ => rfl

/-- The names of a setting lead to what it holds. -/
theorem along?_names (c : Config) (s : Setting) :
    (Value.map c.entries).along? s.names = some (held c s) := by
  cases s <;> rfl

/-- Where names lead to a value that is no map, they are those of a setting. -/
theorem exists_of_along? {c : Config} {names : List String} {v : Value}
    (h : (Value.map c.entries).along? names = some v) (hv : v.isMap = false) :
    ∃ s : Setting, s.names = names := by
  -- A setting beside the storage ends the way, since it holds no map.
  have hlast (s : Setting) {name : String} {names : List String} (hs : s.names = [name])
      (h : (held c s).along? names = some v) : ∃ s : Setting, s.names = name :: names := by
    obtain rfl := Value.eq_nil_of_along? (isMap_held c s) h
    exact ⟨s, hs⟩
  cases names with
  | nil =>
    cases h
    contradiction
  | cons name names =>
    obtain ⟨w, hmem, hw⟩ := Value.of_along?_cons h
    simp only [entries, settings, List.mem_cons, Prod.mk.injEq, List.not_mem_nil, or_false] at hmem
    obtain ⟨rfl, rfl⟩ | ⟨rfl, rfl⟩ | ⟨rfl, rfl⟩ | ⟨rfl, rfl⟩ | ⟨rfl, rfl⟩ | ⟨rfl, rfl⟩ := hmem
    · exact hlast .appId rfl hw
    · exact hlast .appVersion rfl hw
    · exact hlast .policy rfl hw
    · cases names with
      | nil =>
        cases hw
        contradiction
      | cons part names =>
        obtain ⟨w, hmem, hw⟩ := Value.of_along?_cons hw
        simp only [StorageConfig.entries, List.mem_cons, Prod.mk.injEq, List.not_mem_nil,
          or_false] at hmem
        obtain ⟨rfl, rfl⟩ | ⟨rfl, rfl⟩ := hmem
        · obtain rfl := Value.eq_nil_of_along? (isMap_held c .backend) hw
          exact ⟨.backend, rfl⟩
        · obtain rfl := Value.eq_nil_of_along? (isMap_held c .path) hw
          exact ⟨.path, rfl⟩
    · exact hlast .timeout rfl hw
    · exact hlast .share rfl hw

/-- What a text means for a setting. -/
def meaning (s : Setting) (value : String) : Value :=
  match s with
  | .policy => .text (Policy.spelled value)
  | .share => .bool (truthOf value)
  | .timeout => (Number.real? value).elim .null .real
  | .appId | .appVersion | .backend | .path => .text value

/-- It means the same for the key of the setting. -/
theorem meaning_key (s : Setting) (value : String) :
    Config.meaning s.key value = s.meaning value := by
  have hnames : s.key = "default_persistence_policy" ↔ s = .policy := by cases s <;> decide
  have hshare : s.key = "share_inflight_outcome" ↔ s = .share := by cases s <;> decide
  have htimeout : s.key = "authorization_timeout" ↔ s = .timeout := by cases s <;> decide
  simp only [Config.meaning, hnames, hshare, htimeout]
  cases s <;> rfl

end Setting

open Setting (held meaning_key)

/-- At the end of the key of a setting stands what the setting holds. -/
@[simp] theorem leaf?_key (c : Config) (s : Setting) : c.leaf? s.key = some (held c s) := by
  rw [leaf?, Setting.keyNames_key, Setting.along?_names, Option.filter_some,
    Setting.isMap_held]
  rfl

/-- Nothing stands at the end of any other text. -/
theorem leaf?_eq_none_iff {c : Config} {key : String} :
    c.leaf? key = none ↔ ∀ s : Setting, key ≠ s.key := by
  constructor
  · rintro h s rfl
    rw [leaf?_key] at h
    contradiction
  · intro h
    refine Option.eq_none_iff_forall_ne_some.mpr fun v hv => ?_
    obtain ⟨halong, hmap⟩ := Option.filter_eq_some_iff.mp hv
    obtain ⟨s, hs⟩ := Setting.exists_of_along? halong (by simpa using hmap)
    exact h s (Setting.eq_of_keyNames_eq (by rw [Setting.keyNames_key, hs]))

/-- Configurations with the same values at the ends of keys are the same. -/
theorem eq_of_leaf?_eq {c c' : Config} (h : ∀ key, c.leaf? key = c'.leaf? key) : c = c' := by
  have hheld (s : Setting) : held c s = held c' s := by
    have hleaf := h s.key
    rwa [leaf?_key, leaf?_key, Option.some.injEq] at hleaf
  have htext {s t : String} (h : Value.text s = Value.text t) : s = t := Value.text.inj h
  have hpolicy : c.policy = c'.policy :=
    Option.some.inj (by simpa using congrArg Policy.ofName? (htext (hheld .policy)))
  have hbackend : c.storage.backend = c'.storage.backend :=
    Option.some.inj (by simpa using congrArg BackendKind.ofName? (htext (hheld .backend)))
  have hpath : c.storage.path = c'.storage.path := Value.ofText?_inj (hheld .path)
  have htimeout : c.timeout = c'.timeout := Value.ofReal?_inj (hheld .timeout)
  have hshare : c.share = c'.share := Value.bool.inj (hheld .share)
  obtain ⟨appId, appVersion, policy, ⟨backend, path⟩, timeout, share⟩ := c
  obtain ⟨appId', appVersion', policy', ⟨backend', path'⟩, timeout', share'⟩ := c'
  obtain rfl : appId = appId' := htext (hheld .appId)
  obtain rfl : appVersion = appVersion' := htext (hheld .appVersion)
  obtain rfl : policy = policy' := hpolicy
  obtain rfl : backend = backend' := hbackend
  obtain rfl : path = path' := hpath
  obtain rfl : timeout = timeout' := htimeout
  obtain rfl : share = share' := hshare
  rfl

/-- One setting of a configuration has been changed to the meaning of a text. -/
structure Changed (c : Config) (key value : String) (c' : Config) : Prop where
  /-- The key is that of a setting. -/
  named : (c.leaf? key).isSome
  /-- The setting holds what the text means for it. -/
  changed : c'.leaf? key = some (meaning key value)
  /-- Every other setting holds what it held. -/
  others : ∀ other, other ≠ key → c'.leaf? other = c.leaf? other

/-- This says all of the changed configuration. -/
theorem Changed.unique {c d d' : Config} {key value : String} (h : c.Changed key value d)
    (h' : c.Changed key value d') : d = d' := by
  refine eq_of_leaf?_eq fun other => ?_
  by_cases hother : other = key
  · rw [hother, h.changed, h'.changed]
  · rw [h.others other hother, h'.others other hother]

/-- A change of what a setting holds is a change of what stands at the end of its key. -/
theorem changed_of_held {c c' : Config} {s : Setting} {value : String}
    (hs : held c' s = s.meaning value) (hothers : ∀ t, t ≠ s → held c' t = held c t) :
    c.Changed s.key value c' := by
  refine ⟨by rw [leaf?_key]; rfl, by rw [leaf?_key, hs, meaning_key], fun other hother => ?_⟩
  by_cases hkey : ∃ t : Setting, other = t.key
  · obtain ⟨t, rfl⟩ := hkey
    rw [leaf?_key, leaf?_key, hothers t fun hts => hother (congrArg Setting.key hts)]
  · rw [leaf?_eq_none_iff.mpr (not_exists.mp hkey), leaf?_eq_none_iff.mpr (not_exists.mp hkey)]

/-- Whether the setting of a key takes a text: one that spells a policy, names a backend, or reads
as a positive number. Other settings take any text. -/
def Takes (key value : String) : Prop :=
  (key = "default_persistence_policy" →
    Policy.spelled value = "ALWAYS" ∨ Policy.spelled value = "NEVER") ∧
  (key = "storage.backend" → value = "file" ∨ value = "diskcache" ∨ value = "memory") ∧
  (key = "authorization_timeout" → ∃ x, Number.real? value = some x ∧ x.isPositive = true)

/-- A policy is taken where it reads as one. -/
theorem takes_policy_iff {value : String} :
    Takes "default_persistence_policy" value ↔ ∃ p, Policy.read? value = some p := by
  constructor
  · rintro ⟨hpolicy, -⟩
    obtain hname | hname := hpolicy rfl
    · exact ⟨.always, Policy.read?_eq_some_iff.mpr hname⟩
    · exact ⟨.never, Policy.read?_eq_some_iff.mpr hname⟩
  · rintro ⟨p, hread⟩
    refine ⟨fun _ => ?_, fun hkey => absurd hkey (by decide), fun hkey => absurd hkey (by decide)⟩
    rw [Policy.read?_eq_some_iff.mp hread]
    cases p
    · exact .inl rfl
    · exact .inr rfl

/-- So is a backend. -/
theorem takes_backend_iff {value : String} :
    Takes "storage.backend" value ↔ ∃ b, BackendKind.ofName? value = some b := by
  constructor
  · rintro ⟨-, hbackend, -⟩
    obtain rfl | rfl | rfl := hbackend rfl
    · exact ⟨.file, rfl⟩
    · exact ⟨.cache, rfl⟩
    · exact ⟨.memory, rfl⟩
  · rintro ⟨b, hname⟩
    obtain rfl := BackendKind.ofName?_eq_some_iff.mp hname
    refine ⟨fun hkey => absurd hkey (by decide), fun _ => ?_, fun hkey => absurd hkey (by decide)⟩
    cases b <;> decide

/-- A timeout is taken where it reads as a positive number. -/
theorem takes_timeout_iff {value : String} :
    Takes "authorization_timeout" value ↔
      ∃ x, Number.real? value = some x ∧ x.isPositive = true :=
  ⟨fun h => h.2.2 rfl, fun h =>
    ⟨fun hkey => absurd hkey (by decide), fun hkey => absurd hkey (by decide), fun _ => h⟩⟩

/-- A text that is taken changes the setting, and any other is refused: one that spells no policy
as such, and any other as an invalid value. -/
theorem change_cases (c : Config) (s : Setting) (key value : String) :
    match c.change s key value with
    | .ok (c', _) => Takes s.key value ∧ c.Changed s.key value c'
    | .error e => ¬ Takes s.key value ∧
      (s = .policy ∧ e = .invalidPolicy value key ∨
        s ≠ .policy ∧ ∃ detail, e = .invalidValue key detail) := by
  have free (h : s.key ≠ "default_persistence_policy" ∧ s.key ≠ "storage.backend" ∧
      s.key ≠ "authorization_timeout") : Takes s.key value :=
    ⟨fun hp => absurd hp h.1, fun hb => absurd hb h.2.1, fun ht => absurd ht h.2.2⟩
  cases s with
  | appId =>
    refine ⟨free (by decide), changed_of_held rfl ?_⟩
    rintro ⟨⟩ <;> simp [held]
  | appVersion =>
    refine ⟨free (by decide), changed_of_held rfl ?_⟩
    rintro ⟨⟩ <;> simp [held]
  | policy =>
    rw [show Setting.policy.key = "default_persistence_policy" by decide, takes_policy_iff]
    unfold change
    cases hread : Policy.read? value with
    | none => exact ⟨nofun, .inl ⟨rfl, rfl⟩⟩
    | some p =>
      refine ⟨⟨p, rfl⟩, changed_of_held (s := .policy)
        (congrArg Value.text (Policy.read?_eq_some_iff.mp hread).symm) ?_⟩
      rintro ⟨⟩ <;> simp [held]
  | backend =>
    rw [show Setting.backend.key = "storage.backend" by decide, takes_backend_iff]
    unfold change
    simp only [StorageConfig.backendRule]
    cases hread : BackendKind.ofName? value with
    | none => exact ⟨nofun, .inr ⟨nofun, _, rfl⟩⟩
    | some b =>
      obtain rfl := BackendKind.ofName?_eq_some_iff.mp hread
      refine ⟨⟨b, rfl⟩, changed_of_held (s := .backend) rfl ?_⟩
      rintro ⟨⟩ <;> simp [held]
  | path =>
    refine ⟨free (by decide), changed_of_held rfl ?_⟩
    rintro ⟨⟩ <;> simp [held]
  | timeout =>
    rw [show Setting.timeout.key = "authorization_timeout" by decide, takes_timeout_iff]
    unfold change
    simp only [timeoutRule, numberRule, numberTextRule]
    cases hread : Number.real? value with
    | none => exact ⟨nofun, .inr ⟨nofun, _, rfl⟩⟩
    | some x =>
      cases hpositive : x.isPositive with
      | false =>
        simp only [hpositive]
        refine ⟨?_, .inr ⟨nofun, _, rfl⟩⟩
        rintro ⟨_, ⟨⟩, hyes⟩
        cases hpositive.symm.trans hyes
      | true =>
        simp only [hpositive]
        refine ⟨⟨x, rfl, hpositive⟩, changed_of_held (s := .timeout) ?_ ?_⟩
        · rw [Setting.meaning, hread]
          rfl
        · rintro ⟨⟩ <;> simp [held]
  | share =>
    unfold change
    refine ⟨free (by decide), changed_of_held (s := .share) ?_ ?_⟩
    · simp only [held, Setting.meaning]
    · rintro ⟨⟩ <;> simp [held]

end Config

end BearerSession
