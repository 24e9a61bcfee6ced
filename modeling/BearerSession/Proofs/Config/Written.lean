import BearerSession.Proofs.Config.Settings
import BearerSession.Proofs.Json.Plain
import BearerSession.Proofs.Json.Reread

/-!
# Configurations are read as they were written

The file of a configuration reads as this configuration. Of its settings only the timeout could
stand against this: it has to be a positive number of the form that arithmetic yields. Every
configuration that is read from a file has such a timeout or none, and a change of a setting keeps
this.
-/

namespace BearerSession

namespace Binary64

/-- The double nearest to a whole number is canonical. -/
theorem canonical_ofInt (n : Int) : (ofInt n).Canonical := canonical_ofRatio _ Nat.one_pos

end Binary64

namespace Number

/-- What a text reads as is a canonical number. -/
theorem canonical_of_plainReal? {s : List Char} {x : Binary64} (h : plainReal? s = some x) :
    x.Canonical := by
  unfold plainReal? at h
  dsimp only at h
  split_ifs at h
  · cases h
    trivial
  · cases h
    trivial
  · obtain ⟨power, -, rfl⟩ := Option.map_eq_some_iff.mp h
    exact Binary64.canonical_ofDecimal _ _ _

theorem canonical_of_real? {s : String} {x : Binary64} (h : real? s = some x) : x.Canonical := by
  unfold real? at h
  split at h
  · next hplain =>
    cases h
    exact canonical_of_plainReal? hplain
  · obtain ⟨t, -, hplain⟩ := Option.bind_eq_some_iff.mp h
    exact canonical_of_plainReal? hplain

end Number

namespace Config

open Validation (also also_eq_ok broken reported)

/-- Whether the timeout of a configuration, if there is one, is a positive number in canonical form.
-/
def Sound (c : Config) : Prop := ∀ x, c.timeout = some x → x.Canonical ∧ x.isPositive = true

theorem canonical_of_numberTextRule {place : List String} {s : String} {x : Binary64}
    (h : numberTextRule place s = .ok x) : x.Canonical := by
  unfold numberTextRule at h
  split at h
  · next hreal =>
    cases h
    exact Number.canonical_of_real? hreal
  · cases h

/-- A number that a value of a file stands for is canonical. -/
theorem canonical_of_numberRule {place : List String} {depth : Nat} {v : Value} {x : Binary64}
    (hv : v.ReadsBack depth) (h : numberRule place v = .ok x) : x.Canonical := by
  cases v with
  | real y =>
    cases h
    exact hv
  | bool b =>
    cases h
    exact Binary64.canonical_ofInt _
  | int n =>
    clear hv
    change (if fitsReal n then .ok (Binary64.ofInt n) else broken place .number) = _ at h
    split at h
    · cases h
      exact Binary64.canonical_ofInt n
    · contradiction
  | text s =>
    have htext : numberTextRule place s = .ok x := h
    exact canonical_of_numberTextRule htext
  | bytes b => exact hv.elim
  | null | list | map | member | record => contradiction

/-- A timeout is a positive number. -/
theorem of_timeoutRule {place : List String} {v : Value} {x : Binary64}
    (h : timeoutRule place v = .ok (some x)) :
    numberRule place v = .ok x ∧ x.isPositive = true := by
  unfold timeoutRule at h
  split at h
  · cases h
  · split at h
    · contradiction
    · next hnumber =>
      split at h
      · next hpositive =>
        cases h
        exact ⟨hnumber, hpositive⟩
      · contradiction

/-- Every configuration that is read is sound. -/
theorem sound_of_ofEntries {depth : Nat} {entries : List (String × Value)} {c : Config}
    (hentries : Value.EntriesReadBack depth entries) (h : ofEntries entries = .ok c) :
    c.Sound := by
  intro x hx
  unfold ofEntries at h
  dsimp only at h
  obtain ⟨f₅, share, h₅, -, rfl⟩ := also_eq_ok.mp h
  obtain ⟨f₄, timeout, h₄, htimeout, rfl⟩ := also_eq_ok.mp h₅
  obtain ⟨f₃, storage, h₃, -, rfl⟩ := also_eq_ok.mp h₄
  obtain ⟨f₂, policy, h₂, -, rfl⟩ := also_eq_ok.mp h₃
  obtain ⟨f₁, version, h₁, -, rfl⟩ := also_eq_ok.mp h₂
  obtain ⟨appId, -, rfl⟩ := Json.exists_of_map_eq_ok h₁
  obtain rfl : timeout = some x := hx
  cases hfind : Value.find? entries "authorization_timeout" with
  | none => simp [hfind, default] at htimeout
  | some v =>
    rw [hfind] at htimeout
    obtain ⟨hnumber, hpositive⟩ := of_timeoutRule htimeout
    have hv := Value.entriesReadBack_iff.mp hentries _ (Value.mem_of_find? hfind)
    exact ⟨canonical_of_numberRule hv hnumber, hpositive⟩

theorem sound_of_ofValue {depth : Nat} {v : Value} {c : Config} (hv : v.ReadsBack depth)
    (h : ofValue v = .ok c) : c.Sound := by
  cases v with
  | map entries =>
    cases hentries : ofEntries entries with
    | error issues => simp [ofValue, hentries, reported] at h
    | ok c' =>
      simp only [ofValue, hentries, reported] at h
      obtain rfl := Except.ok.inj h
      exact sound_of_ofEntries hv.2.2 hentries
  | record => exact hv.elim
  | null | bool | int | real | text | bytes | list | member =>
    clear hv
    contradiction

theorem sound_of_decode {bytes : List UInt8} {c : Config} (h : decode bytes = .ok c) :
    c.Sound := by
  unfold decode at h
  split at h
  · contradiction
  · split at h
    · contradiction
    · next v hread =>
      split at h
      · next c' hvalue =>
        obtain rfl := Except.ok.inj h
        exact sound_of_ofValue (Json.readsBack_of_read hread) hvalue
      · contradiction

/-- So is the configuration that says nothing. -/
theorem sound_default : default.Sound := nofun

/-- A changed setting leaves a configuration sound. -/
theorem Changed.sound {c c' : Config} {key value : String} (h : c.Changed key value c')
    (htakes : Takes key value) (hc : c.Sound) : c'.Sound := by
  intro x hx
  by_cases hkey : key = Setting.timeout.key
  · subst hkey
    have hleaf := h.changed
    rw [leaf?_key, Setting.meaning_key, Option.some.injEq] at hleaf
    have hreal : c'.timeout = Number.real? value := Value.ofReal?_inj hleaf
    obtain ⟨y, hy, hpositive⟩ := htakes.2.2 (by decide)
    obtain rfl : x = y := Option.some.inj (hx.symm.trans (hreal.trans hy))
    exact ⟨Number.canonical_of_real? hy, hpositive⟩
  · have hleaf := h.others Setting.timeout.key (Ne.symm hkey)
    rw [leaf?_key, leaf?_key, Option.some.injEq] at hleaf
    have htimeout : c'.timeout = c.timeout := Value.ofReal?_inj hleaf
    exact hc x (htimeout.symm.trans hx)

/-- The entries of a configuration have a text that reads as they are. -/
theorem Sound.readsBack {c : Config} (h : c.Sound) :
    (Value.map c.entries).ReadsBack Json.depthLimit := by
  have hkeys : Value.Keyed c.storage.entries := by
    change ["backend", "path"].Nodup
    decide
  have hpath : (Value.ofText? c.storage.path).ReadsBack (Json.depthLimit - 1 - 1) := by
    cases c.storage.path <;> trivial
  have hstorage : (Value.map c.storage.entries).ReadsBack (Json.depthLimit - 1) :=
    ⟨by decide, hkeys, trivial, hpath, trivial⟩
  have htimeout : (c.timeout.elim Value.null .real).ReadsBack (Json.depthLimit - 1) := by
    cases ht : c.timeout with
    | none => trivial
    | some x => exact (h x ht).1
  refine ⟨by decide, ?_, trivial, trivial, trivial, hstorage, htimeout, trivial, trivial⟩
  change ["app_id", "app_version", "default_persistence_policy", "storage",
    "authorization_timeout", "share_inflight_outcome"].Nodup
  decide

/-- A sound configuration is the one in its entries. -/
theorem Sound.ofValue_entries {c : Config} (h : c.Sound) : ofValue (.map c.entries) = .ok c := by
  have hbackend : StorageConfig.backendRule ["backend"] (.text c.storage.backend.name) =
      .ok c.storage.backend := by
    simp only [StorageConfig.backendRule, BackendKind.ofName?_name]
  have hpath : Identity.textRule? ["path"] (.ofText? c.storage.path) = .ok c.storage.path := by
    cases c.storage.path <;> rfl
  have hstorage : StorageConfig.ofValue (.map c.storage.entries) = .ok c.storage := by
    change also ((StorageConfig.backendRule ["backend"] (.text _)).map StorageConfig.mk)
      (Identity.textRule? ["path"] (.ofText? _)) = _
    rw [hbackend, hpath]
    rfl
  have hpolicy (place : List String) : policyRule place (.text c.policy.name) = .ok c.policy := by
    simp only [policyRule, policyNameRule, Policy.ofName?_name]
  have htimeout (place : List String) :
      timeoutRule place (c.timeout.elim .null .real) = .ok c.timeout := by
    cases ht : c.timeout with
    | none => rfl
    | some x => simp only [Option.elim, timeoutRule, numberRule, (h x ht).2, if_true]
  have hentries : ofEntries c.entries = .ok c := by
    change also (also (also (also (also (.ok (mk c.appId)) (.ok c.appVersion))
      (policyRule ["default_persistence_policy"] (.text c.policy.name)))
      (Validation.under "storage" (StorageConfig.ofValue (.map c.storage.entries))))
      (timeoutRule ["authorization_timeout"] (c.timeout.elim .null .real))) (.ok c.share) = _
    rw [hstorage, hpolicy, htimeout]
    rfl
  rw [ofValue]
  simp only [hentries, reported]

/-- The bytes of a sound configuration are read as this configuration. -/
theorem Sound.decode_encode {c : Config} (h : c.Sound) : decode c.encode = .ok c := by
  obtain ⟨hbytes, hlines, hread⟩ := Json.writeFile_spec h.readsBack
  simp only [decode, encode, hbytes, hlines, hread, h.ofValue_entries]

end Config

end BearerSession
