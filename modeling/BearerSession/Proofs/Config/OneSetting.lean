import BearerSession.Proofs.Config.Looking
import BearerSession.Proofs.Config.Written

/-!
# Changing one setting in the file

A setting in the configuration file is changed as a whole or not at all: either the file then reads
as the configuration that was there with this one setting changed, or every file is as it was. What
is wrong with the key or with the value shows before anything is written.
-/

namespace BearerSession.Config

variable {m m₁ : Machine} {c : Config} {path : Option Path} {p : Path} {key value : String}

/-- A configuration with the setting of a key changed, and how the new value is shown. -/
def changing (c : Config) (key value : String) : Except SessionError (Config × String) := do
  c.change (← Setting.ofKey key) key value

/-- A key that is not that of a setting is refused as such. -/
theorem Setting.of_ofKey_eq_error {e : SessionError} (h : ofKey key = .error e) :
    e = .invalidKey key ∨ e = .unknownKey key := by
  unfold ofKey at h
  dsimp only at h
  repeat' split at h
  · cases h
    exact .inl rfl
  · contradiction
  · cases h
    exact .inr rfl

/-- Only the key of a setting and a text that it takes change a configuration. -/
theorem changing_cases (c : Config) (key value : String) :
    match c.changing key value with
    | .ok (c', _) => Takes key value ∧ c.Changed key value c'
    | .error e => c.leaf? key = none ∧ (e = .invalidKey key ∨ e = .unknownKey key) ∨
      (c.leaf? key).isSome ∧ ¬ Takes key value ∧
        (key = "default_persistence_policy" ∧ e = .invalidPolicy value key ∨
          key ≠ "default_persistence_policy" ∧ ∃ detail, e = .invalidValue key detail) := by
  unfold changing
  cases hkey : Setting.ofKey key with
  | error e =>
    refine .inl ⟨leaf?_eq_none_iff.mpr fun s hs => ?_, Setting.of_ofKey_eq_error hkey⟩
    cases hkey.symm.trans (Setting.ofKey_eq_ok_iff.mpr hs)
  | ok s =>
    obtain rfl := Setting.ofKey_eq_ok_iff.mp hkey
    have hpolicy : s = .policy ↔ s.key = "default_persistence_policy" := by cases s <;> decide
    have hchange := change_cases c s s.key value
    simp only [Bind.bind, Except.bind]
    cases hresult : c.change s s.key value with
    | ok changed =>
      rw [hresult] at hchange
      exact hchange
    | error e =>
      rw [hresult] at hchange
      simp only [ne_eq, hpolicy] at hchange
      exact .inr ⟨by simp, hchange⟩

/-- Whatever is wrong with a key or a value has exit code 2, but for a policy that is not taken. -/
theorem exitCode_of_changing {e : SessionError} (h : c.changing key value = .error e) :
    (c.leaf? key = none ∨ ¬ Takes key value) ∧
      e.exitCode = if key = "default_persistence_policy" then 1 else 2 := by
  have hcases := changing_cases c key value
  rw [h] at hcases
  obtain ⟨hnone, hkey⟩ | ⟨-, htakes, ⟨hpolicy, rfl⟩ | ⟨hpolicy, detail, rfl⟩⟩ := hcases
  · have hpolicy : key ≠ "default_persistence_policy" := by
      rintro rfl
      exact leaf?_eq_none_iff.mp hnone .policy rfl
    rw [if_neg hpolicy]
    exact ⟨.inl hnone, by obtain rfl | rfl := hkey <;> rfl⟩
  · rw [if_pos hpolicy]
    exact ⟨.inr htakes, rfl⟩
  · rw [if_neg hpolicy]
    exact ⟨.inr htakes, rfl⟩

/-- What is wrong with a key or a value is told by an error of its own. -/
theorem own_of_changing {e : SessionError} (h : c.changing key value = .error e) :
    (Raised.session e).Own := by
  have hcases := changing_cases c key value
  rw [h] at hcases
  obtain ⟨-, rfl | rfl⟩ | ⟨-, -, ⟨-, rfl⟩ | ⟨-, detail, rfl⟩⟩ := hcases
  all_goals exact fun _ _ _ => nofun

/-- What is loaded from a path is sound, and loading it changes nothing. -/
theorem load_some_cases (p : Path) (m : Machine) :
    match load (some p) m with
    | .ok c m₁ => m₁ = m ∧ c.Sound
    | .error e m₁ => m₁ = m ∧ e.Own := by
  rw [load_some]
  cases hread : read p m.disk with
  | error e => exact ⟨rfl, own_of_read hread⟩
  | ok c =>
    refine ⟨rfl, ?_⟩
    unfold read at hread
    split at hread
    · cases hread
      exact sound_default
    · split at hread
      · next hdecode =>
        cases hread
        exact sound_of_decode hdecode
      · contradiction

/-- Saving a configuration writes it or leaves every file as it was. -/
theorem save_cases (c : Config) (path : Option Path) (m : Machine) :
    match save c path m with
    | .ok () m' => m'.disk.bytes? (pathOf path m) = some c.encode ∧
      ∀ place, place ≠ m'.disk.locate (pathOf path m) →
        m'.disk.bytesAt? place = m.disk.bytesAt? place
    | .error e m' => (∃ fault, e = .disk fault) ∧ m.disk.Spared (pathOf path m) m'.disk := by
  have hplace := place_cases path m
  simp only [save, Act.bind_apply]
  cases hfound : place path m with
  | error e m₁ =>
    rw [hfound] at hplace
    obtain ⟨rfl, fault, rfl⟩ := hplace
    exact ⟨⟨fault, rfl⟩, (Disk.Prepared.refl _ _).spared⟩
  | ok p m₁ =>
    rw [hfound] at hplace
    obtain ⟨rfl, d, rfl, hprepared⟩ := hplace
    simp only [Machine.onDisk]
    cases hwrite : d.writeAtomically (pathOf path m) c.encode none with
    | mk error f =>
      cases error with
      | none =>
        obtain ⟨hbytes, -, hothers⟩ := Disk.writeAtomically_ok hwrite
        exact ⟨hbytes, fun place hne => (hothers place hne).trans (hprepared.files place)⟩
      | some error => exact ⟨⟨error, rfl⟩, hprepared.trans_spared (Disk.spared_of_error hwrite)⟩

/-- A setting is changed in the configuration that is loaded, which is then saved. -/
theorem set_apply (hload : load path m = .ok c m₁) (key value : String) :
    set path key value m = match c.changing key value with
      | .error e => .error (.session e) m₁
      | .ok (c', shown) =>
        match save c' path m₁ with
        | .error e m' => .error e m'
        | .ok () m' => .ok shown m' := by
  simp only [set, changing, Act.bind_apply, hload]
  cases Setting.ofKey key with
  | error e => rfl
  | ok s =>
    simp only [Bind.bind, Except.bind]
    cases c.change s key value with
    | error e => rfl
    | ok changed =>
      simp only [EStateM.bind]
      cases save changed.1 path m₁ <;> rfl

/-- Whether attempts are shared is set by the truth value of a word alone. -/
theorem set_share {value value' : String} (h : truthOf value = truthOf value')
    (path : Option Path) :
    set path "share_inflight_outcome" value = set path "share_inflight_outcome" value' := by
  have hkey : Setting.ofKey "share_inflight_outcome" = .ok .share :=
    Setting.ofKey_eq_ok_iff.mpr (by decide)
  have hchange (c : Config) : c.change .share "share_inflight_outcome" value =
      c.change .share "share_inflight_outcome" value' := by
    unfold change
    rw [h]
  simp only [set, hkey, hchange]

/-- Changing a setting changes this setting in the file and nothing else, or leaves every file as it
was. -/
theorem set_cases (hplace : place path m = .ok p m₁) (key value : String) :
    match set path key value m with
    | .ok shown m' => ∃ c c', load (some p) m₁ = .ok c m₁ ∧
      c.changing key value = .ok (c', shown) ∧ c.Changed key value c' ∧
      load (some p) m' = .ok c' m' ∧
      ∀ place, place ≠ m'.disk.locate p → m'.disk.bytesAt? place = m.disk.bytesAt? place
    | .error e m' => e.Own ∧ m.disk.Spared p m'.disk := by
  have hfound := place_cases path m
  rw [hplace] at hfound
  obtain ⟨rfl, d, rfl, hprepared⟩ := hfound
  have hloaded := load_some_cases (pathOf path m) { m with disk := d }
  have hload := load_eq hplace
  cases hfile : load (some (pathOf path m)) { m with disk := d } with
  | error e m₂ =>
    rw [hfile] at hload hloaded
    obtain ⟨rfl, hown⟩ := hloaded
    simp only [set, Act.bind_apply, hload]
    exact ⟨hown, hprepared.spared⟩
  | ok c m₂ =>
    rw [hfile] at hload hloaded
    obtain ⟨rfl, hsound⟩ := hloaded
    have hchanging := changing_cases c key value
    rw [set_apply hload]
    cases hresult : c.changing key value with
    | error e => exact ⟨own_of_changing hresult, hprepared.spared⟩
    | ok changed =>
      rw [hresult] at hchanging
      obtain ⟨c', shown⟩ := changed
      obtain ⟨htakes, hchanged⟩ := hchanging
      have hsaved := save_cases c' path { m with disk := d }
      dsimp only
      cases hsave : save c' path { m with disk := d } with
      | error e m' =>
        rw [hsave] at hsaved
        obtain ⟨⟨fault, rfl⟩, hspared⟩ := hsaved
        exact ⟨fun _ _ _ => nofun, hprepared.trans_spared hspared⟩
      | ok u m' =>
        rw [hsave] at hsaved
        obtain ⟨hbytes, hothers⟩ := hsaved
        refine ⟨c, c', rfl, hresult, hchanged, ?_,
          fun place hne => (hothers place hne).trans (hprepared.files place)⟩
        have hfile : m'.disk.bytes? (pathOf path m) = some c'.encode := hbytes
        have hdecode := (hchanged.sound htakes hsound).decode_encode
        simp only [load_some, read, hfile, hdecode]

end BearerSession.Config
