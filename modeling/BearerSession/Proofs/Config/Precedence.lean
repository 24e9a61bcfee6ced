import BearerSession.Proofs.Config.Looking
import BearerSession.Proofs.Config.Settings
import BearerSession.Proofs.Json.RoundTrip
import BearerSession.Proofs.Text.Ascii

/-!
# Precedence of settings

Policy, backend and path may be given on the command line and in the environment. Each of them is
taken from the first of the two that gives it, and otherwise from the configuration file, whatever
becomes of the other two; no other setting is overridden. A policy is checked wherever it is given,
a backend only where it counts. A file that is no configuration is refused like a bad override,
unless its text is nested more deeply than it is read.
-/

namespace BearerSession

/-- The text that overrides the setting of a key: the one of the command line, or else the one in
the environment. -/
def Overrides.given? (o : Overrides) (m : Machine) (key : String) : Option String :=
  if key = "default_persistence_policy" then o.policy.or (m.setVariable? Config.policyVariable)
  else if key = "storage.backend" then o.backend.or (m.setVariable? Config.backendVariable)
  else if key = "storage.path" then o.path.or (m.setVariable? Config.pathVariable)
  else none

namespace Config

open Setting (held meaning_key)

variable {o : Overrides} {m m₁ : Machine} {c : Config} {p : Path} {d : Disk}

/-- Whether an override is refused: a policy that is given anywhere, or the backend that counts. -/
def Refused (o : Overrides) (m : Machine) : Prop :=
  (∃ s, (m.setVariable? policyVariable = some s ∨ o.policy = some s) ∧
    ¬ Takes "default_persistence_policy" s) ∨
  ∃ s, o.given? m "storage.backend" = some s ∧ ¬ Takes "storage.backend" s

/-- A configuration with overrides: where a text is given, the setting holds what it means, and
where none is, what it has held. -/
def Overridden (o : Overrides) (m : Machine) (c c' : Config) : Prop :=
  ∀ key, c'.leaf? key = match o.given? m key with
    | some value => some (meaning key value)
    | none => c.leaf? key

/-- Apply all overrides to a configuration. -/
def applying (o : Overrides) (m : Machine) (c : Config) : Except SessionError Config := do
  let fromEnvironment ← parsePolicy? (m.setVariable? policyVariable) policyVariable
  let fromCommand ← parsePolicy? o.policy "--policy"
  c.override (fromCommand.or fromEnvironment) (o.backend.or (m.setVariable? backendVariable))
    (o.path.or (m.setVariable? pathVariable))

/-- A policy that is given is read, or refused as a configuration that is not acceptable. -/
theorem parsePolicy?_cases (value : Option String) (origin : String) :
    match parsePolicy? value origin with
    | .ok q => q = value.bind Policy.read? ∧
      ∀ s, value = some s → Takes "default_persistence_policy" s
    | .error e => e.kind = .config ∧
      ∃ s, value = some s ∧ ¬ Takes "default_persistence_policy" s := by
  cases value with
  | none => exact ⟨rfl, nofun⟩
  | some s =>
    simp only [parsePolicy?, parsePolicy, Option.bind_some]
    cases hread : Policy.read? s with
    | none =>
      refine ⟨rfl, s, rfl, ?_⟩
      rw [takes_policy_iff, hread]
      exact nofun
    | some q =>
      refine ⟨rfl, ?_⟩
      rintro _ ⟨⟩
      exact takes_policy_iff.mpr ⟨q, hread⟩

/-- The text that overrides a setting is found by its key. -/
theorem given?_key (o : Overrides) (m : Machine) (s : Setting) :
    o.given? m s.key = match s with
      | .policy => o.policy.or (m.setVariable? policyVariable)
      | .backend => o.backend.or (m.setVariable? backendVariable)
      | .path => o.path.or (m.setVariable? pathVariable)
      | _ => none := by
  cases s <;> rfl

/-- A configuration is overridden where each of its settings is. -/
theorem overridden_of_held {c' : Config}
    (h : ∀ s : Setting, held c' s = ((o.given? m s.key).map s.meaning).getD (held c s)) :
    Overridden o m c c' := by
  intro key
  by_cases hkey : ∃ s : Setting, key = s.key
  · obtain ⟨s, rfl⟩ := hkey
    rw [leaf?_key, leaf?_key, h s]
    cases o.given? m s.key with
    | none => rfl
    | some value => exact congrArg some (meaning_key s value).symm
  · have hnone (c : Config) : c.leaf? key = none := leaf?_eq_none_iff.mpr (not_exists.mp hkey)
    have hgiven : o.given? m key = none := by
      unfold Overrides.given?
      split_ifs with hpolicy hbackend hpath
      · exact absurd ⟨.policy, hpolicy⟩ hkey
      · exact absurd ⟨.backend, hbackend⟩ hkey
      · exact absurd ⟨.path, hpath⟩ hkey
      · rfl
    rw [hnone, hnone, hgiven]

/-- The policy that counts is the one of the command line, or else the one of the environment. -/
theorem held_policy {command environment : Option String} {q : Policy}
    (hcommand : ∀ s, command = some s → Takes "default_persistence_policy" s)
    (henvironment : ∀ s, environment = some s → Takes "default_persistence_policy" s) :
    Value.text (((command.bind Policy.read?).or (environment.bind Policy.read?)).getD q).name =
      ((command.or environment).map (Setting.meaning .policy)).getD (.text q.name) := by
  have hspelled {s : String} (h : Takes "default_persistence_policy" s) :
      ∃ p, Policy.read? s = some p ∧ Setting.meaning .policy s = .text p.name := by
    obtain ⟨p, hread⟩ := takes_policy_iff.mp h
    exact ⟨p, hread, congrArg Value.text (Policy.read?_eq_some_iff.mp hread)⟩
  cases command with
  | some s =>
    obtain ⟨p, hread, hmeaning⟩ := hspelled (hcommand s rfl)
    simp [hread, hmeaning]
  | none =>
    cases environment with
    | none => rfl
    | some s =>
      obtain ⟨p, hread, hmeaning⟩ := hspelled (henvironment s rfl)
      simp [hread, hmeaning]

/-- A backend that is given counts, unless it is refused. -/
theorem backend_cases (given : Option String) (b : BackendKind) :
    match given.elim (some b) BackendKind.ofName? with
    | some b' => (∀ s, given = some s → Takes "storage.backend" s) ∧
      Value.text b'.name = (given.map (Setting.meaning .backend)).getD (.text b.name)
    | none => ∃ s, given = some s ∧ ¬ Takes "storage.backend" s := by
  cases given with
  | none => exact ⟨nofun, rfl⟩
  | some s =>
    simp only [Option.elim]
    cases hname : BackendKind.ofName? s with
    | none =>
      refine ⟨s, rfl, ?_⟩
      rw [takes_backend_iff, hname]
      exact nofun
    | some b' =>
      obtain rfl := BackendKind.ofName?_eq_some_iff.mp hname
      refine ⟨?_, rfl⟩
      rintro _ ⟨⟩
      exact takes_backend_iff.mpr ⟨b', hname⟩

/-- Overrides are applied together, or one of them is refused. -/
theorem applying_cases (o : Overrides) (m : Machine) (c : Config) :
    match applying o m c with
    | .ok c' => ¬ Refused o m ∧ Overridden o m c c'
    | .error e => Refused o m ∧ e.kind = .config := by
  unfold applying
  have henvironment := parsePolicy?_cases (m.setVariable? policyVariable) policyVariable
  have hcommand := parsePolicy?_cases o.policy "--policy"
  have hbackend := backend_cases (o.backend.or (m.setVariable? backendVariable)) c.storage.backend
  generalize parsePolicy? (m.setVariable? policyVariable) policyVariable = fromEnvironment
    at henvironment ⊢
  generalize parsePolicy? o.policy "--policy" = fromCommand at hcommand ⊢
  cases fromEnvironment with
  | error e =>
    obtain ⟨hkind, s, hs, htakes⟩ := henvironment
    exact ⟨.inl ⟨s, .inl hs, htakes⟩, hkind⟩
  | ok q =>
    obtain ⟨rfl, henvironment⟩ := henvironment
    cases fromCommand with
    | error e =>
      obtain ⟨hkind, s, hs, htakes⟩ := hcommand
      exact ⟨.inl ⟨s, .inr hs, htakes⟩, hkind⟩
    | ok q =>
      obtain ⟨rfl, hcommand⟩ := hcommand
      simp only [Bind.bind, Except.bind, override]
      generalize (o.backend.or (m.setVariable? backendVariable)).elim (some c.storage.backend)
        BackendKind.ofName? = b at hbackend ⊢
      cases b with
      | none => exact ⟨.inr hbackend, rfl⟩
      | some b =>
        obtain ⟨htakes, hbackend⟩ := hbackend
        refine ⟨?_, overridden_of_held fun s => ?_⟩
        · rintro (⟨s, hs, hrefused⟩ | ⟨s, hs, hrefused⟩)
          · exact hrefused (hs.elim (henvironment s) (hcommand s))
          · exact hrefused (htakes s hs)
        · rw [given?_key]
          cases s with
          | policy => exact held_policy hcommand henvironment
          | backend => exact hbackend
          | path => cases o.path.or (m.setVariable? pathVariable) <;> rfl
          | _ => rfl

/-- Of the machine only the environment matters to them. -/
theorem applying_congr (o : Overrides) (h : m₁.environment = m.environment) :
    applying o m₁ = applying o m := by
  have hvariables : m₁.setVariable? = m.setVariable? := by
    funext name
    simp only [Machine.setVariable?, Machine.valueOf?, h]
  funext c
  simp only [applying, hvariables]

/-- The effective configuration is the one in the file, with the overrides applied. -/
theorem resolve_apply (o : Overrides) (m : Machine) :
    resolve o m = match locate o m with
      | .error e m₁ => .error e m₁
      | .ok p m₁ =>
        match read p m₁.disk with
        | .error e => .error e m₁
        | .ok c => orThrow (applying o m₁ c) m₁ := by
  simp only [resolve, locate, Act.bind_apply]
  cases overridePath o m with
  | error e m => rfl
  | ok path m =>
    cases hplace : place path m with
    | error e m₁ => simp only [load, Act.bind_apply, hplace]
    | ok p m₁ =>
      simp only [load_eq hplace, hplace, load_some]
      cases read p m₁.disk with
      | error e => rfl
      | ok c =>
        simp only [applying, Act.get_apply]
        cases parsePolicy? (m₁.setVariable? policyVariable) policyVariable with
        | error e => rfl
        | ok fromEnvironment => cases parsePolicy? o.policy "--policy" <;> rfl

/-- The configuration in the file at a path, or what is wrong with its bytes. Without a file it is
the default one. -/
def stored (d : Disk) (p : Path) : Except Raised Config := (d.bytes? p).elim (.ok default) decode

/-- A file that holds no configuration is reported as such where its value is not acceptable. -/
theorem read_eq (p : Path) (d : Disk) :
    read p d = match stored d p with
      | .ok c => .ok c
      | .error e =>
        .error (if e.family = .value then .session (.invalidConfig p.text e.text) else e) := by
  unfold read stored
  cases d.bytes? p <;> rfl

/-- Only a text that is nested too deeply is wrong in another way. -/
theorem family_of_stored {e : Raised} (h : stored d p = .error e) :
    e.family = .value ∨ ∃ nest, e = .notJson (.tooDeep nest) := by
  unfold stored at h
  cases hbytes : d.bytes? p with
  | none => simp [hbytes] at h
  | some bytes =>
    simp only [hbytes, Option.elim, decode] at h
    split at h
    · cases h
      exact .inl rfl
    · split at h
      · next error _ =>
        cases h
        cases error with
        | malformed => exact .inl rfl
        | tooManyDigits => exact .inl rfl
        | tooDeep nest => exact .inr ⟨nest, rfl⟩
      · split at h
        · contradiction
        · cases h
          exact .inl rfl

/-- The effective configuration is the one in the file but for the overrides, each of which is taken
from the command line or else from the environment. Apart from a text that is nested too deeply,
what is refused as a configuration that is not acceptable is a file that holds none, a policy that
is given anywhere, and the backend that counts, and nothing else. -/
theorem resolve_precedence (o : Overrides) (m : Machine) :
    match locate o m with
    | .error e m₁ => resolve o m = .error e m₁ ∧ (e = .noHome ∨ ∃ fault, e = .disk fault)
    | .ok p m₁ =>
      (∀ nest, stored m₁.disk p = .error (.notJson (.tooDeep nest)) →
        resolve o m = .error (.notJson (.tooDeep nest)) m₁) ∧
      ((∀ nest, stored m₁.disk p ≠ .error (.notJson (.tooDeep nest))) →
        ((∃ e m', resolve o m = .error (.session e) m' ∧ e.kind = .config) ↔
          (∃ e, stored m₁.disk p = .error e) ∨ Refused o m) ∧
        ∀ c, stored m₁.disk p = .ok c → ¬ Refused o m →
          ∃ c', resolve o m = .ok c' m₁ ∧ Overridden o m c c') := by
  have hlocate := locate_cases o m
  have hresolve := resolve_apply o m
  generalize locate o m = located at hlocate hresolve ⊢
  cases located with
  | error e m₁ => exact ⟨hresolve, hlocate.2⟩
  | ok p m₁ =>
    dsimp only
    have henvironment : m₁.environment = m.environment := by
      obtain ⟨d, rfl, -⟩ := hlocate
      rfl
    simp only [read_eq, applying_congr o henvironment] at hresolve
    cases hstored : stored m₁.disk p with
    | error e =>
      simp only [hstored] at hresolve
      refine ⟨?_, fun hdeep => ⟨?_, nofun⟩⟩
      · rintro nest ⟨⟩
        exact hresolve
      · obtain hvalue | ⟨nest, rfl⟩ := family_of_stored hstored
        · rw [if_pos hvalue] at hresolve
          exact ⟨fun _ => .inl ⟨e, rfl⟩, fun _ => ⟨_, m₁, hresolve, rfl⟩⟩
        · exact absurd rfl (hdeep nest)
    | ok c =>
      simp only [hstored] at hresolve
      have happlying := applying_cases o m c
      refine ⟨nofun, fun _ => ?_⟩
      cases hresult : applying o m c with
      | error e =>
        simp only [hresult] at happlying hresolve
        exact ⟨⟨fun _ => .inr happlying.1, fun _ => ⟨e, m₁, hresolve, happlying.2⟩⟩,
          fun _ _ haccepted => absurd happlying.1 haccepted⟩
      | ok c' =>
        simp only [hresult] at happlying hresolve
        refine ⟨⟨?_, ?_⟩, ?_⟩
        · rintro ⟨e, m', herror, -⟩
          cases hresolve.symm.trans herror
        · rintro (⟨e, ⟨⟩⟩ | hrefused)
          exact absurd hrefused happlying.1
        · rintro _ ⟨⟩ -
          exact ⟨c', hresolve, happlying.2⟩

/-- A text of so many lists inside one another. -/
def nested (n : Nat) : List UInt8 := Text.Utf8.encode (List.replicate n '[' ++ List.replicate n ']')

/-- Too many of them are not read. -/
theorem decode_nested {n : Nat} (h : Json.depthLimit < n) :
    decode (nested n) = .error (.notJson (.tooDeep .list)) := by
  obtain ⟨more, rfl⟩ : ∃ more, n = Json.depthLimit + 1 + more := ⟨_, (Nat.add_sub_of_le h).symm⟩
  generalize hn : Json.depthLimit + 1 + more = n
  have hbrackets : ∀ c ∈ List.replicate n '[' ++ List.replicate n ']', c = '[' ∨ c = ']' := by
    intro c hc
    simp only [List.mem_append, List.mem_replicate] at hc
    exact hc.imp And.right And.right
  have hread := Json.read_tooDeep (List.replicate more '[' ++ List.replicate n ']')
  rw [← List.append_assoc, List.replicate_append_replicate, hn] at hread
  have hascii : Text.Utf8.decode (nested n) =
      .ok (List.replicate n '[' ++ List.replicate n ']') := by
    refine Text.Utf8.decode_encode_of_ascii fun c hc => ?_
    obtain rfl | rfl := hbrackets c hc <;> decide
  have hreturn : '\r' ∉ List.replicate n '[' ++ List.replicate n ']' := fun hmem =>
    absurd (hbrackets _ hmem) (by decide)
  simp only [decode, hascii, Text.Utf8.normalizeLineEnds_of_not_mem hreturn, hread]

/-- A machine with a configuration file, on which some operations of the disk fail. -/
def machineWith (bytes : List UInt8) (faults : DiskFaults) : Machine :=
  ⟨⟨[(["c.json"], .file bytes 0o644)], [], faults, [], 0⟩, [], ⟨"Linux", "6.1.0", "x86_64"⟩, 0⟩

theorem bytes?_machineWith (bytes : List UInt8) (faults : DiskFaults) :
    (machineWith bytes faults).disk.bytes? ⟨"/", ["c.json"]⟩ = some bytes := rfl

/-- What is wrong with the bytes of this file is raised where it is no unacceptable value. -/
theorem resolve_machineWith {bytes : List UInt8} {e : Raised} (h : decode bytes = .error e)
    (hfamily : e.family ≠ .value) :
    resolve ⟨some "/c.json", none, none, none⟩ (machineWith bytes .none) =
      .error e (machineWith bytes .none) := by
  have hlocate : locate ⟨some "/c.json", none, none, none⟩ (machineWith bytes .none) =
      .ok ⟨"/", ["c.json"]⟩ (machineWith bytes .none) := rfl
  rw [resolve_apply, hlocate]
  simp only [read, bytes?_machineWith, h, if_neg hfamily]

/-- A file that is nested too deeply is no configuration, but it is not refused as one that is not
acceptable. -/
theorem not_refused_nested :
    (machineWith (nested 2500) .none).disk.bytes? ⟨"/", ["c.json"]⟩ = some (nested 2500) ∧
      (∀ c, decode (nested 2500) ≠ .ok c) ∧
      ¬ ∃ e m', resolve ⟨some "/c.json", none, none, none⟩ (machineWith (nested 2500) .none) =
        .error (.session e) m' ∧ e.kind = .config := by
  have hdecode : decode (nested 2500) = _ := decode_nested (by decide)
  refine ⟨bytes?_machineWith _ _, fun c h => ?_, ?_⟩
  · cases hdecode.symm.trans h
  · rintro ⟨e, m', hresolve, -⟩
    cases (resolve_machineWith hdecode (by decide)).symm.trans hresolve

end Config

end BearerSession
