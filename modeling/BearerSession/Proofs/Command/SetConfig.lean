import BearerSession.Proofs.Command.Forgetting
import BearerSession.Proofs.Config.OneSetting
import BearerSession.Proofs.Config.Precedence

/-!
# Setting a value by a command

A command that sets a value in the configuration file ends with success where exactly this setting
has changed, and in no other case. Where it does not, every file is as it was.
-/

namespace BearerSession.Command

variable {args : List String} {o : Overrides} {wish : OutputWish} {key value : String}
  {m m₁ : Machine} {p : Path} {c : Config}

/-- What a command that sets a value has found out. -/
def setAnswer (key : String) :
    EStateM.Result Raised Machine String → EStateM.Result Raised Machine Answer
  | .ok shown m => .ok (.confirmation s!"Set {key} = {shown}") m
  | .error e m => .error e m

/-- Setting a value by a command changes the setting in the file that is found, and then says so or
reports an error. Where no file is found, nothing happens but this. -/
theorem run_setConfig
    (h : Invocation.ofArguments args = .ok (.perform o wish (.setConfig key value)))
    (display : Display) (m : Machine) :
    match Config.locate o m with
    | .error e _ => run args display m = (reported (.ofWish wish display m) e .empty, m)
    | .ok p m₁ => ∃ path, Config.place path m = .ok p m₁ ∧
        run args display m = concluded (.ofWish wish display m) .empty
          (setAnswer key (Config.set path key value m)) := by
  have hpath := Config.overridePath_cases o m
  rw [run_of_perform h]
  simp only [Task.answer, Task.said, Task.loggedInSession?, Task.inSession?, Task.outside,
    Act.bind_apply]
  cases hgiven : Config.overridePath o m with
  | error e m₁ =>
    rw [hgiven] at hpath
    obtain ⟨rfl, -⟩ := hpath
    rw [Config.locate, Act.bind_apply, hgiven]
    rfl
  | ok path m₁ =>
    rw [hgiven] at hpath
    obtain rfl := hpath
    rw [Config.locate_eq hgiven]
    have hplace := Config.place_cases path m₁
    cases hfound : Config.place path m₁ with
    | error e m₂ =>
      rw [hfound] at hplace
      obtain ⟨rfl, -⟩ := hplace
      simp only [Config.set, Config.load, Act.bind_apply, hfound]
      rfl
    | ok p m₂ =>
      refine ⟨path, hfound, ?_⟩
      dsimp only
      cases Config.set path key value m₁ <;> rfl

/-- The command changes one setting of the configuration in the file and ends with success, unless
its confirmation is wrong as markup; or it does not end with success and every file is as it was. -/
theorem run_setConfig_updates_or_spares
    (h : Invocation.ofArguments args = .ok (.perform o wish (.setConfig key value)))
    (display : Display) (m : Machine) :
    let r := run args display m
    (r.1.exitCode ≠ success ∧
        (r.2 = m ∨ ∃ p m₁, Config.locate o m = .ok p m₁ ∧ m.disk.Spared p r.2.disk)) ∨
      ∃ p m₁ c c' shown, Config.locate o m = .ok p m₁ ∧ Config.load (some p) m₁ = .ok c m₁ ∧
        c.changing key value = .ok (c', shown) ∧ c.Changed key value c' ∧
        Config.load (some p) r.2 = .ok c' r.2 ∧
        (∀ place, place ≠ r.2.disk.locate p →
          r.2.disk.bytesAt? place = m.disk.bytesAt? place) ∧
        (r.1.exitCode = success ∨
          r.1.exitCode = ErrorKind.session.exitCode ∧ wish.quiet = false ∧
            (Output.ofWish wish display m).colourless = false ∧ ∃ fault,
              display.line false .confirmation s!"Set {key} = {shown}" = .error fault) := by
  intro r
  have hrun := run_setConfig h display m
  have hlocated := Config.locate_cases o m
  cases hlocate : Config.locate o m with
  | error e m₁ =>
    rw [hlocate] at hrun hlocated
    have hown : e.Own := by
      obtain rfl | ⟨fault, rfl⟩ := hlocated.2
      · exact fun _ _ _ => nofun
      · exact fun _ _ _ => nofun
    have hended : r = (reported (.ofWish wish display m) e .empty, m) := hrun
    rw [hended, exitCode_reported]
    exact .inl ⟨reportCode_ne_success hown _, .inl rfl⟩
  | ok p m₁ =>
    rw [hlocate] at hrun
    obtain ⟨path, hplace, hrun⟩ := hrun
    have hended : r = _ := hrun
    have hcases := Config.set_cases hplace key value
    rw [hended, machine_concluded]
    cases hset : Config.set path key value m with
    | error e m' =>
      rw [hset] at hcases
      refine .inl ⟨?_, .inr ⟨p, m₁, rfl, hcases.2⟩⟩
      change (reported _ e .empty).exitCode ≠ success
      rw [exitCode_reported]
      exact reportCode_ne_success hcases.1 _
    | ok shown m' =>
      rw [hset] at hcases
      obtain ⟨c, c', hload, hchanging, hchanged, hafter, hothers⟩ := hcases
      refine .inr ⟨p, m₁, c, c', shown, rfl, hload, hchanging, hchanged, hafter, hothers, ?_⟩
      exact exitCode_confirmed (confirms_confirmation s!"Set {key} = {shown}") _ _ _

/-- Any key and any value can be given, behind two dashes. -/
theorem ofArguments_setConfig (path key value : String) :
    Invocation.ofArguments ["--config", path, "config", "set", "--", key, value] =
      .ok (.perform ⟨some path, none, none, none⟩ ⟨none, false, false, false⟩
        (.setConfig key value)) := rfl

/-- A configuration file with one setting. -/
def oldBytes : List UInt8 := Text.Utf8.encode "\x7b\"app_id\": \"old\"\x7d".toList

/-- Where the disk works, the place of the storage is added to it. -/
theorem run_setConfig_updates_path :
    let r := run ["--config", "/c.json", "config", "set", "--", "storage.path", "x"] (.plain false)
      (Config.machineWith oldBytes .none)
    Invocation.ofArguments ["--config", "/c.json", "config", "set", "--", "storage.path", "x"] =
        .ok (.perform ⟨some "/c.json", none, none, none⟩ ⟨none, false, false, false⟩
          (.setConfig "storage.path" "x")) ∧
      r.1.exitCode = success ∧ ∃ c c' : Config, c.Changed "storage.path" "x" c' ∧
        Config.load (some ⟨"/", ["c.json"]⟩) r.2 = .ok c' r.2 := by
  intro r
  have hsuccess : r.1.exitCode = success := by decide +kernel
  refine ⟨ofArguments_setConfig .., hsuccess, ?_⟩
  obtain ⟨hcode, -⟩ | ⟨p, m₁, c, c', shown, hlocate, -, -, hchanged, hload, -⟩ :=
    run_setConfig_updates_or_spares (ofArguments_setConfig "/c.json" "storage.path" "x")
      (.plain false) (Config.machineWith oldBytes .none)
  · exact absurd hsuccess hcode
  · cases hlocate
    exact ⟨c, c', hchanged, hload⟩

/-- At a path that leads back from a directory that is not there is no file. After a command that
has failed there is one: the directory that has been made for the write leads the path to it. -/
theorem bytes_after_failed_setConfig :
    let m := Config.machineWith oldBytes { DiskFaults.none with replace := true }
    let r := run ["--config", "/a/../c.json", "config", "set", "--", "app_version", "2"]
      (.plain false) m
    m.disk.bytes? ⟨"/", ["a", "..", "c.json"]⟩ = none ∧ r.1.exitCode = 1 ∧
      r.2.disk.bytes? ⟨"/", ["a", "..", "c.json"]⟩ = some oldBytes :=
  ⟨by decide +kernel, by decide +kernel, by decide +kernel⟩

/-- Commands that set the same value do the same. -/
theorem run_setConfig_congr {args' : List String} {value' : String}
    (h : Invocation.ofArguments args = .ok (.perform o wish (.setConfig key value)))
    (h' : Invocation.ofArguments args' = .ok (.perform o wish (.setConfig key value')))
    (hset : ∀ path, Config.set path key value = Config.set path key value') (display : Display)
    (m : Machine) : run args' display m = run args display m := by
  have hanswer : Task.answer o (.setConfig key value') = Task.answer o (.setConfig key value) := by
    simp only [Task.answer, Task.inSession?, Task.outside, hset]
  have hsaid (output : Output) : Task.said o output (.setConfig key value') m =
      Task.said o output (.setConfig key value) m := rfl
  rw [run_of_perform h, run_of_perform h', hanswer, hsaid]

/-- Whether attempts are shared is set by what a word means, yes or no. -/
theorem run_setConfig_share
    (h : Invocation.ofArguments args = .ok (.perform o wish (.setConfig key value)))
    (display : Display) (m : Machine) (hkey : key = "share_inflight_outcome") (args' : List String)
    (h' : Invocation.ofArguments args' = .ok (.perform o wish
      (.setConfig key (if Config.truthOf value then "true" else "false")))) :
    run args' display m = run args display m := by
  subst hkey
  refine run_setConfig_congr h h' (fun path => Config.set_share ?_ path) display m
  cases Config.truthOf value <;> decide

/-- Where there is a configuration, a command that sets a value ends as the change of the
configuration is refused, and every file is as it was, or with an exit code other than 2. -/
theorem run_of_load
    (h : Invocation.ofArguments args = .ok (.perform o wish (.setConfig key value)))
    (hlocate : Config.locate o m = .ok p m₁) (hload : Config.load (some p) m₁ = .ok c m₁)
    (display : Display) :
    match c.changing key value with
    | .error e =>
      (run args display m).1.exitCode = reportCode (.ofWish wish display m) (.session e) ∧
        ∀ place, (run args display m).2.disk.bytesAt? place = m.disk.bytesAt? place
    | .ok _ => (run args display m).1.exitCode ≠ 2 := by
  have hrun := run_setConfig h display m
  rw [hlocate] at hrun
  obtain ⟨path, hplace, hrun⟩ := hrun
  rw [hrun, Config.set_apply ((Config.load_eq hplace).trans hload)]
  cases c.changing key value with
  | error e =>
    refine ⟨exitCode_reported _ _ _, fun place => ?_⟩
    have hlocated := Config.locate_cases o m
    rw [hlocate] at hlocated
    obtain ⟨d, rfl, hprepared⟩ := hlocated
    exact hprepared.files place
  | ok changed =>
    have hsaved := Config.save_cases changed.1 path m₁
    dsimp only
    cases hsave : Config.save changed.1 path m₁ with
    | ok u m' =>
      obtain hcode | ⟨hcode, -⟩ := exitCode_confirmed
        (confirms_confirmation s!"Set {key} = {changed.2}") (.ofWish wish display m) .empty m'
      · exact hcode.trans_ne (by decide)
      · exact hcode.trans_ne (by decide)
    | error e m' =>
      rw [hsave] at hsaved
      obtain ⟨⟨fault, rfl⟩, -⟩ := hsaved
      exact (exitCode_reported (.ofWish wish display m) _ .empty).trans_ne
        (show ErrorKind.session.exitCode ≠ 2 by decide)

/-- Whether the message of an error can be shown. -/
def Says (output : Output) (e : SessionError) : Prop :=
  ∃ shown, output.display.line output.colourless .error e.message = .ok shown

/-- Of an error that can be shown the exit code is its own, and any other one is unexpected. -/
theorem reportCode_session (output : Output) (e : SessionError) :
    (Says output e → reportCode output (.session e) = e.exitCode) ∧
      (¬ Says output e → reportCode output (.session e) = ErrorKind.session.exitCode) := by
  simp only [Says, reportCode]
  cases output.display.line output.colourless .error e.message with
  | ok shown => exact ⟨fun _ => rfl, fun h => absurd ⟨shown, rfl⟩ h⟩
  | error fault =>
    refine ⟨fun hsays => ?_, fun _ => rfl⟩
    obtain ⟨shown, hshown⟩ := hsays
    contradiction

/-- Where there is a configuration, a key that is not that of a setting ends the command with exit
code 2 and leaves every file as it was, and so does a value that its setting does not take; but
where the message is wrong as markup, the exit code is 1. Only a policy that is not taken ends it
with exit code 1 in any case, and whether attempts are shared is set by every word, since a word
that does not mean yes means no. -/
theorem run_setConfig_refuses
    (h : Invocation.ofArguments args = .ok (.perform o wish (.setConfig key value)))
    (hlocate : Config.locate o m = .ok p m₁) (hload : Config.load (some p) m₁ = .ok c m₁)
    (display : Display) :
    let r := run args display m
    let refused := c.leaf? key = none ∨
      ¬ Config.Takes key value ∧ key ≠ "default_persistence_policy"
    let said := ∃ e, c.changing key value = .error e ∧ Says (.ofWish wish display m) e
    (r.1.exitCode = 2 ↔ refused ∧ said) ∧ (refused → ¬ said → r.1.exitCode = 1) ∧
      (¬ Config.Takes key value → key = "default_persistence_policy" → r.1.exitCode = 1) ∧
      (c.leaf? key = none ∨ ¬ Config.Takes key value →
        ∀ place, r.2.disk.bytesAt? place = m.disk.bytesAt? place) ∧
      (key = "share_inflight_outcome" → ∀ args',
        Invocation.ofArguments args' = .ok (.perform o wish
          (.setConfig key (if Config.truthOf value then "true" else "false"))) →
        run args' display m = r) := by
  intro r refused said
  have hend := run_of_load h hlocate hload display
  have hshare := run_setConfig_share h display m
  cases hresult : c.changing key value with
  | ok changed =>
    rw [hresult] at hend
    have hchanging := Config.changing_cases c key value
    rw [hresult] at hchanging
    obtain ⟨htakes, hchanged⟩ := hchanging
    have hnamed : c.leaf? key ≠ none := Option.isSome_iff_ne_none.mp hchanged.named
    have hrefused : ¬ refused := by simp [refused, hnamed, htakes]
    exact ⟨⟨fun hcode => absurd hcode hend, fun hbad => absurd hbad.1 hrefused⟩,
      fun hbad => absurd hbad hrefused, fun hbad => absurd htakes hbad,
      fun hbad => absurd hbad (by simp [hnamed, htakes]), hshare⟩
  | error e =>
    rw [hresult] at hend
    obtain ⟨hcode, hfiles⟩ := hend
    obtain ⟨hown, hother⟩ := reportCode_session (.ofWish wish display m) e
    rw [← hcode] at hown hother
    have hsaid : said ↔ Says (.ofWish wish display m) e := by simp [said, hresult]
    obtain ⟨hwrong, he⟩ := Config.exitCode_of_changing hresult
    by_cases hpolicy : key = "default_persistence_policy"
    · rw [if_pos hpolicy] at he
      have hone : r.1.exitCode = 1 := by
        by_cases hsays : Says (.ofWish wish display m) e
        · exact (hown hsays).trans he
        · exact hother hsays
      have hrefused : ¬ refused := by
        rintro (hnone | ⟨-, hkey⟩)
        · exact Config.leaf?_eq_none_iff.mp hnone .policy hpolicy
        · exact hkey hpolicy
      exact ⟨⟨fun htwo => absurd (hone.symm.trans htwo) (by decide),
        fun hboth => absurd hboth.1 hrefused⟩, fun _ _ => hone, fun _ _ => hone, fun _ => hfiles,
        hshare⟩
    · rw [if_neg hpolicy] at he
      have hrefused : refused := hwrong.imp_right fun htakes => ⟨htakes, hpolicy⟩
      refine ⟨⟨fun htwo => ⟨hrefused, hsaid.mpr ?_⟩,
        fun hboth => (hown (hsaid.mp hboth.2)).trans he⟩,
        fun _ hsilent => hother (mt hsaid.mpr hsilent), fun _ hkey => absurd hkey hpolicy,
        fun _ => hfiles, hshare⟩
      by_contra hsays
      exact absurd ((hother hsays).symm.trans htwo) (by decide)

/-- The backend of no name is refused with exit code 2. -/
theorem run_setConfig_refuses_backend :
    Invocation.ofArguments ["--config", "/c.json", "config", "set", "--", "storage.backend", "x"] =
        .ok (.perform ⟨some "/c.json", none, none, none⟩ ⟨none, false, false, false⟩
          (.setConfig "storage.backend" "x")) ∧
      (run ["--config", "/c.json", "config", "set", "--", "storage.backend", "x"] (.plain false)
        (Config.machineWith oldBytes .none)).1.exitCode = 2 ∧
      ∀ place, (run ["--config", "/c.json", "config", "set", "--", "storage.backend", "x"]
          (.plain false) (Config.machineWith oldBytes .none)).2.disk.bytesAt? place =
        (Config.machineWith oldBytes .none).disk.bytesAt? place := by
  have htakes : ¬ Config.Takes "storage.backend" "x" := fun h => by
    rcases h.2.1 rfl with h | h | h <;> exact absurd h (by decide)
  have hload : Config.load (some ⟨"/", ["c.json"]⟩) (Config.machineWith oldBytes .none) =
      .ok { Config.default with appId := "old" } (Config.machineWith oldBytes .none) := by
    rw [Config.load_some]
    have hread : Config.read ⟨"/", ["c.json"]⟩ (Config.machineWith oldBytes .none).disk =
        .ok { Config.default with appId := "old" } := by decide +kernel
    rw [hread]
  obtain ⟨-, -, -, hfiles, -⟩ :=
    run_setConfig_refuses (m := Config.machineWith oldBytes .none)
      (ofArguments_setConfig "/c.json" "storage.backend" "x") rfl hload (.plain false)
  exact ⟨ofArguments_setConfig .., by decide +kernel, hfiles (.inr htakes)⟩

/-- A word that means neither yes nor no is taken, and what is no policy ends a command with another
exit code. So does a key that is wrong as markup, where its message is to be shown in colour. -/
theorem run_setConfig_takes_word :
    let m := Config.machineWith oldBytes .none
    let set (key value : String) :=
      run ["--config", "/c.json", "config", "set", key, value] (.plain false) m
    (set "share_inflight_outcome" "maybe").1.exitCode = 0 ∧
      (set "share_inflight_outcome" "maybe").2.disk.bytes? ⟨"/", ["c.json"]⟩ ≠ some oldBytes ∧
      (set "default_persistence_policy" "x").1.exitCode = 1 ∧ (set "[/x]" "x").1.exitCode = 1 :=
  ⟨by decide +kernel, by decide +kernel, by decide +kernel, by decide +kernel⟩

end BearerSession.Command
