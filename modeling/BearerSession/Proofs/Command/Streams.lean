import BearerSession.Output.Markup
import BearerSession.Proofs.Command.Answer
import BearerSession.Proofs.Credential.Alongside

/-!
# What goes to which stream

Standard output gets the data of a command that found its answer, and nothing else. What is said to
people goes to standard error, an error even where output is quiet. So flags that make a command say
more or less change standard error alone. Two things stand in the way of that. Plain rows are
printed one after the other, so one that standard output does not take is missed only when others
are out. And a confirmation that cannot be shown is an error, of which a quiet command knows
nothing.
-/

namespace BearerSession

/-- The streams have the same data on them. -/
def Streams.SameData (s s' : Streams) : Prop := s.out = s'.out

namespace Output

variable {o o' : Output} {s s' : Streams}

/-- Outputs that differ in how much is said to people, and in nothing else. -/
structure LoudnessApart (o o' : Output) : Prop where
  format : o.format = o'.format
  colourless : o.colourless = o'.colourless
  display : o.display = o'.display

/-- What people are told is told the same and leaves data alone. -/
theorem say_inStep (h : o.LoudnessApart o') (tone : Tone) (text : String) :
    InStep Streams.SameData (o.say tone text) (o'.say tone text) Eq := by
  intro s s' hs
  unfold say
  rw [h.display, h.colourless]
  cases o'.display.line o'.colourless tone text with
  | ok shown => exact .ok rfl hs
  | error fault => exact .error _ hs

/-- Data are written the same wherever standard output has the same on it. -/
theorem data_inStep (h : o.LoudnessApart o') (text : String) :
    InStep Streams.SameData (o.data text) (o'.data text) Eq := by
  intro s s' hs
  unfold data
  rw [h.display]
  cases o'.display.refusal? text with
  | none => exact .ok rfl (congrArg (· ++ text ++ "\n") hs)
  | some report => exact .error _ hs

/-- So are maps. -/
theorem mapping_inStep (h : o.LoudnessApart o') (title : Option String)
    (entries : List (String × Value)) :
    InStep Streams.SameData (o.mapping title entries) (o'.mapping title entries) Eq := by
  unfold mapping
  rw [h.format]
  cases o'.format with
  | json => exact data_inStep h _
  | plain => exact .forM entries fun entry => data_inStep h (row entry)
  | rich =>
    intro s s' hs
    dsimp only
    rw [h.display]
    split
    · next table _ => exact .ok rfl (congrArg (· ++ table) hs)
    · exact .error _ hs

/-- What rows make of standard output. -/
def printed (entries : List (String × Value)) : String :=
  String.join (entries.map fun entry => row entry ++ "\n")

/-- What is printed of rows when one of them is not taken: those before the first such one. -/
def CutOff (display : Display) (entries : List (String × Value)) (out : String) : Prop :=
  ∃ before entry after, entries = before ++ entry :: after ∧
    (display.refusal? (row entry)).isSome ∧ out = printed before

/-- Data that are not taken leave nothing behind. -/
theorem data_cases (o : Output) (text : String) (s : Streams) :
    o.data text s = .ok () { s with out := s.out ++ text ++ "\n" } ∨
      (o.display.refusal? text).isSome ∧ ∃ e, o.data text s = .error e s := by
  unfold data
  cases o.display.refusal? text with
  | none => exact .inl rfl
  | some report => exact .inr ⟨rfl, _, rfl⟩

/-- Rows are printed up to the first that is not taken. -/
theorem rows_cases (o : Output) (entries : List (String × Value)) (s : Streams) :
    (entries.forM fun entry => o.data (row entry)) s =
        .ok () { s with out := s.out ++ printed entries } ∨
      ∃ out e, CutOff o.display entries out ∧
        (entries.forM fun entry => o.data (row entry)) s =
          .error e { s with out := s.out ++ out } := by
  induction entries generalizing s with
  | nil => exact .inl (congrArg (EStateM.Result.ok ()) (by simp [printed]))
  | cons entry rest ih =>
    rw [show (entry :: rest).forM (fun entry => o.data (row entry)) =
      (o.data (row entry) >>= fun _ => rest.forM fun entry => o.data (row entry)) from rfl,
      Act.bind_apply]
    obtain hok | ⟨hrefused, e, herror⟩ := data_cases o (row entry) s
    · have hjoin (l : List (String × Value)) :
          s.out ++ row entry ++ "\n" ++ printed l = s.out ++ printed (entry :: l) := by
        simp only [printed, List.map_cons, String.join_cons, String.append_assoc]
      rw [hok]
      obtain hrest | ⟨out, e, ⟨before, refused, after, rfl, hrefused, rfl⟩, hrest⟩ :=
        ih { s with out := s.out ++ row entry ++ "\n" }
      · exact .inl (by rw [← hjoin]; exact hrest)
      · exact .inr ⟨_, e, ⟨entry :: before, refused, after, rfl, hrefused, rfl⟩,
          by rw [← hjoin]; exact hrest⟩
    · rw [herror]
      exact .inr ⟨"", e, ⟨[], entry, rest, rfl, hrefused, by simp [printed]⟩, by simp⟩

/-- A map that cannot be written is cut off, if its rows are plain, or not written at all. -/
theorem mapping_eq_error {title : Option String} {entries : List (String × Value)} {e : Raised}
    (h : o.mapping title entries s = .error e s') :
    s'.out = s.out ∨ o.format = .plain ∧
      ∃ out, CutOff o.display entries out ∧ s'.out = s.out ++ out := by
  unfold mapping at h
  cases hformat : o.format with
  | json =>
    rw [hformat] at h
    obtain hok | ⟨-, e', herror⟩ := data_cases o
      (String.ofList (Json.write .screen 0 (.map entries) [])) s
    · cases hok.symm.trans h
    · cases herror.symm.trans h
      exact .inl rfl
  | plain =>
    rw [hformat] at h
    obtain hok | ⟨out, e', hcut, herror⟩ := rows_cases o entries s
    · cases hok.symm.trans h
    · cases herror.symm.trans h
      exact .inr ⟨rfl, out, hcut, rfl⟩
  | rich =>
    rw [hformat] at h
    dsimp only at h
    split at h
    · contradiction
    · cases h
      exact .inl rfl

end Output

namespace Command

variable {o : Overrides} {output output' : Output} {m : Machine}

/-- Whether what is written to standard error reports an error: its last line does, or a message in
a frame, or what is shown of an error that nothing has handled. -/
def ReportsError (display : Display) (err : String) : Prop :=
  (∃ colourless before message shown, display.line colourless .error message = .ok shown ∧
    err = before ++ shown) ∨
  (∃ e : UsageError, err = framed e.text) ∨
  ∃ before e, err = before ++ display.traceback e

/-- A misused command line is said to be one. -/
theorem streams_misuse (e : UsageError) : (misuse e).streams = ⟨"", framed e.text⟩ := by
  cases e <;> rfl

/-- A report says an error and leaves data alone. -/
theorem streams_reported (output : Output) (e : Raised) (s : Streams) :
    (reported output e s).streams.out = s.out ∧
      ReportsError output.display (reported output e s).streams.err := by
  unfold reported
  obtain ⟨message, shown, hshown, hreport⟩ | ⟨-, e', hreport⟩ := report_cases output e s
  · rw [hreport]
    exact ⟨rfl, .inl ⟨output.colourless, s.err, message, shown, hshown, rfl⟩⟩
  · rw [hreport]
    exact ⟨rfl, .inr (.inr ⟨s.err, e', rfl⟩)⟩

/-- Before a task has its answer there is nothing on standard output. -/
theorem out_said (task : Task) : (task.said o output m).out = "" := by
  have hdebug (text : String) (s : Streams) : ((output.debug text).after s).out = s.out := by
    unfold Output.debug
    cases output.verbose with
    | true =>
      simp only [if_true, Act.after, Output.say]
      cases output.display.line output.colourless .detail text <;> rfl
    | false => rfl
  unfold Task.said
  split
  · exact hdebug _ _
  · rfl

/-- An answer that cannot be written is cut off or not written at all. -/
theorem write_eq_error {a : Answer} {s s' : Streams} {e : Raised}
    (h : a.write output s = .error e s') :
    s'.out = s.out ∨ output.format = .plain ∧
      ∃ title entries out, a = .entries title entries ∧
        Output.CutOff output.display entries out ∧ s'.out = s.out ++ out := by
  have hsay {tone : Tone} {text : String} (h : output.say tone text s = .error e s') :
      s'.out = s.out := by
    unfold Output.say at h
    split at h <;> cases h
    rfl
  have hdata {text : String} (h : output.data text s = .error e s') : s'.out = s.out := by
    obtain hok | ⟨-, e', herror⟩ := output.data_cases text s
    · cases hok.symm.trans h
    · cases herror.symm.trans h
      rfl
  have hquiet {tone : Tone} {text : String}
      (h : (if output.quiet then pure () else output.say tone text) s = .error e s') :
      s'.out = s.out := by
    split at h
    · contradiction
    · exact hsay h
  cases a with
  | entries title entries =>
    refine (Output.mapping_eq_error h).imp_right ?_
    rintro ⟨hformat, out, hcut, hout⟩
    exact ⟨hformat, title, entries, out, rfl, hcut, hout⟩
  | line text => exact .inl (hdata h)
  | required b =>
    rw [Answer.write] at h
    split at h
    · next hformat =>
      rw [Output.mapping, hformat] at h
      exact .inl (hdata h)
    · exact .inl (hdata h)
  | confirmation text => exact .inl (hquiet h)
  | remark text => exact .inl (hquiet h)
  | noHeader => exact .inl (hsay h)

/-- A task that does not end with success reports an error, and writes no data but the rows of its
answer before one that is not taken. -/
theorem concluded_of_failure {said : Streams} (hsaid : said.out = "")
    {r : EStateM.Result Raised Machine Answer}
    (h : (concluded output said r).1.exitCode ≠ success) :
    ReportsError output.display (concluded output said r).1.streams.err ∧
      ((concluded output said r).1.streams.out = "" ∨ output.format = .plain ∧
        ∃ title entries m', r = .ok (.entries title entries) m' ∧
          Output.CutOff output.display entries (concluded output said r).1.streams.out) := by
  cases r with
  | error e m =>
    obtain ⟨hout, hreports⟩ := streams_reported output e said
    exact ⟨hreports, .inl (hout.trans hsaid)⟩
  | ok a m =>
    unfold concluded at h ⊢
    dsimp only at h ⊢
    cases hwrite : a.write output said with
    | ok _ s =>
      rw [hwrite] at h
      cases a with
      | noHeader =>
        change output.say .error _ said = _ at hwrite
        unfold Output.say at hwrite
        split at hwrite
        · next shown hshown =>
          cases hwrite
          exact ⟨.inl ⟨output.colourless, said.err, _, shown, hshown, rfl⟩, .inl hsaid⟩
        · contradiction
      | _ => exact absurd rfl h
    | error e s =>
      obtain ⟨hout, hreports⟩ := streams_reported output e s
      refine ⟨hreports, ?_⟩
      obtain hsame | ⟨hformat, title, entries, out, rfl, hcut, hcutOff⟩ := write_eq_error hwrite
      · exact .inl (hout.trans (hsame.trans hsaid))
      · refine .inr ⟨hformat, title, entries, m, rfl, ?_⟩
        dsimp only
        rwa [hout, hcutOff, hsaid, String.empty_append]

/-- A command line that does not end with success has reported an error, and has written no data but
the rows of its answer before one that is not taken. -/
theorem run_of_failure {args : List String} {display : Display}
    (h : (run args display m).1.exitCode ≠ success) :
    ReportsError display (run args display m).1.streams.err ∧
      ((run args display m).1.streams.out = "" ∨
        ∃ o wish task title entries m',
          Invocation.ofArguments args = .ok (.perform o wish task) ∧
          (Output.ofWish wish display m).format = .plain ∧
          task.answer o m = .ok (.entries title entries) m' ∧
          Output.CutOff display entries (run args display m).1.streams.out) := by
  cases hargs : Invocation.ofArguments args with
  | error e =>
    have hrun : run args display m = (misuse e, m) := by simp only [run, hargs]
    rw [hrun, streams_misuse]
    exact ⟨.inr (.inl ⟨e, rfl⟩), .inl rfl⟩
  | ok asked =>
    cases asked with
    | perform o wish task =>
      rw [run_of_perform hargs] at h ⊢
      obtain ⟨hreports, hout⟩ := concluded_of_failure (out_said task) h
      refine ⟨hreports, hout.imp_right ?_⟩
      rintro ⟨hformat, title, entries, m', hanswer, hcut⟩
      exact ⟨o, wish, task, title, entries, m', rfl, hformat, hanswer, hcut⟩
    | _ =>
      simp only [run, hargs] at h
      exact absurd rfl h

section Confirmation

/-- Whether an answer only confirms, by a text that quiet output leaves out. -/
structure Answer.Confirms (a : Answer) (tone : Tone) (text : String) : Prop where
  code : a.code = success
  write : ∀ o : Output, a.write o = if o.quiet then pure () else o.say tone text

theorem confirms_confirmation (text : String) :
    (Answer.confirmation text).Confirms .confirmation text := ⟨rfl, fun _ => rfl⟩

theorem confirms_remark (text : String) : (Answer.remark text).Confirms .note text :=
  ⟨rfl, fun _ => rfl⟩

variable {a : Answer} {tone : Tone} {text : String} (ha : a.Confirms tone text)

include ha

/-- A quiet command only ends with success. -/
theorem confirmed_of_quiet (hquiet : output.quiet = true) (said : Streams) (m : Machine) :
    (concluded output said (.ok a m)).1 = .finished success said := by
  rw [concluded, ha.write, if_pos hquiet, ha.code]
  rfl

/-- Any other one shows its confirmation, or this is wrong as markup, and the command fails. -/
theorem confirmed_of_loud (hloud : output.quiet = false) (said : Streams) (m : Machine) :
    (∃ err, (concluded output said (.ok a m)).1 = .finished success ⟨said.out, err⟩) ∨
      (output.colourless = false ∧ ∃ fault, output.display.line false tone text = .error fault) ∧
        (concluded output said (.ok a m)).1.exitCode = ErrorKind.session.exitCode ∧
        (concluded output said (.ok a m)).1.streams.out = said.out := by
  rw [concluded, ha.write, if_neg (by rw [hloud]; exact Bool.false_ne_true), ha.code, Output.say]
  cases hcolourless : output.colourless with
  | true => exact .inl ⟨_, rfl⟩
  | false =>
    cases hline : output.display.line false tone text with
    | ok shown => exact .inl ⟨_, rfl⟩
    | error fault =>
      exact .inr ⟨⟨rfl, fault, rfl⟩, exitCode_reported output (.unshown fault) said,
        (streams_reported output (.unshown fault) said).1⟩

/-- So the exit code is that of success, unless a confirmation is wrong as markup. -/
theorem exitCode_confirmed (output : Output) (said : Streams) (m : Machine) :
    (concluded output said (.ok a m)).1.exitCode = success ∨
      (concluded output said (.ok a m)).1.exitCode = ErrorKind.session.exitCode ∧
        output.quiet = false ∧ output.colourless = false ∧
        ∃ fault, output.display.line false tone text = .error fault := by
  cases hquiet : output.quiet with
  | true => exact .inl (congrArg Ending.exitCode (confirmed_of_quiet ha hquiet said m))
  | false =>
    obtain ⟨err, hend⟩ | ⟨⟨hcolourless, hline⟩, hcode, -⟩ := confirmed_of_loud ha hquiet said m
    · exact .inl (congrArg Ending.exitCode hend)
    · exact .inr ⟨hcode, rfl, hcolourless, hline⟩

/-- Where there is no bracket in it, it is not. -/
theorem exists_confirmed (htext : '[' ∉ text.toList) (output : Output) (said : Streams)
    (m : Machine) : ∃ streams, (concluded output said (.ok a m)).1 = .finished success streams := by
  cases hquiet : output.quiet with
  | true => exact ⟨said, confirmed_of_quiet ha hquiet said m⟩
  | false =>
    obtain ⟨err, hend⟩ | ⟨⟨-, fault, hline⟩, -⟩ := confirmed_of_loud ha hquiet said m
    · exact ⟨_, hend⟩
    · obtain ⟨shown, hshown⟩ := output.display.line_eq_ok false tone htext
      cases hshown.symm.trans hline

end Confirmation

section Loudness

/-- A report says an error with the same exit code. -/
theorem exitCode_reported_congr (h : output.LoudnessApart output') (e : Raised) (s s' : Streams) :
    (reported output e s).exitCode = (reported output' e s').exitCode := by
  simp only [exitCode_reported, reportCode, h.display, h.colourless]

/-- A quiet output ends with success where a loud one fails, because the answer only confirms and
its text is wrong as markup. -/
structure Outdoes (quiet loud : Output) (answered : EStateM.Result Raised Machine Answer)
    (r r' : Ending) : Prop where
  isQuiet : quiet.quiet = true
  isLoud : loud.quiet = false
  coloured : loud.colourless = false
  unshown : ∃ a m tone text fault, answered = .ok a m ∧ a.Confirms tone text ∧
    loud.display.line false tone text = .error fault
  succeeds : r.exitCode = success
  fails : r'.exitCode = ErrorKind.session.exitCode

/-- The endings of runs that differ in how loud they are: with the same data and the same exit code,
unless one outdoes the other. -/
structure EndAlike (output output' : Output) (answered : EStateM.Result Raised Machine Answer)
    (r r' : Ending) : Prop where
  out : r.streams.out = r'.streams.out
  exitCode : r.exitCode = r'.exitCode ∨ Outdoes output output' answered r r' ∨
    Outdoes output' output answered r' r

theorem EndAlike.symm {answered : EStateM.Result Raised Machine Answer} {r r' : Ending}
    (h : EndAlike output output' answered r r') : EndAlike output' output answered r' r :=
  ⟨h.out.symm, h.exitCode.imp Eq.symm Or.symm⟩

/-- What is written in step ends alike. -/
theorem concluded_inStep (h : output.LoudnessApart output') {said said' : Streams}
    (hsaid : said.SameData said') (a : Answer)
    (ha : InStep Streams.SameData (a.write output) (a.write output') Eq) (m : Machine) :
    EndAlike output output' (.ok a m) (concluded output said (.ok a m)).1
      (concluded output' said' (.ok a m)).1 := by
  have hwrite := ha said said' hsaid
  unfold concluded
  dsimp only
  generalize a.write output said = r at hwrite ⊢
  generalize a.write output' said' = r' at hwrite ⊢
  cases hwrite with
  | ok _ hs => exact ⟨hs, .inl rfl⟩
  | @error s s' e hs =>
    refine ⟨?_, .inl (exitCode_reported_congr h e s s')⟩
    exact (streams_reported output e s).1.trans (hs.trans (streams_reported output' e s').1.symm)

/-- What only confirms is left out by a quiet output, which ends like a loud one or outdoes it. -/
theorem confirmed_endAlike_of_quiet {said said' : Streams} (hsaid : said.SameData said')
    {a : Answer} {tone : Tone} {text : String} (ha : a.Confirms tone text)
    (hquiet : output.quiet = true) (hloud : output'.quiet = false) (m : Machine) :
    EndAlike output output' (.ok a m) (concluded output said (.ok a m)).1
      (concluded output' said' (.ok a m)).1 := by
  rw [confirmed_of_quiet ha hquiet]
  obtain ⟨err, hend⟩ | ⟨⟨hcoloured, fault, hline⟩, hfails, hout⟩ :=
    confirmed_of_loud ha hloud said' m
  · rw [hend]
    exact ⟨hsaid, .inl rfl⟩
  · refine ⟨hsaid.trans hout.symm, .inr (.inl ?_)⟩
    exact ⟨hquiet, hloud, hcoloured, ⟨a, m, tone, text, fault, rfl, ha, hline⟩, rfl, hfails⟩

/-- However loud the outputs are, what only confirms ends alike. -/
theorem confirmed_endAlike (h : output.LoudnessApart output') {said said' : Streams}
    (hsaid : said.SameData said') {a : Answer} {tone : Tone} {text : String}
    (ha : a.Confirms tone text) (m : Machine) :
    EndAlike output output' (.ok a m) (concluded output said (.ok a m)).1
      (concluded output' said' (.ok a m)).1 := by
  cases hone : output.quiet with
  | true =>
    cases hother : output'.quiet with
    | true =>
      rw [confirmed_of_quiet ha hone, confirmed_of_quiet ha hother]
      exact ⟨hsaid, .inl rfl⟩
    | false => exact confirmed_endAlike_of_quiet hsaid ha hone hother m
  | false =>
    cases hother : output'.quiet with
    | true => exact (confirmed_endAlike_of_quiet hsaid.symm ha hother hone m).symm
    | false =>
      refine concluded_inStep h hsaid a ?_ m
      rw [ha.write, ha.write, hone, hother]
      exact Output.say_inStep h tone text

/-- However loud it is, a task ends alike. -/
theorem concluded_endAlike (h : output.LoudnessApart output') {said said' : Streams}
    (hsaid : said.SameData said') (r : EStateM.Result Raised Machine Answer) :
    (concluded output said r).2 = (concluded output' said' r).2 ∧
      EndAlike output output' r (concluded output said r).1 (concluded output' said' r).1 := by
  refine ⟨(machine_concluded ..).trans (machine_concluded ..).symm, ?_⟩
  cases r with
  | error e m =>
    refine ⟨?_, .inl (exitCode_reported_congr h e _ _)⟩
    exact (streams_reported output e said).1.trans
      (hsaid.trans (streams_reported output' e said').1.symm)
  | ok a m =>
    cases a with
    | entries title entries =>
      exact concluded_inStep h hsaid (.entries title entries)
        (Output.mapping_inStep h title entries) m
    | line text => exact concluded_inStep h hsaid (.line text) (Output.data_inStep h text) m
    | required b =>
      refine concluded_inStep h hsaid _ ?_ m
      rw [Answer.write, Answer.write, h.format]
      split
      · exact Output.mapping_inStep h none _
      · exact Output.data_inStep h _
    | confirmation text => exact confirmed_endAlike h hsaid (confirms_confirmation text) m
    | remark text => exact confirmed_endAlike h hsaid (confirms_remark text) m
    | noHeader => exact concluded_inStep h hsaid .noHeader (Output.say_inStep h .error _) m

end Loudness

/-- What a command line asks for, with flags for quiet or verbose output. -/
def Invocation.withFlags (quiet verbose : Bool) : Invocation → Invocation
  | .perform o wish task =>
    .perform o { wish with quiet := quiet || wish.quiet, verbose := verbose || wish.verbose } task
  | other => other

/-- The flags that make a command quiet or verbose. -/
def loudnessFlags : List String := ["--quiet", "-q", "--verbose", "-v"]

section Flags

/-- A flag among the options of the program is one more option. -/
theorem scan_flag {α : Type} {specs : List (OptionSpec α)} {flag : String} {a : α}
    (hdashes : flag ≠ "--") (hoption : isOption flag.toList = true)
    (htake : take specs flag.toList = .ok (.done [a])) (among : Bool) (args : List String) :
    scan specs among (flag :: args) =
      (scan specs among args).map fun found => (a :: found.1, found.2) := by
  rw [scan, if_neg hdashes, if_pos hoption, htake]
  rfl

/-- What the words of a command line ask for is made of their task, unless they ask for the version
or for help. -/
theorem readTask_withFlags (quiet verbose : Bool) (p : Task → Invocation) (words : List String) :
    readTask (fun task => (p task).withFlags quiet verbose) words =
      (readTask p words).map (Invocation.withFlags quiet verbose) := by
  have helim (found : Except UsageError (Option Task)) :
      (found.map fun task => task.elim .help fun task => (p task).withFlags quiet verbose) =
        (found.map fun task => task.elim .help p).map (Invocation.withFlags quiet verbose) := by
    cases found with
    | error e => rfl
    | ok task => cases task <;> rfl
  cases words with
  | nil => rfl
  | cons name args =>
    simp only [readTask]
    split
    · exact helim _
    · exact helim _
    · -- options that come too late are answered at once or not at all
      unfold lateAnswer
      cases scan globalOptions false (name :: args) with
      | error e => rfl
      | ok found =>
        simp only [bind, Except.bind]
        cases hanswer : found.1.findSome? immediate? with
        | none => rfl
        | some answer =>
          obtain ⟨a, -, ha⟩ := List.exists_of_findSome?_eq_some hanswer
          cases a <;> cases ha <;> rfl

/-- A flag for quiet or verbose output in front of a command line leaves what it asks for. -/
theorem ofArguments_flag {flag : String} (hflag : flag ∈ loudnessFlags) (args : List String) :
    ∃ quiet verbose, Invocation.ofArguments (flag :: args) =
      (Invocation.ofArguments args).map (Invocation.withFlags quiet verbose) := by
  obtain ⟨a, ha, hscan⟩ : ∃ a : GlobalOption, (a = .quiet ∨ a = .verbose) ∧
      scan globalOptions false (flag :: args) =
        (scan globalOptions false args).map fun found => (a :: found.1, found.2) := by
    simp only [loudnessFlags, List.mem_cons, List.not_mem_nil, or_false] at hflag
    rcases hflag with rfl | rfl | rfl | rfl
    · exact ⟨.quiet, .inl rfl, scan_flag (by decide) (by decide) rfl _ _⟩
    · exact ⟨.quiet, .inl rfl, scan_flag (by decide) (by decide) rfl _ _⟩
    · exact ⟨.verbose, .inr rfl, scan_flag (by decide) (by decide) rfl _ _⟩
    · exact ⟨.verbose, .inr rfl, scan_flag (by decide) (by decide) rfl _ _⟩
  refine ⟨a == .quiet, a == .verbose, ?_⟩
  -- one more option of that kind shows in the wish alone
  simp only [Invocation.ofArguments, hscan]
  cases scan globalOptions false args with
  | error e => rfl
  | ok found =>
    obtain ⟨options, words⟩ := found
    have hanswer : (a :: options).findSome? immediate? = options.findSome? immediate? := by
      rcases ha with rfl | rfl <;> rfl
    have hasked : Invocation.perform (overridesOf (a :: options)) (wishOf (a :: options)) =
        fun task => (Invocation.perform (overridesOf options) (wishOf options) task).withFlags
          (a == .quiet) (a == .verbose) := by
      funext task
      rcases ha with rfl | rfl <;> simp [Invocation.withFlags, wishOf] <;> rfl
    simp only [Except.map, bind, Except.bind, hanswer, hasked]
    cases hfound : options.findSome? immediate? with
    | some answer =>
      obtain ⟨b, -, hb⟩ := List.exists_of_findSome?_eq_some hfound
      cases b <;> cases hb <;> rfl
    | none => exact readTask_withFlags ..

/-- So do any such flags. -/
theorem ofArguments_flags {flags : List String} (hflags : ∀ flag ∈ flags, flag ∈ loudnessFlags)
    (args : List String) :
    ∃ quiet verbose, Invocation.ofArguments (flags ++ args) =
      (Invocation.ofArguments args).map (Invocation.withFlags quiet verbose) := by
  induction flags with
  | nil =>
    refine ⟨false, false, ?_⟩
    have hself (asked : Invocation) : asked.withFlags false false = asked := by cases asked <;> rfl
    rw [List.nil_append]
    cases Invocation.ofArguments args with
    | error e => rfl
    | ok asked => exact congrArg Except.ok (hself asked).symm
  | cons flag rest ih =>
    rw [List.forall_mem_cons] at hflags
    obtain ⟨quiet, verbose, hrest⟩ := ih hflags.2
    obtain ⟨quiet', verbose', hfirst⟩ := ofArguments_flag hflags.1 (rest ++ args)
    refine ⟨quiet' || quiet, verbose' || verbose, ?_⟩
    rw [List.cons_append, hfirst, hrest]
    cases Invocation.ofArguments args with
    | error e => rfl
    | ok asked =>
      refine congrArg Except.ok ?_
      cases asked <;> simp only [Invocation.withFlags, Bool.or_assoc]

end Flags

/-- What a command line asks for, whether or not it is to be quiet or verbose about it. -/
def Invocation.regardless : Invocation → Invocation
  | .perform o wish task => .perform o { wish with quiet := false, verbose := false } task
  | other => other

/-- What asks for the same is the same, or asks for the same task in the same format. -/
theorem Invocation.regardless_cases {asked asked' : Invocation}
    (h : asked.regardless = asked'.regardless) :
    asked = asked' ∨ ∃ o task wish wish', asked = .perform o wish task ∧
      asked' = .perform o wish' task ∧ ∀ display m,
        (Output.ofWish wish display m).LoudnessApart (Output.ofWish wish' display m) := by
  cases asked with
  | perform o wish task =>
    cases asked' with
    | perform o' wish' task' =>
      obtain ⟨rfl, hwish, rfl⟩ := Invocation.perform.inj h
      obtain ⟨hformat, hcolour, -⟩ := OutputWish.mk.inj hwish
      refine .inr ⟨o, task, wish, wish', rfl, rfl, fun display m => ?_⟩
      constructor <;> simp only [Output.ofWish, hformat, hcolour]
    | _ => contradiction
  | version => cases asked' <;> first | exact .inl rfl | contradiction
  | help => cases asked' <;> first | exact .inl rfl | contradiction

/-- Whether a command line asks for something to be done quietly. -/
def IsQuiet (args : List String) : Prop :=
  ∃ o wish task, Invocation.ofArguments args = .ok (.perform o wish task) ∧ wish.quiet = true

/-- Whether a quiet command line ends with success where one that asks for the same fails because it
is not quiet: its answer only confirms, and the text that it has to show is wrong as markup. -/
structure Unconfirmed (quiet loud : List String) (display : Display) (m : Machine) : Prop where
  isQuiet : IsQuiet quiet
  isLoud : ¬ IsQuiet loud
  succeeds : (run quiet display m).1.exitCode = success
  fails : (run loud display m).1.exitCode = ErrorKind.session.exitCode
  unshown : ∃ o wish task a m' tone text fault,
    Invocation.ofArguments loud = .ok (.perform o wish task) ∧
    (Output.ofWish wish display m).colourless = false ∧ task.answer o m = .ok a m' ∧
    a.Confirms tone text ∧ display.line false tone text = .error fault

section Run

variable {args args' : List String} {display : Display}

/-- What a command line does is decided by what it asks for. -/
theorem run_congr (h : Invocation.ofArguments args = Invocation.ofArguments args') :
    run args display m = run args' display m := by
  simp only [run, h]

/-- Command lines that ask for the same ask for the very same, or for the same task in the same
format. -/
theorem asked_cases (h : (Invocation.ofArguments args).map Invocation.regardless =
      (Invocation.ofArguments args').map Invocation.regardless) :
    Invocation.ofArguments args = Invocation.ofArguments args' ∨ ∃ o task wish wish',
      Invocation.ofArguments args = .ok (.perform o wish task) ∧
      Invocation.ofArguments args' = .ok (.perform o wish' task) ∧ ∀ display m,
        (Output.ofWish wish display m).LoudnessApart (Output.ofWish wish' display m) := by
  cases hargs : Invocation.ofArguments args with
  | error e =>
    cases hargs' : Invocation.ofArguments args' with
    | error e' =>
      rw [hargs, hargs'] at h
      cases h
      exact .inl rfl
    | ok asked' =>
      rw [hargs, hargs'] at h
      contradiction
  | ok asked =>
    cases hargs' : Invocation.ofArguments args' with
    | error e' =>
      rw [hargs, hargs'] at h
      contradiction
    | ok asked' =>
      rw [hargs, hargs'] at h
      obtain rfl | ⟨o, task, wish, wish', rfl, rfl, hapart⟩ :=
        Invocation.regardless_cases (Except.ok.inj h)
      · exact .inl rfl
      · exact .inr ⟨o, task, wish, wish', rfl, rfl, hapart⟩

/-- Whoever asks for a task is quiet as the wish says. -/
theorem isQuiet_iff {wish : OutputWish} {task : Task}
    (h : Invocation.ofArguments args = .ok (.perform o wish task)) :
    IsQuiet args ↔ wish.quiet = true := by
  constructor
  · rintro ⟨o', wish', task', h', hquiet⟩
    cases h.symm.trans h'
    exact hquiet
  · exact fun hquiet => ⟨o, wish, task, h, hquiet⟩

/-- So one of which the output outdoes that of another one is quiet, and the other one is not. -/
theorem Outdoes.unconfirmed {wish wish' : OutputWish} {task : Task}
    (hargs : Invocation.ofArguments args = .ok (.perform o wish task))
    (hargs' : Invocation.ofArguments args' = .ok (.perform o wish' task))
    (h : Outdoes (.ofWish wish display m) (.ofWish wish' display m) (task.answer o m)
      (run args display m).1 (run args' display m).1) : Unconfirmed args args' display m := by
  obtain ⟨a, m', tone, text, fault, hanswer, hconfirms, hline⟩ := h.unshown
  refine ⟨(isQuiet_iff hargs).mpr h.isQuiet, fun hquiet => ?_, h.succeeds, h.fails,
    o, wish', task, a, m', tone, text, fault, hargs', h.coloured, hanswer, hconfirms, hline⟩
  exact absurd (((isQuiet_iff hargs').mp hquiet).symm.trans h.isLoud) (by decide)

/-- Command lines that ask for the same end alike, however quiet or verbose they are about it. -/
theorem run_endAlike (h : (Invocation.ofArguments args).map Invocation.regardless =
      (Invocation.ofArguments args').map Invocation.regardless) (display : Display) (m : Machine) :
    (run args display m).2 = (run args' display m).2 ∧
      (run args display m).1.streams.out = (run args' display m).1.streams.out ∧
      ((run args display m).1.exitCode = (run args' display m).1.exitCode ∨
        Unconfirmed args args' display m ∨ Unconfirmed args' args display m) := by
  obtain hasked | ⟨o, task, wish, wish', hargs, hargs', hapart⟩ := asked_cases h
  · rw [run_congr hasked]
    exact ⟨rfl, rfl, .inl rfl⟩
  · have hsaid : (task.said o (.ofWish wish display m) m).SameData
        (task.said o (.ofWish wish' display m) m) := (out_said task).trans (out_said task).symm
    obtain ⟨hmachine, hout, hcode⟩ :=
      concluded_endAlike (hapart display m) hsaid (task.answer o m)
    rw [← run_of_perform hargs, ← run_of_perform hargs'] at hmachine hout hcode
    exact ⟨hmachine, hout, hcode.imp_right (Or.imp (Outdoes.unconfirmed hargs hargs')
      (Outdoes.unconfirmed hargs' hargs))⟩

/-- With more flags in front, a command line asks for the same, and is not less quiet. -/
theorem ofArguments_flags_regardless {flags : List String}
    (hflags : ∀ flag ∈ flags, flag ∈ loudnessFlags) (args : List String) :
    (Invocation.ofArguments (flags ++ args)).map Invocation.regardless =
        (Invocation.ofArguments args).map Invocation.regardless ∧
      (IsQuiet args → IsQuiet (flags ++ args)) := by
  obtain ⟨quiet, verbose, hasked⟩ := ofArguments_flags hflags args
  rw [hasked]
  refine ⟨?_, ?_⟩
  · cases Invocation.ofArguments args with
    | error e => rfl
    | ok asked => cases asked <;> rfl
  · rintro ⟨o, wish, task, hargs, hquiet⟩
    rw [hargs] at hasked
    refine (isQuiet_iff hasked).mpr ?_
    change (quiet || wish.quiet) = true
    rw [hquiet, Bool.or_true]

end Run

/-- Whatever a command line asks for, and whatever it finds on the machine: where it does not end
with success, an error is reported, even where output is quiet, and standard output is empty but for
the plain rows of an answer before one that it does not take. A command line that asks for the same
but is quiet or verbose about it writes the same data and leaves the same machine, and its exit code
is the same unless a quiet one succeeds where the other one has to show wrong markup. So one that
succeeds goes on to succeed with more such flags in front. -/
theorem run_keepsStreamsApart (args : List String) (display : Display) (m : Machine) :
    ((run args display m).1.exitCode ≠ success →
        ReportsError display (run args display m).1.streams.err ∧
          ((run args display m).1.streams.out = "" ∨
            ∃ o wish task title entries m',
              Invocation.ofArguments args = .ok (.perform o wish task) ∧
              (Output.ofWish wish display m).format = .plain ∧
              task.answer o m = .ok (.entries title entries) m' ∧
              Output.CutOff display entries (run args display m).1.streams.out)) ∧
      (∀ args', (Invocation.ofArguments args').map Invocation.regardless =
          (Invocation.ofArguments args).map Invocation.regardless →
        (run args' display m).2 = (run args display m).2 ∧
          (run args' display m).1.streams.out = (run args display m).1.streams.out ∧
          ((run args' display m).1.exitCode = (run args display m).1.exitCode ∨
            Unconfirmed args' args display m ∨ Unconfirmed args args' display m)) ∧
      ∀ flags : List String, (∀ flag ∈ flags, flag ∈ loudnessFlags) →
        (run (flags ++ args) display m).2 = (run args display m).2 ∧
          (run (flags ++ args) display m).1.streams.out = (run args display m).1.streams.out ∧
          ((run (flags ++ args) display m).1.exitCode = (run args display m).1.exitCode ∨
            Unconfirmed (flags ++ args) args display m) := by
  refine ⟨run_of_failure, fun args' h => run_endAlike h display m, fun flags hflags => ?_⟩
  obtain ⟨hregardless, hquiet⟩ := ofArguments_flags_regardless hflags args
  obtain ⟨hmachine, hout, hcode⟩ := run_endAlike hregardless display m
  refine ⟨hmachine, hout, hcode.imp_right fun h => ?_⟩
  obtain h | h := h
  · exact h
  · exact absurd (hquiet h.isQuiet) h.isLoud

/-- A quiet command line that sets a policy of which there is none ends with an error that is
reported, and prints nothing; a flag for details in front of it changes neither. -/
theorem unknownPolicy_keepsStreamsApart :
    let m : Machine := ⟨.empty, [], ⟨"Linux", "", ""⟩, 0⟩
    let loud := run ["--quiet", "policy", "set", "sometimes"] (.plain false) m
    let louder := run ["--verbose", "--quiet", "policy", "set", "sometimes"] (.plain false) m
    loud.1.exitCode ≠ success ∧ ReportsError (.plain false) loud.1.streams.err ∧
      louder.1.streams.out = loud.1.streams.out := by
  intro m loud louder
  have hcode : loud.1.exitCode ≠ success := by decide
  obtain ⟨hfailure, -, hflags⟩ :=
    run_keepsStreamsApart ["--quiet", "policy", "set", "sometimes"] (.plain false) m
  exact ⟨hcode, (hfailure hcode).1, (hflags ["--verbose"] (by decide)).2.1⟩

/-- A display of which standard output takes nothing but ASCII. -/
def asciiDisplay : Display :=
  { Display.plain false with
    refusal? := fun text =>
      if text.toList.all (·.toNat < 0x80) then none else some "ordinal not in range(128)"
    refusal?_ascii := fun text h => if_pos (List.all_eq_true.mpr fun c hc => by simp [h c hc]) }

/-- A value that is wrong as markup can be set quietly, and is set but not confirmed otherwise. And
a configuration with a letter that standard output does not take is shown in part, by a command that
fails. -/
theorem quietly_unlike_loudly :
    let m : Machine := ⟨.empty, [("HOME", "/home")], ⟨"Linux", "", ""⟩, 0⟩
    let set : List String := ["--config", "/c.json", "config", "set", "app_id", "[/x]"]
    let stored : List UInt8 :=
      Text.Utf8.encode "\x7b\"app_id\": \"a\", \"app_version\": \"é\"\x7d".toList
    let shown := run ["--plain", "--config", "/c.json", "config", "show"] asciiDisplay
      { m with disk := m.disk.put ["c.json"] (.file stored Disk.privateMode) }
    (run ("--quiet" :: set) (.plain false) m).1.exitCode = success ∧
      (run set (.plain false) m).1.exitCode = 1 ∧
      shown.1.exitCode = 1 ∧ shown.1.streams.out = "app_id\ta\n" :=
  ⟨by decide +kernel, by decide +kernel, by decide +kernel, by decide +kernel⟩

end Command

end BearerSession
