import Mathlib
import BearerSession.Proofs.Command.Answer
import BearerSession.Proofs.Header.Challenge
import BearerSession.Proofs.Number.Word
import BearerSession.Proofs.Value.Entries

/-!
# Checking a response on the command line

The command that decides on a status and headers reads each header as its name and its value, groups
the values by the spelling of their names, and so decides as all other forms of the same headers do.
-/

namespace BearerSession

/-- Whether a text is the name of a header: letters, digits and hyphens of ASCII, at least one. -/
def Headers.IsName (name : String) : Prop :=
  name ≠ "" ∧ ∀ c ∈ name.toList, c.isAlphanum ∨ c = '-'

/-- Whether a text is the value of a header: visible ASCII characters, with spaces only between
them. -/
def Headers.IsContent (value : String) : Prop :=
  (∀ c ∈ value.toList, 0x20 ≤ c.toNat ∧ c.toNat < 0x7F) ∧
    value.toList.head? ≠ some ' ' ∧ value.toList.getLast? ≠ some ' '

/-- Whether pairs are names and values of headers. -/
def Headers.WellFormed (pairs : List (String × String)) : Prop :=
  ∀ p ∈ pairs, IsName p.1 ∧ IsContent p.2

namespace Headers

variable {name value : String} {pairs : List (String × String)}

/-- The range of the characters of a name. -/
theorem IsName.range (h : IsName name) :
    ∀ c ∈ name.toList, 0x2D ≤ c.toNat ∧ c.toNat < 0x7F ∧ c ≠ ':' := by
  intro c hc
  rcases h.2 c hc with halnum | rfl
  · simp only [Char.isAlphanum, Char.isAlpha, Char.isUpper, Char.isLower, Char.isDigit,
      Bool.or_eq_true, decide_eq_true_eq, Bool.and_eq_true, UInt32.le_iff_toNat_le] at halnum
    change ((65 ≤ c.toNat ∧ c.toNat ≤ 90) ∨ (97 ≤ c.toNat ∧ c.toNat ≤ 122)) ∨
      (48 ≤ c.toNat ∧ c.toNat ≤ 57) at halnum
    refine ⟨by omega, by omega, ?_⟩
    rintro rfl
    exact absurd halnum (by decide)
  · decide

/-- Names and values of headers are ASCII. -/
theorem WellFormed.allAscii (h : WellFormed pairs) : Fields.AllAscii pairs := by
  intro p hp
  obtain ⟨hname, hvalue⟩ := h p hp
  simp only [Text.isAscii, List.all_eq_true, decide_eq_true_eq]
  refine ⟨fun c hc => ?_, fun c hc => ?_⟩
  · have hrange := hname.range c hc
    omega
  · have hrange := hvalue.1 c hc
    omega

end Headers

namespace Command

open Headers (IsName IsContent WellFormed)

variable {name value : String} {pairs : List (String × String)}

/-- Of the visible characters of ASCII only the space is blank. -/
theorem isBlank_eq_false {c : Char} (hrange : 0x20 ≤ c.toNat ∧ c.toNat < 0x7F) (hspace : c ≠ ' ') :
    Text.isBlank c = false := by
  have hne : c.toNat ≠ 0x20 := fun h => hspace (Char.ext (UInt32.toNat_inj.mp h))
  simp [Text.isBlank, Text.isWhiteSpace]
  omega

/-- A header is read as its name and its value. -/
theorem readHeader_eq_ok (hname : IsName name) (hvalue : IsContent value) :
    readHeader (name ++ ": " ++ value) = .ok (name, value) := by
  have hlist : (name ++ ": " ++ value).toList = name.toList ++ ':' :: ' ' :: value.toList := by
    simp
  have hcolon : ∀ c ∈ name.toList, decide (c ≠ ':') = true := fun c hc =>
    decide_eq_true (hname.range c hc).2.2
  have hbefore : (name.toList ++ ':' :: ' ' :: value.toList).takeWhile (· ≠ ':') = name.toList := by
    rw [List.takeWhile_append_of_pos hcolon]
    simp
  have hafter : (name.toList ++ ':' :: ' ' :: value.toList).dropWhile (· ≠ ':') =
      ':' :: ' ' :: value.toList := by
    rw [List.dropWhile_append_of_pos hcolon]
    simp
  have hname' : ∀ c ∈ name.toList, Text.isBlank c = false := fun c hc => by
    have hrange := hname.range c hc
    refine isBlank_eq_false ⟨by omega, hrange.2.1⟩ ?_
    rintro rfl
    exact absurd hrange.1 (by decide)
  have htrimName : Text.trim (String.ofList name.toList) = name := by
    rw [Text.trim, Text.trimBy, String.toList_ofList, Text.trimList_eq_self
      (fun c hc => hname' c (List.mem_of_mem_head? hc))
      (fun c hc => hname' c (List.mem_of_getLast? hc)), String.ofList_toList]
  have htrimValue : Text.trim (String.ofList (' ' :: value.toList)) = value := by
    have hself : Text.trimList Text.isBlank value.toList = value.toList := by
      refine Text.trimList_eq_self (fun c hc => ?_) (fun c hc => ?_)
      · refine isBlank_eq_false (hvalue.1 c (List.mem_of_mem_head? hc)) ?_
        rintro rfl
        exact hvalue.2.1 hc
      · refine isBlank_eq_false (hvalue.1 c (List.mem_of_getLast? hc)) ?_
        rintro rfl
        exact hvalue.2.2 hc
    have hspace : Text.trimList Text.isBlank (' ' :: value.toList) =
        Text.trimList Text.isBlank value.toList := rfl
    rw [Text.trim, Text.trimBy, String.toList_ofList, hspace, hself, String.ofList_toList]
  have hempty : name.isEmpty = false := by simpa using hname.1
  unfold readHeader
  simp only [hlist, hbefore, hafter, htrimName, htrimValue, hempty]
  rfl

/-- Headers of which each can be read are read in order. -/
theorem mapM_readHeader (h : WellFormed pairs) :
    (pairs.map fun p => p.1 ++ ": " ++ p.2).mapM readHeader = .ok pairs := by
  induction pairs with
  | nil => rfl
  | cons p rest ih =>
    obtain ⟨hname, hvalue⟩ := h p List.mem_cons_self
    have hrest := ih fun q hq => h q (List.mem_cons_of_mem p hq)
    simp only [List.map_cons, List.mapM_cons, readHeader_eq_ok hname hvalue, hrest, bind,
      Except.bind]
    rfl

section Groups

variable {names : List String} (f : String → List Value)

/-- What is found in a map from names is what the names have. -/
theorem find?_map_names (key : String) :
    Value.find? (names.map fun n => (n, f n)) key = if key ∈ names then some (f key) else none := by
  induction names with
  | nil => rfl
  | cons n rest ih =>
    unfold Value.find? at ih ⊢
    rw [List.map_cons, List.find?_cons]
    by_cases hn : n = key
    · simp [hn]
    · simp only [hn, decide_false, ih, List.mem_cons, Ne.symm hn, false_or]

/-- Writing what one of the names has. -/
theorem insertEntry_map_names (hnames : names.Nodup) {key : String} (hkey : key ∈ names)
    (values : List Value) :
    Value.insertEntry key values (names.map fun n => (n, f n)) =
      names.map fun n => (n, if n = key then values else f n) := by
  induction names with
  | nil => contradiction
  | cons n rest ih =>
    obtain ⟨hn, hrest⟩ := List.nodup_cons.mp hnames
    rw [List.map_cons, List.map_cons, Value.insertEntry]
    by_cases hsame : n = key
    · subst hsame
      have hothers : (rest.map fun m => (m, if m = n then values else f m)) =
          rest.map fun m => (m, f m) := by
        refine List.map_congr_left fun m hm => ?_
        rw [if_neg (by rintro rfl; exact hn hm)]
      rw [hothers]
      simp
    · have hkey' : key ∈ rest := (List.mem_cons.mp hkey).resolve_left (Ne.symm hsame)
      simp only [hsame, if_false, ih hrest hkey']

end Groups

/-- One more name is kept unless it was there before. -/
theorem eraseDups_concat (names : List String) (name : String) :
    (names ++ [name]).eraseDups =
      if name ∈ names then names.eraseDups else names.eraseDups ++ [name] := by
  rw [List.eraseDups_append]
  by_cases h : name ∈ names
  · simp [List.removeAll, h]
  · simp [List.removeAll, h, List.eraseDups_cons]

/-- No name is kept twice. -/
theorem nodup_eraseDups (names : List String) : names.eraseDups.Nodup := by
  induction names using List.reverseRecOn with
  | nil => exact List.nodup_nil
  | append_singleton names name ih =>
    rw [eraseDups_concat]
    split
    · exact ih
    · next h =>
      refine List.nodup_append_comm.mp (List.nodup_cons.mpr ⟨fun hmem => ?_, ih⟩)
      exact h (List.mem_eraseDups.mp hmem)

/-- One more header joins those of its name, or comes last. -/
theorem addHeader_groups (pairs : List (String × String)) (p : String × String) :
    addHeader (Headers.groups pairs) p = Headers.groups (pairs ++ [p]) := by
  obtain ⟨name, value⟩ := p
  let values (name : String) : List Value :=
    (pairs.filter fun p => p.1 = name).map fun p => .text p.2
  have hvalues (n : String) :
      (((pairs ++ [(name, value)]).filter fun p => p.1 = n).map fun p => Value.text p.2) =
        if n = name then values name ++ [.text value] else values n := by
    by_cases hn : n = name
    · subst hn
      simp [values]
    · simp [values, hn, Ne.symm hn]
  have hgroups : Headers.groups (pairs ++ [(name, value)]) =
      (pairs.map Prod.fst ++ [name]).eraseDups.map fun n =>
        (n, if n = name then values name ++ [.text value] else values n) := by
    simp only [Headers.groups, List.map_append, List.map_cons, List.map_nil, ← hvalues]
  rw [hgroups, eraseDups_concat, addHeader]
  change Value.insertEntry name
    ((Value.find? ((pairs.map Prod.fst).eraseDups.map fun n => (n, values n)) name).getD [] ++
      [.text value]) ((pairs.map Prod.fst).eraseDups.map fun n => (n, values n)) = _
  rw [find?_map_names]
  by_cases hname : name ∈ pairs.map Prod.fst
  · rw [if_pos (List.mem_eraseDups.mpr hname), if_pos hname, Option.getD_some,
      insertEntry_map_names values (nodup_eraseDups _) (List.mem_eraseDups.mpr hname)]
  · -- A new name has no values yet, and the other names keep theirs.
    have hnone : values name = [] := by
      refine List.map_eq_nil_iff.mpr (List.filter_eq_nil_iff.mpr fun p hp hsame => ?_)
      exact hname (List.mem_map.mpr ⟨p, hp, of_decide_eq_true hsame⟩)
    have hothers : ((pairs.map Prod.fst).eraseDups.map fun n =>
          (n, if n = name then values name ++ [.text value] else values n)) =
        (pairs.map Prod.fst).eraseDups.map fun n => (n, values n) := by
      refine List.map_congr_left fun n hn => ?_
      rw [if_neg (by rintro rfl; exact hname (List.mem_eraseDups.mp hn))]
    rw [if_neg (List.mem_eraseDups.not.mpr hname), if_neg hname, Option.getD_none,
      List.map_append, hothers,
      Value.insertEntry_of_not_mem (by simpa [List.mem_eraseDups] using hname), hnone]
    simp

/-- Headers that are added one after the other are grouped by their names. -/
theorem foldl_addHeader (pairs : List (String × String)) :
    pairs.foldl addHeader [] = Headers.groups pairs := by
  induction pairs using List.reverseRecOn with
  | nil => rfl
  | append_singleton pairs p ih => rw [List.foldl_append, ih, List.foldl_cons, List.foldl_nil,
      addHeader_groups]

/-- Headers on the command line are a map from names to lists. -/
theorem readHeaders_eq_ok (h : WellFormed pairs) :
    readHeaders (pairs.map fun p => p.1 ++ ": " ++ p.2) = .ok (Headers.ofGroups pairs) := by
  simp only [readHeaders, mapM_readHeader h, bind, Except.bind, foldl_addHeader]
  rfl

/-- The arguments of a command that decides on a status and headers. -/
def checkArguments (status : Nat) (pairs : List (String × String)) : List String :=
  "check" :: toString status :: pairs.flatMap fun p => ["-H", p.1 ++ ": " ++ p.2]

/-- Header options say their headers, whatever these look like. -/
theorem scan_headers (raws : List String) :
    scan [helpOption, headerOption] true (raws.flatMap fun raw => ["-H", raw]) =
      .ok (raws.map .header, []) := by
  induction raws with
  | nil => rfl
  | cons raw rest ih =>
    have htake : take [helpOption, headerOption] "-H".toList =
        .ok (.awaits [] "-H" LocalOption.header) := rfl
    rw [List.flatMap_cons, List.cons_append, List.cons_append, List.nil_append, scan,
      if_neg (by decide), if_pos (by decide), htake]
    simp only [ih, Except.map, List.nil_append, List.map_cons]

/-- A number is an argument of its own, before any options. -/
theorem scan_status (status : Nat) (args : List String) :
    scan [helpOption, headerOption] true (toString status :: args) =
      (scan [helpOption, headerOption] true args).map fun (more, args) =>
        (more, toString status :: args) := by
  have hlist : (toString status).toList = Nat.toDigits 10 status := Nat.toList_repr
  have hdash : '-' ∉ (toString status).toList := fun h =>
    Number.ne_of_mem_toDigits (hlist ▸ h) rfl rfl
  have hdashes : toString status ≠ "--" := by
    intro h
    rw [h] at hdash
    exact hdash (by decide)
  have hoption : ¬ isOption (toString status).toList = true := by
    cases hs : (toString status).toList with
    | nil => decide
    | cons c rest =>
      rw [hs, List.mem_cons, not_or] at hdash
      simp [isOption, hdash.1]
  rw [scan, if_neg hdashes, if_neg hoption, if_pos rfl]

/-- The command line asks for the decision. -/
theorem ofArguments_check {status : Nat} (hstatus : (toString status).length ≤ Number.wholeLimit)
    (pairs : List (String × String)) :
    Invocation.ofArguments (checkArguments status pairs) =
      .ok (.perform (overridesOf []) (wishOf [])
        (.check status (pairs.map fun p => p.1 ++ ": " ++ p.2))) := by
  have hcommand : scan globalOptions false (checkArguments status pairs) =
      .ok ([], checkArguments status pairs) := rfl
  have hspec : commands.lookup "check" = some (.command ⟨[headerOption], fun options =>
      oneArgument "STATUS_CODE" fun s =>
        (readStatus s).map fun n => .check n (headersOf options)⟩) := rfl
  have hraws : (pairs.flatMap fun p => ["-H", p.1 ++ ": " ++ p.2]) =
      (pairs.map fun p => p.1 ++ ": " ++ p.2).flatMap fun raw => ["-H", raw] := by
    rw [List.flatMap_map]
  have hheaders (raws : List String) : headersOf (raws.map .header) = raws := by
    rw [headersOf, List.filterMap_map]
    exact List.filterMap_some
  have hhelp (raws : List String) :
      (raws.map LocalOption.header).contains LocalOption.help = false := by
    simp
  simp only [Invocation.ofArguments, hcommand, bind, Except.bind, List.findSome?_nil]
  simp only [checkArguments, readTask, hspec, CommandSpec.read, hraws, scan_status, scan_headers,
    Except.map, bind, Except.bind, hhelp, hheaders, oneArgument, readStatus,
    Number.whole?_toString hstatus, noArguments]
  rfl

/-- The command answers the decision in one line, and leaves the machine as it was. -/
theorem run_check {status : Nat} (hstatus : (toString status).length ≤ Number.wholeLimit)
    {pairs : List (String × String)} (h : WellFormed pairs) (display : Display) (m : Machine) :
    run (checkArguments status pairs) display m =
      (.finished success
        ⟨(if Challenge.Demanded status pairs then "required" else "not required") ++ "\n", ""⟩,
        m) := by
  have hdecision : checkResponse status (pairs.map fun p => p.1 ++ ": " ++ p.2) =
      .ok (decide (Challenge.Demanded status pairs)) := by
    simp only [checkResponse, readHeaders_eq_ok h]
    exact Challenge.isRequired_of_firstValue (Headers.Carries.groups.firstValue h.allAscii)
  have hformat : (Output.ofWish (wishOf []) display m).format ≠ .json := by
    change (if display.terminal && !(false || Output.forbidsColour m) then Format.rich
      else .plain) ≠ .json
    split <;> decide
  have hanswer : Task.answer (overridesOf [])
      (.check status (pairs.map fun p => p.1 ++ ": " ++ p.2)) m =
        .ok (.required (decide (Challenge.Demanded status pairs))) m := by
    simp only [Task.answer, Task.inSession?, Task.outside, hdecision]
    rfl
  -- both answers are ASCII, so standard output takes them
  have htaken : display.refusal?
      (if Challenge.Demanded status pairs then "required" else "not required") = none := by
    split <;> exact display.refusal?_ascii _ (List.all_iff_forall_prop.mp rfl)
  rw [run_of_perform (ofArguments_check hstatus pairs), hanswer, concluded]
  simp only [Answer.write, hformat, if_false, decide_eq_true_eq, Output.data]
  rw [show (Output.ofWish (wishOf []) display m).display = display from rfl, htaken]
  rfl

end Command

/-- Whether a response has a status, as client responses or else as connection responses have it,
and headers. -/
def Response.Exposes (r : Response) (status : Nat) (h : Headers) : Prop :=
  (r.statusCode = .is (.int status) ∨
    r.statusCode = .missing ∧ r.status = .is (.int status)) ∧ r.headers = .is h

/-- A response decides as its status and its headers do. -/
theorem Response.Exposes.isRequired_eq {r : Response} {status : Nat} {h : Headers}
    (hr : r.Exposes status h) : r.isRequired = Challenge.isRequired (.int status) h := by
  obtain ⟨hstatus, hheaders⟩ := hr
  have hread : r.readStatus = .ok (.int status) := by
    rcases hstatus with hcode | ⟨hcode, hstatus⟩
    · simp only [readStatus, hcode, optional, bind, Except.bind]
    · simp only [readStatus, hcode, hstatus, optional, bind, Except.bind]
  simp only [isRequired, metadata, hread, readHeaders, hheaders, bind, Except.bind]

namespace Challenge

/-- All ways to ask whether a response demands authorization give one decision, the one of its
status and of the first value of the challenge header: with the headers in any form, with a response
that has them, of a manager in both ways, and on the command line. -/
theorem decided_alike {status : Nat} (hstatus : (toString status).length ≤ Number.wholeLimit)
    {pairs : List (String × String)} (hpairs : Headers.WellFormed pairs) :
    (∃ f, Headers.ofFields (Fields.texts pairs) = .ok (.fields f)) ∧
      (∀ h, Headers.Carries pairs h →
        isRequired (.int status) h = .ok (decide (Demanded status pairs)) ∧
        (Inquiry.parts (.int status) h).isRequired = .ok (decide (Demanded status pairs)) ∧
        ∀ r : Response, r.Exposes status h →
          r.isRequired = .ok (decide (Demanded status pairs)) ∧
          (Inquiry.response r).isRequired = .ok (decide (Demanded status pairs))) ∧
      ∀ (display : Display) (m : Machine),
        Command.run (Command.checkArguments status pairs) display m =
          (.finished Command.success
            ⟨(if Demanded status pairs then "required" else "not required") ++ "\n", ""⟩, m) := by
  refine ⟨⟨Fields.ofTexts pairs, ?_⟩, fun h hcarries => ?_, Command.run_check hstatus hpairs⟩
  · simp only [Headers.ofFields, Fields.ofPairs_texts hpairs.allAscii, bind, Except.bind]
    rfl
  · have hdecision : isRequired (.int status) h = .ok (decide (Demanded status pairs)) :=
      isRequired_of_firstValue (hcarries.firstValue hpairs.allAscii)
    refine ⟨hdecision, hdecision, fun r hr => ?_⟩
    have hresponse := hr.isRequired_eq.trans hdecision
    exact ⟨hresponse, hresponse⟩

/-- Of two challenge headers in different spellings the first one counts. -/
theorem decided_alike_for_two_spellings :
    (toString 403).length ≤ Number.wholeLimit ∧
      Headers.WellFormed [("www-authenticate", "Bearer"), ("WWW-Authenticate", "Basic")] ∧
      isRequired (.int 403)
        (Headers.ofGroups [("www-authenticate", "Bearer"), ("WWW-Authenticate", "Basic")]) =
          .ok true := by
  have hstatus : (toString 403).length ≤ Number.wholeLimit := by decide
  have hpairs :
      Headers.WellFormed [("www-authenticate", "Bearer"), ("WWW-Authenticate", "Basic")] := by
    refine List.forall_mem_cons.mpr ⟨⟨⟨by decide, ?_⟩, ?_, by decide, by decide⟩,
      List.forall_mem_singleton.mpr ⟨⟨by decide, ?_⟩, ?_, by decide, by decide⟩⟩
    all_goals exact List.all_iff_forall_prop.mp rfl
  exact ⟨hstatus, hpairs, ((decided_alike hstatus hpairs).2.1 _ .groups).1⟩

end Challenge

end BearerSession
