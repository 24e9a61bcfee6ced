import Mathlib.Data.List.Infix
import BearerSession.Header.Challenge
import BearerSession.Proofs.Header.Fields

/-!
# One decision for all forms of headers

Whether a response demands authorization is decided by its status and by the value of the first
field with the name of the challenge header in any case. The fields of a response, those of a
message and a map from each spelling to its values carry the same headers in different forms; the
decision is the same for all of them.
-/

namespace BearerSession

namespace Challenge

/-- Whether two names are the same up to the case of ASCII letters. -/
def SameName (s t : String) : Prop := s.toList.map Char.toLower = t.toList.map Char.toLower

instance (s t : String) : Decidable (SameName s t) :=
  inferInstanceAs (Decidable (s.toList.map Char.toLower = t.toList.map Char.toLower))

/-- The value of the first pair with the name of the challenge header. -/
def first? (pairs : List (String × String)) : Option String :=
  (pairs.find? fun p => SameName p.1 headerName).map Prod.snd

/-- Whether the scheme stands in a value. -/
def NamesScheme (value : String) : Prop := Header.bearer.toList <:+: value.toList

instance (value : String) : Decidable (NamesScheme value) :=
  inferInstanceAs (Decidable (_ <:+: _))

/-- Whether a status and the pairs of a header demand authorization: the status is 401 or 403, and
the scheme stands in the value of the first pair with the name of the challenge header. -/
def Demanded (status : Nat) (pairs : List (String × String)) : Prop :=
  (status = 401 ∨ status = 403) ∧ ∃ value ∈ first? pairs, NamesScheme value

instance (status : Nat) (pairs : List (String × String)) : Decidable (Demanded status pairs) :=
  inferInstanceAs (Decidable (_ ∧ _))

/-- Searching a text for another finds it wherever it stands. -/
theorem contains_iff {part s : List Char} : contains part s = true ↔ part <:+: s := by
  induction s with
  | nil => simp [contains, List.isEmpty_iff]
  | cons c rest ih =>
    rw [contains, Bool.or_eq_true, List.isPrefixOf_iff_prefix, ih, List.infix_cons_iff]

/-- The statuses of challenges, as whole numbers. -/
theorem isStatus_int (status : Nat) :
    isStatus (.int status) = decide (status = 401 ∨ status = 403) := by
  simp only [isStatus, statuses, List.any_cons, List.any_nil, Value.same, Value.sameNumber?,
    Value.asInt?, Bool.or_false]
  rw [Bool.eq_iff_iff]
  simp
  omega

/-- A value of the header counts for what it says, and no value never makes a challenge. -/
theorem isChallenge_ofText? (status : Nat) (value : Option String) :
    isChallenge (.int status) (.ofText? value) =
      .ok (decide ((status = 401 ∨ status = 403) ∧ ∃ v ∈ value, NamesScheme v)) := by
  unfold isChallenge
  rw [isStatus_int]
  by_cases hstatus : status = 401 ∨ status = 403
  · cases value with
    | none => simp [Value.isKey, Value.ofText?, Value.isNull]
    | some v =>
      have hnames : names (.text v) = .ok (decide (NamesScheme v)) := by
        refine congrArg Except.ok ?_
        rw [Bool.eq_iff_iff, contains_iff, decide_eq_true_eq]
        rfl
      simp [Value.isKey, Value.ofText?, Value.isNull, hstatus, hnames]
  · simp [Value.isKey, hstatus]

/-- Headers whose first value is the one of the pairs decide as the pairs do. -/
theorem isRequired_of_firstValue {status : Nat} {pairs : List (String × String)} {h : Headers}
    (hfirst : h.firstValue headerName = .ok (.ofText? (first? pairs))) :
    isRequired (.int status) h = .ok (decide (Demanded status pairs)) := by
  simp only [isRequired, hfirst, bind, Except.bind, isChallenge_ofText?]
  rfl

/-- Names of ASCII are the same up to case where their lower cases are. -/
theorem sameName_iff {s t : String} (hs : Text.isAscii s) (ht : Text.isAscii t) :
    SameName s t ↔ Text.lower s = Text.lower t := by
  rw [Fields.lower_eq hs, Fields.lower_eq ht, String.ofList_inj]
  rfl

end Challenge

namespace Headers

open Challenge (SameName first? headerName)

/-- The names of pairs in the order of their first occurrence, each with its values in order. -/
def groups (pairs : List (String × String)) : List (String × List Value) :=
  (pairs.map Prod.fst).eraseDups.map fun name =>
    (name, (pairs.filter fun p => p.1 = name).map fun p => .text p.2)

/-- The map from each name, as it is spelled, to the list of its values. -/
def ofGroups (pairs : List (String × String)) : Headers :=
  .map ((groups pairs).map fun (name, values) => (.text name, .list values))

/-- The forms in which headers carry pairs of names and values. -/
inductive Carries (pairs : List (String × String)) : Headers → Prop where
  /-- The fields of a request or response. -/
  | fields {h : Headers} (made : ofFields (Fields.texts pairs) = .ok h) : Carries pairs h
  /-- The fields of a message. -/
  | message : Carries pairs (.message (Fields.texts pairs))
  /-- A map from names to lists. -/
  | groups : Carries pairs (ofGroups pairs)

variable {pairs : List (String × String)}

/-- What is looked for matters only for the members of a list. -/
theorem find?_congr {α : Type} {l : List α} {P Q : α → Bool} (h : ∀ a ∈ l, P a = Q a) :
    l.find? P = l.find? Q := by
  rw [← List.head?_filter, ← List.head?_filter, List.filter_congr h]

/-- Looking for the first name of a kind does not depend on later occurrences. -/
theorem find?_eraseDups (P : String → Bool) (names : List String) :
    names.eraseDups.find? P = names.find? P := by
  induction hn : names.length using Nat.strongRecOn generalizing names with
  | ind n ih =>
    cases names with
    | nil => rfl
    | cons name rest =>
      rw [List.eraseDups_cons, List.find?_cons, List.find?_cons]
      cases hname : P name with
      | true => rfl
      | false =>
        have hshort : (rest.filter fun b => !b == name).length < n := by
          have hle := List.length_filter_le (fun b => !b == name) rest
          rw [List.length_cons] at hn
          omega
        dsimp only
        rw [ih _ hshort _ rfl, List.find?_filter]
        refine congrArg (fun Q => rest.find? Q) (funext fun b => ?_)
        by_cases hb : b = name
        · simp [hb, hname]
        · simp [hb]

/-- The first pair with a name of a kind is the first one with this name. -/
theorem head?_filter_of_find? {P : String → Bool} {p : String × String}
    (h : (pairs.find? fun q => P q.1) = some p) :
    (pairs.filter fun q => q.1 = p.1).head? = some p := by
  obtain ⟨hp, before, after, rfl, hbefore⟩ := List.find?_eq_some_iff_append.mp h
  have hnone : (before.filter fun q => q.1 = p.1) = [] := by
    refine List.filter_eq_nil_iff.mpr fun q hq hsame => ?_
    have hother := hbefore q hq
    rw [decide_eq_true_eq] at hsame
    simp [hsame, hp] at hother
  rw [List.filter_append, hnone, List.nil_append, List.filter_cons_of_pos (by simp),
    List.head?_cons]

/-- Looking for the first entry by its name. -/
theorem firstField?_map {α : Type} (f : α → Value) (entries : List (String × α)) {name : String}
    (hname : Text.isAscii name) (h : ∀ e ∈ entries, Text.isAscii e.1) :
    firstField? name (entries.map fun e => (.text e.1, f e.2)) =
      (entries.find? fun e => SameName e.1 name).map fun e => (.text e.1, f e.2) := by
  rw [firstField?, List.find?_map]
  refine congrArg (Option.map _) (find?_congr fun e he => ?_)
  exact decide_eq_decide.mpr (Challenge.sameName_iff (h e he) hname).symm

/-- The first value of the challenge header is the same in all forms. -/
theorem Carries.firstValue {h : Headers} (hc : Carries pairs h) (hpairs : Fields.AllAscii pairs) :
    h.firstValue headerName = .ok (.ofText? (first? pairs)) := by
  have hheader : Text.isAscii headerName := by decide
  cases hc with
  | fields hmade =>
    obtain rfl : .fields (Fields.ofTexts pairs) = h := by
      simpa [ofFields, Fields.ofPairs_texts hpairs, bind, Except.bind, pure, Except.pure]
        using hmade
    simp only [Headers.firstValue, Fields.values_ofTexts hpairs hheader, bind, Except.bind, pure,
      Except.pure, List.head?_map, List.head?_filter, first?]
    congr 3
    refine find?_congr fun p hp => ?_
    exact decide_eq_decide.mpr (Challenge.sameName_iff (hpairs p hp).1 hheader).symm
  | message =>
    have hfield := firstField?_map Value.text pairs hheader fun p hp => (hpairs p hp).1
    simp only [Headers.firstValue, Fields.texts, hfield, first?]
    cases pairs.find? fun p => SameName p.1 headerName <;> rfl
  | groups =>
    have hascii : ∀ e ∈ Headers.groups pairs, Text.isAscii e.1 := by
      intro e he
      obtain ⟨name, hname, rfl⟩ := List.mem_map.mp he
      obtain ⟨p, hp, rfl⟩ := List.mem_map.mp (List.mem_eraseDups.mp hname)
      exact (hpairs p hp).1
    have hfield := firstField?_map Value.list (Headers.groups pairs) hheader hascii
    have hfind : ((Headers.groups pairs).find? fun e => SameName e.1 headerName) =
        (pairs.find? fun p => SameName p.1 headerName).map fun p =>
          (p.1, (pairs.filter fun q => q.1 = p.1).map fun q => .text q.2) := by
      rw [Headers.groups, List.find?_map, find?_eraseDups, List.find?_map, Option.map_map]
      rfl
    simp only [Headers.firstValue, ofGroups, hfield, hfind, first?]
    cases hfirst : pairs.find? fun p => SameName p.1 headerName with
    | none => rfl
    | some p =>
      obtain ⟨more, hmore⟩ := List.head?_eq_some_iff.mp
        (head?_filter_of_find? (P := fun name => SameName name headerName) hfirst)
      simp only [Option.map_some, hmore, List.map_cons]
      rfl

end Headers

end BearerSession
