import BearerSession.Proofs.Json.Accepted

/-!
# Texts within the limits of the reader

How deep a text is nested and how long its whole numbers are can be seen without reading it: by a
scan that only tells what stands between quotes from what does not, and counts the brackets outside.
On a text that keeps the limits anywhere in it, well-formed or not, the reader never meets one.
-/

namespace BearerSession.Json

open Number (splitDigits)

/-- Where a scan stands. -/
inductive Place where
  /-- Outside of quotes. -/
  | outside
  /-- Between quotes. -/
  | inside
  /-- Between quotes, behind a backslash. -/
  | escaped
  deriving DecidableEq, Repr

/-- Where a scan stands behind a character. -/
def Place.next : Place → Char → Place
  | .outside, c => if c = '"' then .inside else .outside
  | .inside, c => if c = '"' then .outside else if c = '\\' then .escaped else .inside
  | .escaped, _ => .inside

/-- By how much a bracket changes the number of open ones. -/
def bracket (c : Char) : Int :=
  if c = '[' ∨ c = '\x7b' then 1 else if c = ']' ∨ c = '\x7d' then -1 else 0

/-- A scan: where it stands, and how many brackets are open there. -/
structure Scan where
  /-- Where it stands. -/
  place : Place
  /-- How many brackets are open. -/
  level : Int
  deriving DecidableEq, Repr

namespace Scan

/-- The scan behind a character. -/
def next (s : Scan) (c : Char) : Scan :=
  ⟨s.place.next c, if s.place = .outside then s.level + bracket c else s.level⟩

/-- The scan behind a text. -/
def behind (s : Scan) (text : List Char) : Scan := text.foldl next s

/-- A scan at the start of a text. -/
def start : Scan := ⟨.outside, 0⟩

@[simp] theorem behind_nil (s : Scan) : s.behind [] = s := rfl

@[simp] theorem behind_cons (s : Scan) (c : Char) (text : List Char) :
    s.behind (c :: text) = (s.next c).behind text := rfl

@[simp] theorem behind_append (s : Scan) (a b : List Char) :
    s.behind (a ++ b) = (s.behind a).behind b := List.foldl_append

end Scan

/-- Whether what stands behind digits goes on with the number: more digits, a fraction or an
exponent. -/
def continuesNumber : List Char → Bool
  | [] => false
  | c :: rest =>
    c.isDigit || (c = '.' && rest.head?.any Char.isDigit) ||
      ((c = 'e' || c = 'E') && (readSign rest).2.head?.any Char.isDigit)

/-- Whether something may begin behind a text: at the start, or behind a blank, an opening bracket,
a comma or a colon. -/
def Begins (p : List Char) : Prop :=
  ∀ c ∈ p.getLast?, isBlank c = true ∨ c ∈ ['[', '\x7b', ',', ':']

/-- Digits are a whole number of a text. -/
def HasInteger (text digits : List Char) : Prop :=
  ∃ before negative after, text = before ++ (minus negative ++ (digits ++ after)) ∧
    (Scan.start.behind before).place = .outside ∧ Begins before ∧ Leads digits ∧
      continuesNumber after = false

/-- A text is within the limits of the reader: nowhere are more brackets open than are read, and no
whole number has more digits. -/
structure WithinLimits (text : List Char) : Prop where
  /-- Not too many brackets are open anywhere. -/
  nesting : ∀ before, before <+: text → (Scan.start.behind before).level ≤ depthLimit
  /-- No whole number has too many digits. -/
  digits : ∀ digits, HasInteger text digits → digits.length ≤ digitLimit

theorem bracket_le_one (c : Char) : bracket c ≤ 1 := by
  unfold bracket
  split
  · exact Int.le_refl 1
  · split <;> decide

/-- Behind a text no more brackets are open than it has characters. -/
theorem Scan.level_behind_le (s : Scan) (text : List Char) :
    (s.behind text).level ≤ s.level + text.length := by
  induction text generalizing s with
  | nil => simp
  | cons c text ih =>
    have hbehind := ih (s.next c)
    have hbracket := bracket_le_one c
    have hnext : (s.next c).level ≤ s.level + 1 := by
      simp only [next]
      split <;> omega
    rw [behind_cons, List.length_cons]
    omega

/-- A short text keeps the limits, whatever it is. -/
theorem withinLimits_of_length_le {text : List Char} (h : text.length ≤ depthLimit) :
    WithinLimits text := by
  constructor
  · intro before hprefix
    have hlevel := Scan.start.level_behind_le before
    have hlength := hprefix.length_le
    change _ ≤ (0 : Int) + before.length at hlevel
    omega
  · rintro digits ⟨before, negative, after, rfl, -⟩
    have hlimits : depthLimit ≤ digitLimit := by decide
    simp only [List.length_append] at h
    omega

/-- A part of a text outside of quotes opens so many brackets more than it closes. -/
def Shifts (k : Int) (p : List Char) : Prop :=
  ∀ l, (Scan.mk .outside l).behind p = ⟨.outside, l + k⟩

/-- A text goes on, after such a part, with a rest. -/
def Passes (k : Int) (s rest : List Char) : Prop := ∃ p, s = p ++ rest ∧ Shifts k p

section Passing

variable {k m : Int} {p q s t u rest : List Char} {c : Char}

theorem Shifts.append (hp : Shifts k p) (hq : Shifts m q) : Shifts (k + m) (p ++ q) := fun l => by
  rw [Scan.behind_append, hp, hq, Int.add_assoc]

/-- A character that is no quote changes the level by its bracket. -/
theorem shifts_singleton (h : c ≠ '"') : Shifts (bracket c) [c] := fun l => by
  simp [Scan.next, Place.next, h]

theorem Passes.refl (s : List Char) : Passes 0 s s := ⟨[], rfl, fun l => by simp⟩

theorem Passes.trans (h : Passes k s t) (h' : Passes m t u) : Passes (k + m) s u := by
  obtain ⟨p, rfl, hp⟩ := h
  obtain ⟨q, rfl, hq⟩ := h'
  exact ⟨p ++ q, (List.append_assoc ..).symm, hp.append hq⟩

theorem passes_cons (h : c ≠ '"') (s : List Char) : Passes (bracket c) (c :: s) s :=
  ⟨[c], rfl, shifts_singleton h⟩

/-- A character that a scan passes without notice. -/
def Flat (c : Char) : Prop := c ≠ '"' ∧ bracket c = 0

instance (c : Char) : Decidable (Flat c) := inferInstanceAs (Decidable (_ ∧ _))

/-- Characters that are neither quotes nor brackets are passed. -/
theorem passes_append {p : List Char} (h : ∀ c ∈ p, Flat c) (s : List Char) :
    Passes 0 (p ++ s) s := by
  induction p with
  | nil => exact .refl s
  | cons c p ih =>
    rw [List.forall_mem_cons] at h
    have hfirst := passes_cons h.1.1 (p ++ s)
    rw [h.1.2] at hfirst
    exact hfirst.trans (ih h.2)

/-- So are blanks. -/
theorem Gap.passes (h : Gap s rest) : Passes 0 s rest := by
  obtain ⟨gap, hgap, rfl⟩ := h
  refine passes_append (fun c hc => ?_) rest
  have hblank := hgap c hc
  simp only [isBlank, Bool.or_eq_true, beq_iff_eq] at hblank
  rcases hblank with ((rfl | rfl) | rfl) | rfl <;> decide

/-- A digit is neither a quote nor a bracket. -/
theorem flat_of_isDigit (h : c.isDigit = true) : Flat c := by
  have hne {d : Char} (hd : d.isDigit = false) : c ≠ d := by
    rintro rfl
    rw [h] at hd
    cases hd
  exact ⟨hne rfl, (if_neg (not_or.mpr ⟨hne rfl, hne rfl⟩)).trans
    (if_neg (not_or.mpr ⟨hne rfl, hne rfl⟩))⟩

/-- Nor is a sign. -/
theorem flat_minus (negative : Bool) : ∀ c ∈ minus negative, Flat c := by
  cases negative with
  | false => exact List.forall_mem_nil _
  | true => exact List.forall_mem_singleton.mpr (by decide)

/-- No character of an exponent is one. -/
theorem Exponent.flat {exponent : List Char} {power : Int} (h : Exponent exponent power) :
    ∀ c ∈ exponent, Flat c := by
  cases h with
  | absent => exact List.forall_mem_nil _
  | present negative hletter hsign hdigits _ =>
    rw [List.forall_mem_cons, List.forall_mem_append]
    refine ⟨?_, ?_, fun c hc => flat_of_isDigit (hdigits c hc)⟩
    · rcases hletter with rfl | rfl <;> decide
    · obtain rfl | ⟨rfl, -⟩ := hsign
      · exact flat_minus negative
      · exact List.forall_mem_singleton.mpr (by decide)

/-- No character of a number is one. -/
theorem Numeral.flat {v : Value} (h : Numeral s v) : ∀ c ∈ s, Flat c := by
  cases h with
  | whole negative hleads =>
    rw [List.forall_mem_append]
    exact ⟨flat_minus negative, fun c hc => flat_of_isDigit (hleads.isDigit c hc)⟩
  | @real whole fraction _ _ negative hleads hdigits hexp _ =>
    have hpoint : ∀ c ∈ point fraction, Flat c := by
      unfold point
      split
      · exact List.forall_mem_nil _
      · rw [List.forall_mem_cons]
        exact ⟨by decide, fun c hc => flat_of_isDigit (hdigits c hc)⟩
    simp only [List.forall_mem_append]
    exact ⟨flat_minus negative, fun c hc => flat_of_isDigit (hleads.isDigit c hc), hpoint,
      hexp.flat⟩

/-- A hexadecimal digit is no quote and no backslash. -/
theorem ne_of_hexDigit? {n : Nat} (h : hexDigit? c = some n) : c ≠ '"' ∧ c ≠ '\\' := by
  constructor <;> (rintro rfl; simp [hexDigit?] at h)

theorem ne_of_hexUnit? {p q r u : Char} {n : Nat} (h : hexUnit? p q r u = some n) :
    ∀ c ∈ [p, q, r, u], c ≠ '"' ∧ c ≠ '\\' := by
  simp only [hexUnit?, bind, Option.bind_eq_some_iff] at h
  obtain ⟨a, ha, b, hb, d, hd, e, he, -⟩ := h
  simp [ne_of_hexDigit? ha, ne_of_hexDigit? hb, ne_of_hexDigit? hd, ne_of_hexDigit? he]

/-- A quoted text is passed from behind its opening quote to behind its closing one. -/
theorem Quoted.scan (h : Quoted s t rest) :
    ∃ p, s = p ++ rest ∧ ∀ l, (Scan.mk .inside l).behind p = ⟨.outside, l⟩ := by
  induction h with
  | close => exact ⟨['"'], rfl, fun l => by simp [Scan.next, Place.next]⟩
  | @plain c _ _ _ quote backslash _ _ ih =>
    obtain ⟨p, rfl, hp⟩ := ih
    exact ⟨c :: p, rfl, fun l => by simp [Scan.next, Place.next, quote, backslash, hp]⟩
  | @letter e _ _ _ _ _ _ ih =>
    obtain ⟨p, rfl, hp⟩ := ih
    exact ⟨'\\' :: e :: p, rfl, fun l => by simp [Scan.next, Place.next, hp]⟩
  | @unit p q r u _ _ _ _ escape _ _ ih =>
    obtain ⟨w, rfl, hw⟩ := ih
    have hne := ne_of_hexUnit? escape
    refine ⟨'\\' :: 'u' :: p :: q :: r :: u :: w, rfl, fun l => ?_⟩
    simp [Scan.next, Place.next, hw, hne]
  | @pair p q r u p' q' r' u' _ _ _ _ _ first _ second _ _ ih =>
    obtain ⟨w, rfl, hw⟩ := ih
    have hne := ne_of_hexUnit? first
    have hne' := ne_of_hexUnit? second
    refine ⟨'\\' :: 'u' :: p :: q :: r :: u :: '\\' :: 'u' :: p' :: q' :: r' :: u' :: w, rfl,
      fun l => ?_⟩
    simp [Scan.next, Place.next, hw, hne, hne']

/-- A text between quotes is passed. -/
theorem Quoted.passes (h : Quoted s t rest) : Passes 0 ('"' :: s) rest := by
  obtain ⟨p, rfl, hp⟩ := h.scan
  exact ⟨'"' :: p, rfl, fun l => by simp [Scan.next, Place.next, bracket, hp]⟩

end Passing

/-- By how much a part changes the number of open brackets: the values of a list and the entries of
a map come with the bracket that closes them. -/
def Part.shift : Part → Int
  | .value _ => 0
  | .items _ | .entries _ => -1

/-- A name is passed. -/
theorem passes_name {name : String} (h : (name.toList.all fun c => Flat c) = true)
    (s : List Char) : Passes 0 (name.toList ++ s) s :=
  passes_append (by simpa using h) s

/-- A part is passed. -/
theorem Stands.passes {s rest : List Char} {part : Part} (h : Stands s part rest) :
    Passes part.shift s rest := by
  induction h with
  | null | yes | no | nan => exact passes_name (by decide) _
  | infinite negative =>
    exact (passes_append (flat_minus negative) _).trans (passes_name (by decide) _)
  | number hnumeral => exact passes_append hnumeral.flat _
  | text hquoted => exact hquoted.passes
  | noItems hgap | noEntries hgap =>
    exact ((passes_cons (by decide) _).trans hgap.passes).trans (passes_cons (by decide) _)
  | list hgap _ ih | map hgap _ ih =>
    exact ((passes_cons (by decide) _).trans hgap.passes).trans ih
  | lastItem _ hgap ih => exact (ih.trans hgap.passes).trans (passes_cons (by decide) _)
  | item _ hgap hgap' _ ih ihmore =>
    exact (((ih.trans hgap.passes).trans (passes_cons (by decide) _)).trans hgap'.passes).trans
      ihmore
  | lastEntry hkey hcolon hgap _ hclose ih =>
    have hfirst := (hkey.passes.trans hcolon.passes).trans (passes_cons (by decide) _)
    exact (((hfirst.trans hgap.passes).trans ih).trans hclose.passes).trans
      (passes_cons (by decide) _)
  | entry hkey hcolon hgap _ hcomma hgap' _ ih ihmore =>
    have hfirst := (hkey.passes.trans hcolon.passes).trans (passes_cons (by decide) _)
    have hsecond := (((hfirst.trans hgap.passes).trans ih).trans hcomma.passes).trans
      (passes_cons (by decide) _)
    exact (hsecond.trans hgap'.passes).trans ihmore

section Reaching

variable {k m n : Int} {p q s t u rest : List Char} {c : Char} {fault : Fault}

theorem Begins.append (hp : Begins p) (hq : Begins q) : Begins (p ++ q) := by
  intro c hc
  rw [List.getLast?_append] at hc
  cases hlast : q.getLast? with
  | none => exact hp c (by simpa [hlast] using hc)
  | some d =>
    obtain rfl : d = c := by simpa [hlast] using hc
    exact hq d hlast

/-- Something may begin behind blanks. -/
theorem begins_of_blank (h : ∀ c ∈ p, isBlank c = true) : Begins p :=
  fun c hc => .inl (h c (List.mem_of_getLast? hc))

/-- A text goes on with another one at a place where something may begin. -/
def Reaches (k : Int) (s t : List Char) : Prop := ∃ p, s = p ++ t ∧ Shifts k p ∧ Begins p

theorem Reaches.passes (h : Reaches k s t) : Passes k s t := by
  obtain ⟨p, rfl, hp, -⟩ := h
  exact ⟨p, rfl, hp⟩

/-- A text goes on behind its blanks. -/
theorem Gap.reaches (h : Gap s t) : Reaches 0 s t := by
  obtain ⟨p, rfl, hp⟩ := h.passes
  obtain ⟨gap, hblank, hgap⟩ := h
  obtain rfl := List.append_cancel_right hgap
  exact ⟨p, rfl, hp, begins_of_blank hblank⟩

theorem Reaches.trans (h : Reaches k s t) (h' : Reaches m t u) : Reaches (k + m) s u := by
  obtain ⟨p, rfl, hp, hbegins⟩ := h
  obtain ⟨q, rfl, hq, hbegins'⟩ := h'
  exact ⟨p ++ q, (List.append_assoc ..).symm, hp.append hq, hbegins.append hbegins'⟩

/-- Something may begin behind an opening bracket, a comma or a colon, and behind blanks there. -/
theorem Passes.reaches (h : Passes k s (c :: t)) (hc : c ∈ ['[', '\x7b', ',', ':'])
    (hgap : Gap t u) : Reaches (k + bracket c) s u := by
  have hquote : c ≠ '"' := by
    rintro rfl
    exact absurd hc (by decide)
  obtain ⟨p, rfl, hp⟩ := h
  have hbehind : Reaches (k + bracket c) (p ++ c :: t) t := by
    refine ⟨p ++ [c], by simp, hp.append (shifts_singleton hquote), fun d hd => ?_⟩
    obtain rfl : c = d := by simpa using hd
    exact .inr hc
  exact Int.add_zero (k + bracket c) ▸ hbehind.trans hgap.reaches

/-- A text goes beyond the limits where so many brackets may still be opened. -/
inductive Exceeds (k : Int) (s : List Char) : Prop where
  /-- One bracket more is opened. -/
  | nesting {rest : List Char} (passes : Passes (k + 1) s rest)
  /-- A whole number has too many digits. -/
  | digits {m : Int} {digits after : List Char} {negative : Bool}
      (reaches : Reaches m s (minus negative ++ (digits ++ after))) (leads : Leads digits)
      (ends : continuesNumber after = false) (long : digitLimit < digits.length)

/-- What is met behind a place is met in the text. -/
theorem Reaches.exceeds (h : Reaches k s t) (ht : Exceeds m t) (hsum : k + m = n) :
    Exceeds n s := by
  subst hsum
  cases ht with
  | nesting hpasses => exact .nesting (Int.add_assoc k m 1 ▸ h.passes.trans hpasses)
  | digits hreaches hleads hends hlong => exact .digits (h.trans hreaches) hleads hends hlong

/-- A text within the limits does not go beyond them. -/
theorem WithinLimits.not_exceeds (h : WithinLimits s) : ¬ Exceeds depthLimit s := by
  rintro (⟨p, rfl, hp⟩ | ⟨⟨p, rfl, hp, hbegins⟩, hleads, hends, hlong⟩)
  · have hlevel := h.nesting p (List.prefix_append ..)
    rw [Scan.start, hp] at hlevel
    change (0 : Int) + (depthLimit + 1) ≤ depthLimit at hlevel
    omega
  · have hplace : (Scan.start.behind p).place = .outside := congrArg Scan.place (hp 0)
    have hshort := h.digits _ ⟨p, _, _, rfl, hplace, hbegins, hleads, hends⟩
    omega

end Reaching

section Refusals

variable {s t rest : List Char} {fault : Fault}

/-- What is made of something refused is refused alike. -/
theorem error_of_map {α β : Type} {r : Except Fault α} {f : α → β} (h : r.map f = .error fault) :
    r = .error fault := by
  cases r with
  | error e => exact congrArg _ (Except.error.inj h)
  | ok a => contradiction

/-- What goes on from something is refused where that is, or behind it. -/
theorem error_of_bind {α β : Type} {r : Except Fault α} {f : α → Except Fault β}
    (h : r >>= f = .error fault) : r = .error fault ∨ ∃ a, r = .ok a ∧ f a = .error fault := by
  cases r with
  | error e => exact .inl (congrArg _ (Except.error.inj h))
  | ok a => exact .inr ⟨a, rfl, h⟩

theorem not_isLimit_of_lowerHalf? {unit : Nat} (h : lowerHalf? unit s = .error fault) :
    ¬ fault.IsLimit := by
  unfold lowerHalf? at h
  split at h
  · split at h
    · split at h
      · cases h
        exact not_false
      · contradiction
    · contradiction
  · contradiction

/-- A text between quotes is refused for its form only. -/
theorem not_isLimit_of_readText {opening : Nat} (h : readText opening s = .error fault) :
    ¬ fault.IsLimit := by
  fun_induction readText opening s
  case case2 => contradiction
  case case4 ih | case6 ih | case11 ih | case12 ih => exact ih (error_of_map h)
  case case10 hhalf =>
    cases h
    exact not_isLimit_of_lowerHalf? hhalf
  all_goals
    cases h
    exact not_false

/-- Digits are split off where the first character is one. -/
theorem isEmpty_splitDigits (s : List Char) :
    (splitDigits s).1.isEmpty = !s.head?.any Char.isDigit := by
  cases s with
  | nil => rfl
  | cons c s => cases hdigit : c.isDigit <;> simp [splitDigits, hdigit]

/-- Where neither a fraction nor an exponent is read behind digits, they are a whole number. -/
theorem continuesNumber_eq_false (hdigit : s.head?.any Char.isDigit = false)
    (hfraction : readFraction s = ([], t)) (hexponent : readExponent? t = none) :
    continuesNumber s = false := by
  obtain rfl : s = t := (fraction_of_readFraction hfraction).2
  cases s with
  | nil => rfl
  | cons c s =>
    have hpoint : (c = '.' && s.head?.any Char.isDigit) = false := by
      rw [Bool.and_eq_false_imp, decide_eq_true_iff]
      rintro rfl
      have hread : readFraction ('.' :: s) =
          if (splitDigits s).1.isEmpty then ([], '.' :: s) else splitDigits s := rfl
      rw [hread, isEmpty_splitDigits] at hfraction
      by_contra hany
      rw [Bool.not_eq_false] at hany
      rw [hany, Bool.not_true, if_neg Bool.false_ne_true] at hfraction
      have hempty := isEmpty_splitDigits s
      rw [hfraction, hany] at hempty
      contradiction
    have hletter : ((c = 'e' || c = 'E') && (readSign s).2.head?.any Char.isDigit) = false := by
      rw [Bool.and_eq_false_imp]
      intro hc
      rw [readExponent?_cons, if_pos (by simpa using hc)] at hexponent
      have hempty := isEmpty_splitDigits (readSign s).2
      split at hexponent
      · next htrue => simpa [htrue] using hempty
      · contradiction
    rw [continuesNumber, hpoint, hletter, Bool.or_false, Bool.or_false]
    exact hdigit

/-- A number is refused behind its digits where these are a whole number, and too many. -/
theorem of_readNumberTail {negative : Bool} {whole : List Char}
    (h : readNumberTail negative whole s = .error fault) :
    digitLimit < whole.length ∧
      (s.head?.any Char.isDigit = false → continuesNumber s = false) := by
  unfold readNumberTail at h
  cases hfraction : readFraction s with
  | mk fraction after =>
    rw [hfraction] at h
    dsimp only at h
    split at h
    · next hempty hnone =>
      split at h
      · next hlong =>
        obtain rfl := List.isEmpty_iff.mp hempty
        exact ⟨hlong, fun hdigit => continuesNumber_eq_false hdigit hfraction hnone⟩
      · contradiction
    · contradiction

/-- No digit stands behind the digits that are split off. -/
theorem any_head?_splitDigits (s : List Char) :
    (splitDigits s).2.head?.any Char.isDigit = false := by
  have hhead := List.head?_dropWhile_not Char.isDigit s
  rw [splitDigits]
  cases hrest : (s.dropWhile Char.isDigit).head? with
  | none => rfl
  | some c =>
    rw [hrest] at hhead
    exact hhead

/-- So what is refused for a limit behind a sign is a whole number with too many digits. -/
theorem exceeds_of_readUnsigned {negative : Bool} {left : Nat}
    (h : readUnsigned negative left s = .error fault) (hlimit : fault.IsLimit) (k : Int) :
    Exceeds k (minus negative ++ s) := by
  unfold readUnsigned at h
  split at h
  · exact absurd (of_readNumberTail h).1 (by decide)
  · next c s hzero =>
    split at h
    · next hdigit =>
      have hleads := leads_splitDigits hdigit (fun heq => hzero (heq ▸ rfl)) s
      obtain ⟨hlong, hends⟩ := of_readNumberTail h
      have hhere : Reaches 0 (minus negative ++ c :: s)
          (minus negative ++ ((splitDigits (c :: s)).1 ++ (splitDigits (c :: s)).2)) := by
        rw [Number.splitDigits_append]
        exact Gap.reaches ⟨[], List.forall_mem_nil _, rfl⟩
      exact .digits hhere hleads (hends (any_head?_splitDigits _)) hlong
    · cases h
      exact hlimit.elim
  · cases h
    exact hlimit.elim

/-- A number is refused for a limit where it is a whole number with too many digits. -/
theorem exceeds_of_readNumber (h : readNumber s = .error fault) (hlimit : fault.IsLimit) (k : Int) :
    Exceeds k s := by
  by_cases hminus : s.head? = some '-'
  · obtain ⟨s, rfl⟩ := List.head?_eq_some_iff.mp hminus
    exact exceeds_of_readUnsigned (readNumber_minus s ▸ h) hlimit k
  · rw [readNumber_eq_readUnsigned hminus] at h
    exact exceeds_of_readUnsigned h hlimit k

/-- Behind an opening bracket one less may be opened. -/
theorem exceeds_of_opening {depth : Nat} {c : Char} (hc : c ∈ ['[', '\x7b']) (hdepth : depth ≠ 0)
    (h : Exceeds (depth - 1 : Nat) (skipBlanks s)) : Exceeds depth (c :: s) := by
  have hopens : c ∈ ['[', '\x7b', ',', ':'] ∧ bracket c = 1 := by
    simp only [List.mem_cons, List.not_mem_nil, or_false] at hc
    rcases hc with rfl | rfl <;> decide
  have hreaches := (Passes.refl (c :: s)).reaches hopens.1 (gap_skipBlanks s)
  rw [hopens.2] at hreaches
  exact hreaches.exceeds h (by omega)

end Refusals

mutual

/-- A value is refused for a limit where it goes beyond that. -/
theorem exceeds_of_readValue {fuel depth : Nat} {s : List Char} {fault : Fault}
    (h : readValue fuel depth s = .error fault) (hlimit : fault.IsLimit) : Exceeds depth s := by
  match fuel with
  | 0 =>
    cases h
    exact hlimit.elim
  | fuel + 1 =>
    have hstep := valueStep fuel depth s
    generalize readValue (fuel + 1) depth s = found at h hstep
    cases hstep with
    | text => exact absurd hlimit (not_isLimit_of_readText (error_of_map h))
    | deepMap deep | deepList deep =>
      subst deep
      exact .nesting (passes_cons (by decide) _)
    | map room =>
      have hmore := exceeds_of_readEntries (error_of_map h) hlimit
      exact exceeds_of_opening (by decide) room hmore
    | list room =>
      have hmore := exceeds_of_readItems (error_of_map h) hlimit
      exact exceeds_of_opening (by decide) room hmore
    | noEntries | noItems | name => contradiction
    | number => exact exceeds_of_readNumber h hlimit depth

/-- So are the entries of a map. -/
theorem exceeds_of_readEntries {fuel depth : Nat} {s : List Char} {fault : Fault}
    (h : readEntries fuel depth s = .error fault) (hlimit : fault.IsLimit) : Exceeds depth s := by
  match fuel with
  | 0 =>
    cases h
    exact hlimit.elim
  | fuel + 1 =>
    unfold readEntries at h
    split at h
    · obtain hkey | ⟨⟨k, t⟩, hkey, h⟩ := error_of_bind h
      · exact absurd hlimit (not_isLimit_of_readText hkey)
      · dsimp only at h
        split at h
        · next hcolon =>
          have hpasses := (quoted_of_readText hkey).passes.trans (gap_of_skipBlanks hcolon).passes
          have hreaches := hpasses.reaches (by decide) (gap_skipBlanks _)
          obtain hvalue | ⟨⟨v, w⟩, hvalue, h⟩ := error_of_bind h
          · exact hreaches.exceeds (exceeds_of_readValue hvalue hlimit) (Int.zero_add _)
          · dsimp only at h
            split at h
            · contradiction
            · next hcomma =>
              have hentry := hreaches.passes.trans (stands_of_readValue hvalue).passes
              have hnext := (hentry.trans (gap_of_skipBlanks hcomma).passes).reaches (by decide)
                (gap_skipBlanks _)
              exact hnext.exceeds (exceeds_of_readEntries (error_of_map h) hlimit)
                (Int.zero_add _)
            · cases h
              exact hlimit.elim
        · cases h
          exact hlimit.elim
    · cases h
      exact hlimit.elim

/-- So are the values of a list. -/
theorem exceeds_of_readItems {fuel depth : Nat} {s : List Char} {fault : Fault}
    (h : readItems fuel depth s = .error fault) (hlimit : fault.IsLimit) : Exceeds depth s := by
  match fuel with
  | 0 =>
    cases h
    exact hlimit.elim
  | fuel + 1 =>
    unfold readItems at h
    obtain hvalue | ⟨⟨v, t⟩, hvalue, h⟩ := error_of_bind h
    · exact exceeds_of_readValue hvalue hlimit
    · dsimp only at h
      split at h
      · contradiction
      · next hcomma =>
        have hpasses := (stands_of_readValue hvalue).passes.trans (gap_of_skipBlanks hcomma).passes
        have hreaches := hpasses.reaches (by decide) (gap_skipBlanks _)
        exact hreaches.exceeds (exceeds_of_readItems (error_of_map h) hlimit) (Int.zero_add _)
      · cases h
        exact hlimit.elim

end

/-- A text that keeps the limits is refused for its form only. -/
theorem exists_malformed_of_read {s : String} {e : ReadError} (h : WithinLimits s.toList)
    (herror : read s = .error e) : ∃ complaint line column position,
      e = .malformed complaint line column position := by
  have hlimit {fault : Fault} (hwhole : readWhole s.toList = .error fault) : ¬ fault.IsLimit := by
    intro hlimit
    unfold readWhole at hwhole
    split at hwhole
    · cases hwhole
      exact hlimit
    · obtain hvalue | ⟨⟨v, rest⟩, -, hrest⟩ := error_of_bind hwhole
      · have hexceeds := exceeds_of_readValue hvalue hlimit
        exact h.not_exceeds ((gap_skipBlanks _).reaches.exceeds hexceeds (Int.zero_add _))
      · dsimp only at hrest
        split at hrest
        · contradiction
        · cases hrest
          exact hlimit
  unfold read at herror
  cases hwhole : readWhole s.toList with
  | ok v => simp [hwhole, Except.mapError] at herror
  | error fault =>
    obtain rfl : locate s.toList fault = e := by simpa [hwhole, Except.mapError] using herror
    cases fault with
    | «at» => exact ⟨_, _, _, _, rfl⟩
    | digits | depth => exact absurd trivial (hlimit hwhole)

end BearerSession.Json
