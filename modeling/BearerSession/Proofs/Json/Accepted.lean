import BearerSession.Proofs.Json.Grammar

/-!
# What the reader accepts

Whatever the grammar says, the reader reads, unless it meets one of its limits first. So a text that
is refused for its form says nothing, and a text that is read says nothing else.
-/

namespace BearerSession.Json

open Number (digitsValue splitDigits)

/-- Whether a refusal is for a limit of the reader, not for the form of a text. -/
def Fault.IsLimit : Fault → Prop
  | .at .. => False
  | .digits _ | .depth _ => True

/-- Whether something is read, or a limit is met on the way. -/
def Accepted {α : Type} (r : Except Fault α) (a : α) : Prop :=
  r = .ok a ∨ ∃ fault, fault.IsLimit ∧ r = .error fault

section Accepted

variable {α β : Type} {r : Except Fault α} {a : α} {b : β}

/-- What is made of something accepted is accepted. -/
theorem Accepted.map (h : Accepted r a) (f : α → β) : Accepted (r.map f) (f a) := by
  obtain rfl | ⟨fault, hlimit, rfl⟩ := h
  · exact .inl rfl
  · exact .inr ⟨fault, hlimit, rfl⟩

/-- What goes on from something accepted is accepted as it goes on from there. -/
theorem Accepted.bind (h : Accepted r a) {f : α → Except Fault β} (hf : Accepted (f a) b) :
    Accepted (r >>= f) b := by
  obtain rfl | ⟨fault, hlimit, rfl⟩ := h
  · exact hf
  · exact .inr ⟨fault, hlimit, rfl⟩

end Accepted

section Leaves

variable {s t rest : List Char}

/-- Blanks are skipped up to what is none. -/
theorem Gap.skipBlanks_eq (h : Gap s rest) (hrest : ∀ c ∈ rest.head?, isBlank c = false) :
    skipBlanks s = rest := by
  obtain ⟨gap, hgap, rfl⟩ := h
  cases rest with
  | nil => exact List.dropWhile_eq_nil_iff.mpr (by simpa using hgap)
  | cons c rest => exact skipBlanks_append hgap (hrest c rfl) rest

/-- A gap leaves no more than there was. -/
theorem Gap.length_le (h : Gap s rest) : rest.length ≤ s.length := by
  obtain ⟨gap, -, rfl⟩ := h
  simp

/-- A blank ends a number, and so does what separates or closes parts. -/
theorem Gap.ends (h : Gap s rest)
    (hrest : ∀ c ∈ rest.head?, c = ',' ∨ c = ']' ∨ c = '\x7d') : Ends s := by
  obtain ⟨gap, hgap, rfl⟩ := h
  intro c hc
  cases gap with
  | nil => rcases hrest c hc with rfl | rfl | rfl <;> decide
  | cons d gap =>
    obtain rfl : d = c := by simpa using hc
    have hblank := hgap d List.mem_cons_self
    simp only [isBlank, Bool.or_eq_true, beq_iff_eq] at hblank
    rcases hblank with ((rfl | rfl) | rfl) | rfl <;> decide

/-- Where the grammar sees no low half behind a high one, none is found to join with it. -/
theorem Quoted.lowerHalf?_eq {unit : Nat} (h : Quoted s t rest)
    (hsingle : isHigh unit = true → ¬ LowHalf s) : lowerHalf? unit s = .ok none := by
  unfold lowerHalf?
  split
  · next p q r u last =>
    split
    · next hhigh =>
      rw [Bool.and_eq_true] at hhigh
      -- The grammar has an escape there, so its digits are read, and it is no low half.
      obtain ⟨second, hsecond⟩ : ∃ second, hexUnit? p q r u = some second := by
        cases h with
        | plain _ backslash => exact absurd rfl backslash
        | letter escape => simp [escaped?] at escape
        | unit escape => exact ⟨_, escape⟩
        | pair first => exact ⟨_, first⟩
      have hlow : isLow second = false := by
        refine Bool.eq_false_iff.mpr fun hlow => hsingle hhigh.1 ?_
        exact ⟨p, q, r, u, second, last, rfl, hsecond, hlow⟩
      simp [hsecond, hlow]
    · rfl
  · rfl

/-- A quoted text is read. -/
theorem readText_of_quoted (opening : Nat) (h : Quoted s t rest) :
    readText opening s = .ok (t, rest) := by
  induction h with
  | close =>
    rw [readText.eq_def]
    simp
  | plain hquote hbackslash hcontrol _ ih =>
    rw [readText_plain hquote hbackslash hcontrol, ih]
    rfl
  | @letter e _ _ _ _ hescape _ ih =>
    have hu : e ≠ 'u' := by
      rintro rfl
      simp [escaped?] at hescape
    rw [readText_escape hu hescape, ih]
    rfl
  | unit hescape hsingle hmore ih =>
    rw [readText_unit hescape (hmore.lowerHalf?_eq hsingle) hmore.ne_nil, ih]
    rfl
  | pair hfirst hhigh hsecond hlow hmore ih =>
    rw [readText_halves hfirst hhigh hsecond hlow hmore.ne_nil, ih]
    rfl

/-- The sign before the digits of an exponent is read. -/
theorem readSign_append {negative : Bool} {sign digits : List Char}
    (hsign : sign = minus negative ∨ sign = ['+'] ∧ negative = false)
    (hdigits : ∀ c ∈ digits, c.isDigit = true) (hne : digits ≠ []) (rest : List Char) :
    readSign (sign ++ (digits ++ rest)) = (negative, digits ++ rest) := by
  obtain ⟨c, digits, rfl⟩ := List.exists_cons_of_ne_nil hne
  have hc := hdigits c List.mem_cons_self
  obtain rfl | ⟨rfl, rfl⟩ := hsign
  · cases negative with
    | true => rfl
    | false =>
      rw [minus, if_neg Bool.false_ne_true, List.nil_append, List.cons_append, readSign.eq_def]
      split
      · next heq =>
        rw [(List.cons.inj heq).1] at hc
        contradiction
      · next heq =>
        rw [(List.cons.inj heq).1] at hc
        contradiction
      · rfl
  · rfl

/-- An exponent is read up to what ends a number. -/
theorem Exponent.readExponent?_append {exponent : List Char} {power : Int}
    (h : Exponent exponent power) (hrest : Ends rest) :
    (readExponent? (exponent ++ rest)).getD (0, exponent ++ rest) = (power, rest) ∧
      (exponent ≠ [] → (readExponent? (exponent ++ rest)).isSome = true) := by
  cases h with
  | absent =>
    rw [List.nil_append, hrest.readExponent?]
    exact ⟨rfl, fun h => absurd rfl h⟩
  | @present e digits sign negative hletter hsign hdigits hne =>
    have hsplit := Number.splitDigits_of_digits hdigits fun c hc => (hrest c hc).1
    have hread : readExponent? (e :: (sign ++ digits) ++ rest) =
        some (signed negative (digitsValue digits), rest) := by
      rw [List.cons_append, List.append_assoc, readExponent?_cons,
        readSign_append hsign hdigits hne, hsplit, if_pos (by simpa using hletter),
        if_neg (by simpa using hne)]
    rw [hread]
    exact ⟨rfl, fun _ => rfl⟩

/-- An exponent begins with a letter. -/
theorem Exponent.head {exponent : List Char} {power : Int} (h : Exponent exponent power)
    (hrest : Ends rest) : ∀ c ∈ (exponent ++ rest).head?, c.isDigit = false ∧ c ≠ '.' := by
  cases h with
  | absent => exact fun c hc => ⟨(hrest c hc).1, (hrest c hc).2.1⟩
  | present _ hletter =>
    rintro _ ⟨⟩
    rcases hletter with rfl | rfl <;> decide

/-- A number is read up to what ends one, unless it has too many digits. -/
theorem Numeral.accepted {v : Value} (h : Numeral s v) (hrest : Ends rest) :
    Accepted (readNumber (s ++ rest)) (v, rest) := by
  cases h with
  | @whole whole negative hleads =>
    rw [List.append_assoc]
    have hread := readNumber_sign negative hleads fun c hc => (hrest c hc).1
    rw [← minus] at hread
    rw [hread]
    simp only [readNumberTail, hrest.readFraction, hrest.readExponent?, List.isEmpty_nil]
    split
    · exact .inr ⟨.digits _, trivial, rfl⟩
    · exact .inl rfl
  | @real whole fraction exponent power negative hleads hdigits hexp hne =>
    obtain ⟨hexponent, hsome⟩ := hexp.readExponent?_append hrest
    have hfraction := readFraction_point hdigits (hexp.head hrest)
    have hhead : ∀ c ∈ (point fraction ++ (exponent ++ rest)).head?, c.isDigit = false := by
      cases fraction with
      | nil => exact fun c hc => (hexp.head hrest c hc).1
      | cons d fraction =>
        rintro _ ⟨⟩
        rfl
    have hread := readNumber_sign negative hleads hhead
    rw [← minus] at hread
    rw [List.append_assoc, List.append_assoc, List.append_assoc, hread]
    refine .inl ?_
    simp only [readNumberTail, hfraction]
    split
    · next hempty hnone =>
      have hmarked := hsome (hne.resolve_left fun h => h (List.isEmpty_iff.mp hempty))
      simp [hnone] at hmarked
    · rw [hexponent]

/-- A number begins with a digit, or with a sign before one. -/
theorem Numeral.readValue_eq {v : Value} (h : Numeral s v) (fuel depth : Nat) (rest : List Char) :
    readValue (fuel + 1) depth (s ++ rest) = readNumber (s ++ rest) := by
  obtain ⟨negative, whole, tail, hleads, rfl⟩ : ∃ negative whole tail, Leads whole ∧
      s = minus negative ++ (whole ++ tail) := by
    cases h with
    | whole negative hleads => exact ⟨negative, _, [], hleads, by rw [List.append_nil]⟩
    | real negative hleads => exact ⟨negative, _, _, hleads, rfl⟩
  obtain ⟨c, cs, rfl, hc⟩ := hleads.exists_eq_cons
  rw [List.append_assoc]
  exact readValue_sign _ ⟨c, _, rfl, hc⟩

/-- Something is left out of what a quoted text stands in front of. -/
theorem Quoted.length_lt (h : Quoted s t rest) : rest.length < s.length := by
  induction h <;> simp only [List.length_cons] <;> omega

end Leaves

variable {s rest : List Char} {part : Part} {v : Value}

/-- A part begins with a character that opens a value. -/
theorem Stands.opens (h : Stands s part rest) : ∃ c t, s = c :: t ∧ Opens c := by
  induction h with
  | infinite negative => cases negative <;> exact ⟨_, _, rfl, by decide⟩
  | number hnumeral =>
    cases hnumeral with
    | whole negative hleads =>
      obtain ⟨c, t, hc, heq⟩ := exists_opens_sign (negative = true) hleads.exists_eq_cons
      exact ⟨c, _, by rw [minus, heq]; rfl, hc⟩
    | real negative hleads =>
      obtain ⟨c, cs, rfl, hdigit⟩ := hleads.exists_eq_cons
      obtain ⟨d, t, hd, heq⟩ := exists_opens_sign (negative = true) ⟨c, _, rfl, hdigit⟩
      exact ⟨d, _, by rw [minus, List.cons_append, heq]; rfl, hd⟩
  | lastItem _ _ ih | item _ _ _ _ ih => exact ih
  | _ => exact ⟨_, _, rfl, by decide⟩

/-- It stands behind the blanks. -/
theorem Stands.skipBlanks_eq (h : Stands s part rest) {w : List Char} (hgap : Gap w s) :
    skipBlanks w = s := by
  refine hgap.skipBlanks_eq ?_
  obtain ⟨c, t, rfl, hc⟩ := h.opens
  rintro _ ⟨⟩
  exact hc.1

/-- Something is left out of what a part stands in front of. -/
theorem Stands.length_lt (h : Stands s part rest) : rest.length < s.length := by
  induction h with
  | number hnumeral =>
    cases hnumeral with
    | whole negative hleads =>
      obtain ⟨c, cs, rfl, -⟩ := hleads.exists_eq_cons
      simp only [List.length_append, List.length_cons]
      omega
    | real negative hleads =>
      obtain ⟨c, cs, rfl, -⟩ := hleads.exists_eq_cons
      simp only [List.length_append, List.length_cons]
      omega
  | text quoted =>
    have hquoted := quoted.length_lt
    simp only [List.length_cons]
    omega
  | noItems gap | noEntries gap =>
    have hgap := gap.length_le
    simp only [List.length_cons] at hgap ⊢
    omega
  | list gap _ ih | map gap _ ih =>
    have hgap := gap.length_le
    simp only [List.length_cons] at hgap ⊢
    omega
  | lastItem _ gap ih =>
    have hgap := gap.length_le
    simp only [List.length_cons] at hgap
    omega
  | item _ gap gap' _ ih ih' =>
    have hgap := gap.length_le
    have hgap' := gap'.length_le
    simp only [List.length_cons] at hgap
    omega
  | lastEntry key colon gap _ close ih =>
    have hkey := key.length_lt
    have hcolon := colon.length_le
    have hgap := gap.length_le
    have hclose := close.length_le
    simp only [List.length_cons] at hcolon hclose ⊢
    omega
  | entry key colon gap _ comma gap' _ ih ih' =>
    have hkey := key.length_lt
    have hcolon := colon.length_le
    have hgap := gap.length_le
    have hcomma := comma.length_le
    have hgap' := gap'.length_le
    simp only [List.length_cons] at hcolon hcomma ⊢
    omega
  | infinite =>
    have hname : 0 < "Infinity".toList.length := by decide
    rw [List.length_append, List.length_append]
    omega
  | null | yes | no | nan =>
    rw [List.length_append]
    exact Nat.lt_add_of_pos_left (by decide)

/-- What the reader does with a part that stands there, with as much fuel as it takes. -/
def Meets (fuel depth : Nat) (s : List Char) (rest : List Char) : Part → Prop
  | .value v => Ends rest → 2 * s.length < fuel → Accepted (readValue fuel depth s) (v, rest)
  | .items vs => 2 * s.length + 1 < fuel → Accepted (readItems fuel depth s) (vs, rest)
  | .entries es => 2 * s.length < fuel → Accepted (readEntries fuel depth s) (es, rest)

theorem exists_fuel {n fuel : Nat} (h : n < fuel) : ∃ m, fuel = m + 1 :=
  ⟨fuel - 1, by omega⟩

/-- A list that does not close at once is accepted with its values. -/
theorem accepted_list {fuel depth : Nat} {w : List Char} {vs : List Value} (hgap : Gap w s)
    (h : Stands s (.items vs) rest) (hs : ∀ d, Accepted (readItems fuel d s) (vs, rest)) :
    Accepted (readValue (fuel + 1) depth ('[' :: w)) (.list vs, rest) := by
  cases depth with
  | zero => exact .inr ⟨.depth .list, trivial, rfl⟩
  | succ depth =>
    obtain ⟨c, t, hc, hopens⟩ := h.opens
    have hskip := h.skipBlanks_eq hgap
    rw [readValue_list hopens.2.1 (hskip.trans hc), hskip]
    exact (hs depth).map _

/-- So is a map with its entries. -/
theorem accepted_map {fuel depth : Nat} {w : List Char} {es : List (String × Value)}
    (hgap : Gap w s) (h : Stands s (.entries es) rest)
    (hs : ∀ d, Accepted (readEntries fuel d s) (es, rest)) :
    Accepted (readValue (fuel + 1) depth ('\x7b' :: w)) (.map (Value.entriesOf es), rest) := by
  cases depth with
  | zero => exact .inr ⟨.depth .map, trivial, rfl⟩
  | succ depth =>
    obtain ⟨t, hquote⟩ : ∃ t, s = '"' :: t := by
      cases h <;> exact ⟨_, rfl⟩
    have hskip := h.skipBlanks_eq hgap
    rw [readValue_map (by decide) (hskip.trans hquote), hskip]
    exact (hs depth).map _

/-- What is read behind the key of an entry. -/
theorem readEntries_quoted {fuel depth : Nat} {k t u u' : List Char} (hkey : Quoted s k t)
    (hcolon : Gap t (':' :: u)) (hgap : skipBlanks u = u') :
    readEntries (fuel + 1) depth ('"' :: s) =
      (readValue fuel depth u').bind fun (v, rest) =>
        readAfterEntry fuel depth (String.ofList k, v) (skipBlanks rest) := by
  have hskip : skipBlanks t = ':' :: u := hcolon.skipBlanks_eq (by rintro _ ⟨⟩; rfl)
  rw [readEntries.eq_def]
  simp only [readText_of_quoted _ hkey, bind, Except.bind, hskip, hgap]
  rfl

/-- Whatever stands there is accepted. -/
theorem Stands.meets (h : Stands s part rest) (fuel depth : Nat) :
    Meets fuel depth s rest part := by
  induction h generalizing fuel depth with
  | null | yes | no | nan =>
    intro _ hfuel
    obtain ⟨fuel, rfl⟩ := exists_fuel hfuel
    exact .inl rfl
  | infinite negative =>
    intro _ hfuel
    obtain ⟨fuel, rfl⟩ := exists_fuel hfuel
    cases negative <;> exact .inl rfl
  | number hnumeral =>
    intro hrest hfuel
    obtain ⟨fuel, rfl⟩ := exists_fuel hfuel
    rw [hnumeral.readValue_eq]
    exact hnumeral.accepted hrest
  | text hquoted =>
    intro _ hfuel
    obtain ⟨fuel, rfl⟩ := exists_fuel hfuel
    rw [readValue_quote, readText_of_quoted _ hquoted]
    exact .inl rfl
  | noItems hgap =>
    intro _ hfuel
    obtain ⟨fuel, rfl⟩ := exists_fuel hfuel
    cases depth with
    | zero => exact .inr ⟨.depth .list, trivial, rfl⟩
    | succ depth =>
      change Accepted (readAfterBracket fuel depth (skipBlanks _)) _
      rw [hgap.skipBlanks_eq (by rintro _ ⟨⟩; rfl)]
      exact .inl rfl
  | noEntries hgap =>
    intro _ hfuel
    obtain ⟨fuel, rfl⟩ := exists_fuel hfuel
    cases depth with
    | zero => exact .inr ⟨.depth .map, trivial, rfl⟩
    | succ depth =>
      change Accepted (readAfterBrace fuel depth (skipBlanks _)) _
      rw [hgap.skipBlanks_eq (by rintro _ ⟨⟩; rfl)]
      exact .inl rfl
  | list hgap hitems ih =>
    intro _ hfuel
    obtain ⟨fuel, rfl⟩ := exists_fuel hfuel
    have hlength := hgap.length_le
    rw [List.length_cons] at hfuel
    exact accepted_list hgap hitems fun d => ih fuel d (by omega)
  | map hgap hentries ih =>
    intro _ hfuel
    obtain ⟨fuel, rfl⟩ := exists_fuel hfuel
    have hlength := hgap.length_le
    rw [List.length_cons] at hfuel
    exact accepted_map hgap hentries fun d => ih fuel d (by omega)
  | lastItem hvalue hgap ih =>
    intro hfuel
    obtain ⟨fuel, rfl⟩ := exists_fuel hfuel
    have hends := hgap.ends (by rintro _ ⟨⟩; exact .inr (.inl rfl))
    refine (ih fuel depth hends (by omega)).bind ?_
    simp only [hgap.skipBlanks_eq (by rintro _ ⟨⟩; rfl)]
    exact .inl rfl
  | item hvalue hgap hgap' hmore ih ihmore =>
    intro hfuel
    obtain ⟨fuel, rfl⟩ := exists_fuel hfuel
    have hends := hgap.ends (by rintro _ ⟨⟩; exact .inl rfl)
    have hvaluelt := hvalue.length_lt
    have hlength := hgap.length_le
    have hlength' := hgap'.length_le
    rw [List.length_cons] at hlength
    refine (ih fuel depth hends (by omega)).bind ?_
    simp only [hgap.skipBlanks_eq (by rintro _ ⟨⟩; rfl), hmore.skipBlanks_eq hgap']
    exact Accepted.map (ihmore fuel depth (by omega)) _
  | lastEntry hkey hcolon hgap hvalue hclose ih =>
    intro hfuel
    obtain ⟨fuel, rfl⟩ := exists_fuel hfuel
    have hends := hclose.ends (by rintro _ ⟨⟩; exact .inr (.inr rfl))
    have hkeylt := hkey.length_lt
    have hlength := hcolon.length_le
    have hlength' := hgap.length_le
    rw [List.length_cons] at hfuel hlength
    rw [readEntries_quoted hkey hcolon (hvalue.skipBlanks_eq hgap)]
    refine (ih fuel depth hends (by omega)).bind ?_
    simp only [hclose.skipBlanks_eq (by rintro _ ⟨⟩; rfl)]
    exact .inl rfl
  | entry hkey hcolon hgap hvalue hcomma hgap' hmore ih ihmore =>
    intro hfuel
    obtain ⟨fuel, rfl⟩ := exists_fuel hfuel
    have hends := hcomma.ends (by rintro _ ⟨⟩; exact .inl rfl)
    have hkeylt := hkey.length_lt
    have hcolonle := hcolon.length_le
    have hgaple := hgap.length_le
    have hvaluelt := hvalue.length_lt
    have hcommale := hcomma.length_le
    have hgaple' := hgap'.length_le
    rw [List.length_cons] at hfuel hcolonle hcommale
    rw [readEntries_quoted hkey hcolon (hvalue.skipBlanks_eq hgap)]
    refine (ih fuel depth hends (by omega)).bind ?_
    simp only [hcomma.skipBlanks_eq (by rintro _ ⟨⟩; rfl), readAfterEntry,
      hmore.skipBlanks_eq hgap']
    exact Accepted.map (ihmore fuel depth (by omega)) _

/-- A whole text that says a value is accepted. -/
theorem Says.accepted_readWhole {s : String} (h : Says s v) : Accepted (readWhole s.toList) v := by
  obtain ⟨t, rest, hgap, hstands, hrest⟩ := h
  have hmark : ∀ u, s.toList ≠ '\uFEFF' :: u := by
    obtain ⟨c, w, hc, hopens⟩ := hstands.opens
    obtain ⟨gap, hblanks, heq⟩ := hgap
    intro u hu
    rw [heq, hc] at hu
    cases gap with
    | nil =>
      rw [(List.cons.inj hu).1] at hopens
      exact absurd hopens.2.2 (by decide)
    | cons d gap =>
      have hblank := hblanks d List.mem_cons_self
      rw [(List.cons.inj hu).1] at hblank
      exact absurd hblank (by decide)
  have hends : Ends rest := hrest.ends (by simp)
  have hlength := hgap.length_le
  unfold readWhole
  split
  · next heq => exact absurd heq (hmark _)
  · rw [hstands.skipBlanks_eq hgap]
    refine (hstands.meets _ _ hends (by omega)).bind ?_
    simp only [hrest.skipBlanks_eq (by simp)]
    exact .inl rfl

/-- What a text says is what it is read as, unless a limit is met. -/
theorem Says.read_eq {s : String} (h : Says s v) :
    read s = .ok v ∨ (∃ count, read s = .error (.tooManyDigits count)) ∨
      ∃ nest, read s = .error (.tooDeep nest) := by
  unfold read
  obtain hok | ⟨fault, hlimit, herror⟩ := h.accepted_readWhole
  · rw [hok]
    exact .inl rfl
  · rw [herror]
    cases fault with
    | «at» => exact hlimit.elim
    | digits count => exact .inr (.inl ⟨count, rfl⟩)
    | depth nest => exact .inr (.inr ⟨nest, rfl⟩)

/-- A text that is read as something says nothing else. -/
theorem Says.eq_of_read {s : String} {w : Value} (h : Says s v) (hread : read s = .ok w) :
    w = v := by
  obtain hv | ⟨count, hv⟩ | ⟨nest, hv⟩ := h.read_eq <;> cases hread.symm.trans hv
  rfl

/-- A text that says something is not refused for its form. -/
theorem Says.not_malformed {s : String} (h : Says s v) {complaint : Complaint}
    {line column position : Nat} :
    read s ≠ .error (.malformed complaint line column position) := by
  intro hread
  obtain hv | ⟨count, hv⟩ | ⟨nest, hv⟩ := h.read_eq <;> cases hread.symm.trans hv

end BearerSession.Json
