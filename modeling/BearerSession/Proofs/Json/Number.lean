import Mathlib.Data.List.TakeWhile
import BearerSession.Json.Reader
import BearerSession.Json.Writer
import BearerSession.Proofs.Number.Digits
import BearerSession.Proofs.Number.Shortest

/-!
# Numbers in JSON

A whole number is written by its digits and reads as itself where no digit, point or exponent
follows. A double is written by its shortest digits, with a point among them or an exponent behind
them; whichever it is, the decimal that is read lies in the interval of the double.
-/

namespace BearerSession.Json

open Number (splitDigits digitsValue)

variable {rest : List Char}

/-- What may follow a number: no digit, no point and no exponent. -/
def Ends (rest : List Char) : Prop :=
  ∀ c ∈ rest.head?, c.isDigit = false ∧ c ≠ '.' ∧ c ≠ 'e' ∧ c ≠ 'E'

/-- A point and the digits behind it, unless there are none. -/
def point (fraction : List Char) : List Char :=
  if fraction.isEmpty then [] else '.' :: fraction

/-- The digits behind a point are read up to what is neither a digit nor another point. -/
theorem readFraction_point {fraction : List Char} (hfraction : ∀ c ∈ fraction, c.isDigit = true)
    (hrest : ∀ c ∈ rest.head?, c.isDigit = false ∧ c ≠ '.') :
    readFraction (point fraction ++ rest) = (fraction, rest) := by
  cases fraction with
  | nil =>
    change readFraction rest = _
    unfold readFraction
    split
    · exact absurd rfl (hrest '.' rfl).2
    · rfl
  | cons c cs =>
    have hsplit := Number.splitDigits_of_digits hfraction fun c hc => (hrest c hc).1
    have hread : readFraction ('.' :: (c :: cs ++ rest)) =
        if (splitDigits (c :: cs ++ rest)).1.isEmpty then ([], '.' :: (c :: cs ++ rest))
        else splitDigits (c :: cs ++ rest) := rfl
    rw [hsplit] at hread
    exact hread

/-- What ends a number is no fraction. -/
theorem Ends.readFraction (h : Ends rest) : readFraction rest = ([], rest) :=
  readFraction_point (List.forall_mem_nil _) fun c hc => ⟨(h c hc).1, (h c hc).2.1⟩

/-- It is no exponent either. -/
theorem Ends.readExponent? (h : Ends rest) : readExponent? rest = none := by
  cases rest with
  | nil => rfl
  | cons c rest =>
    obtain ⟨-, -, hsmall, hlarge⟩ := h c rfl
    simp [Json.readExponent?, hsmall, hlarge]

section Whole

variable {whole : List Char}

/-- Whether digits may stand before the point of a number: at least one, and a zero only alone. -/
structure Leads (whole : List Char) : Prop where
  /-- They are digits. -/
  isDigit : ∀ c ∈ whole, c.isDigit = true
  /-- They are a single zero or begin with another digit. -/
  head : whole = ['0'] ∨ ∃ c cs, whole = c :: cs ∧ c ≠ '0'

/-- The digits of a number may. -/
theorem leads_toDigits (n : Nat) : Leads (Nat.toDigits 10 n) := by
  refine ⟨fun _ => Number.isDigit_toDigits, ?_⟩
  obtain rfl | hn := Nat.eq_zero_or_pos n
  · exact .inl rfl
  · obtain ⟨c, cs, hdigits, hc, -⟩ := Number.exists_toDigits_eq_cons hn
    exact .inr ⟨c, cs, hdigits, hc⟩

/-- Such digits open a number. -/
theorem Leads.exists_eq_cons (h : Leads whole) : ∃ c cs, whole = c :: cs ∧ c.isDigit = true := by
  obtain rfl | ⟨c, cs, rfl, -⟩ := h.head
  · exact ⟨'0', [], rfl, rfl⟩
  · exact ⟨c, cs, rfl, h.isDigit c List.mem_cons_self⟩

/-- A number is read as its sign, the digits that may stand before a point, and what follows. -/
theorem readNumber_sign (negative : Bool) (hwhole : Leads whole)
    (hrest : ∀ c ∈ rest.head?, c.isDigit = false) :
    readNumber ((if negative then ['-'] else []) ++ (whole ++ rest)) =
      readNumberTail negative whole rest := by
  obtain rfl | ⟨c, cs, rfl, hc⟩ := hwhole.head
  · cases negative <;> rfl
  · have hdigit := hwhole.isDigit c List.mem_cons_self
    have hsplit : splitDigits (c :: cs ++ rest) = (c :: cs, rest) :=
      Number.splitDigits_of_digits hwhole.isDigit hrest
    have hminus : c ≠ '-' := by
      rintro rfl
      contradiction
    rw [List.cons_append] at hsplit ⊢
    cases negative with
    | false => simp [readNumber, hminus, hdigit, hsplit]
    | true => simp [readNumber, hdigit, hsplit]

/-- A written whole number reads as itself. -/
theorem readNumber_int {n : Int} (hn : n.natAbs < 10 ^ digitLimit) (hrest : Ends rest) :
    readNumber ((if n < 0 then ['-'] else []) ++ (Nat.toDigits 10 n.natAbs ++ rest)) =
      .ok (.int n, rest) := by
  have hlength : ¬ digitLimit < (Nat.toDigits 10 n.natAbs).length :=
    Nat.not_lt.mpr ((Nat.length_toDigits_le_iff (by decide) (by decide)).mpr hn)
  have hsign := readNumber_sign (decide (n < 0)) (leads_toDigits n.natAbs)
    fun c hc => (hrest c hc).1
  have hvalue : (if n < 0 then -(n.natAbs : Int) else n.natAbs) = n := by
    split <;> omega
  clear hn
  simp only [decide_eq_true_eq] at hsign
  rw [hsign]
  simp only [readNumberTail, hrest.readFraction, hrest.readExponent?, List.isEmpty_nil, hlength,
    if_false, Number.digitsValue_toDigits, decide_eq_true_eq, hvalue]

/-- A whole number with too many digits is not read. -/
theorem readNumber_tooManyDigits (negative : Bool) (hwhole : Leads whole)
    (hlong : digitLimit < whole.length) (hrest : Ends rest) :
    readNumber ((if negative then ['-'] else []) ++ (whole ++ rest)) =
      .error (.digits whole.length) := by
  rw [readNumber_sign negative hwhole fun c hc => (hrest c hc).1]
  simp only [readNumberTail, hrest.readFraction, hrest.readExponent?, List.isEmpty_nil, hlong,
    if_true]

end Whole

section Real

variable {whole fraction : List Char} {digits : Nat} {power : Int}

/-- Whether a text reads as a decimal with digits and a power of ten, after either sign. -/
structure ReadsAs (body : List Char) (digits : Nat) (power : Int) : Prop where
  /-- It begins with a digit. -/
  opens : ∃ c t, body = c :: t ∧ c.isDigit = true
  /-- It is read up to what ends it. -/
  reads : ∀ negative {rest}, Ends rest →
    readNumber ((if negative then ['-'] else []) ++ (body ++ rest)) =
      .ok (.real (.ofDecimal negative digits power), rest)

/-- The text of a decimal goes on after the digits before its point with something else. -/
theorem isDigit_head_point (fraction : List Char) {c : Char} (hc : c.isDigit = false) :
    ∀ d ∈ (point fraction ++ c :: rest).head?, d.isDigit = false := by
  cases fraction <;> (rintro _ ⟨⟩; first | exact hc | rfl)

/-- Digits with a point among them read as a decimal. -/
theorem readsAs_point (hwhole : Leads whole) (hfraction : ∀ c ∈ fraction, c.isDigit = true)
    (hne : fraction ≠ []) :
    ReadsAs (whole ++ '.' :: fraction) (digitsValue (whole ++ fraction)) (-fraction.length) where
  opens := by
    obtain ⟨c, cs, rfl, hc⟩ := hwhole.exists_eq_cons
    exact ⟨c, _, rfl, hc⟩
  reads negative rest hrest := by
    have hpoint : point fraction = '.' :: fraction := by simp [point, hne]
    have hread := readFraction_point hfraction fun c hc => ⟨(hrest c hc).1, (hrest c hc).2.1⟩
    rw [← hpoint, List.append_assoc,
      readNumber_sign negative hwhole (by rw [hpoint]; rintro _ ⟨⟩; rfl)]
    simp [readNumberTail, hread, hne, hrest.readExponent?]

/-- The sign of an exponent, which is always written. -/
def exponentSign (negative : Bool) : Char := if negative then '-' else '+'

/-- Digits with an exponent behind them read as a decimal. -/
theorem readsAs_exponent {size : List Char} (negative : Bool) (hwhole : Leads whole)
    (hfraction : ∀ c ∈ fraction, c.isDigit = true) (hsize : ∀ c ∈ size, c.isDigit = true)
    (hne : size ≠ []) :
    ReadsAs (whole ++ point fraction ++ 'e' :: exponentSign negative :: size)
      (digitsValue (whole ++ fraction))
      ((if negative then -(digitsValue size : Int) else digitsValue size) - fraction.length) where
  opens := by
    obtain ⟨c, cs, rfl, hc⟩ := hwhole.exists_eq_cons
    exact ⟨c, _, rfl, hc⟩
  reads sign rest hrest := by
    have hsplit := Number.splitDigits_of_digits hsize fun c hc => (hrest c hc).1
    have hexponent : readExponent? ('e' :: exponentSign negative :: (size ++ rest)) =
        some (if negative then -(digitsValue size : Int) else digitsValue size, rest) := by
      cases negative <;> simp [readExponent?, exponentSign, hsplit, hne]
    have hread : readFraction (point fraction ++ 'e' :: exponentSign negative :: (size ++ rest)) =
        (fraction, 'e' :: exponentSign negative :: (size ++ rest)) :=
      readFraction_point hfraction (by rintro _ ⟨⟩; decide)
    rw [List.append_assoc, List.append_assoc, List.cons_append, List.cons_append,
      readNumber_sign sign hwhole (isDigit_head_point fraction rfl)]
    simp [readNumberTail, hread, hexponent]

end Real

section Layouts

open Binary64

variable {digits : List Char} {whole top : Int}

/-- Whether digits are the shortest form of a positive number: they do not begin with a zero. -/
structure Shown (digits : List Char) : Prop where
  /-- They are digits. -/
  isDigit : ∀ c ∈ digits, c.isDigit = true
  /-- There is a first one, and it is no zero. -/
  head : ∃ c cs, digits = c :: cs ∧ c ≠ '0'

/-- Where a point stands within or behind such digits, zeros are added behind them at most. -/
theorem exists_readsAs_positional (hdigits : Shown digits) (hwhole : whole ≤ 16) :
    ∃ zeros ≤ 17, ReadsAs (positional digits whole) (digitsValue digits * 10 ^ zeros)
      (whole - digits.length - (zeros : Nat)) := by
  have hzero (n : Nat) : ∀ c ∈ List.replicate n '0', c.isDigit = true := fun c hc => by
    rw [List.eq_of_mem_replicate hc]
    rfl
  obtain ⟨c, cs, hcons, hc⟩ := hdigits.head
  unfold positional
  split
  · next hle =>
    refine ⟨0, by decide, ?_⟩
    have hread : ReadsAs (['0'] ++ '.' :: (List.replicate whole.natAbs '0' ++ digits)) _ _ :=
      readsAs_point ⟨hzero 1, .inl rfl⟩
        (List.forall_mem_append.mpr ⟨hzero _, hdigits.isDigit⟩) (by simp [hcons])
    have hvalue : digitsValue (['0'] ++ (List.replicate whole.natAbs '0' ++ digits)) =
        digitsValue digits * 10 ^ 0 := by
      rw [← List.append_assoc, Number.digitsValue_append, Number.digitsValue_append,
        Number.digitsValue_replicate_zero]
      simp [digitsValue]
    have hpower : -((List.replicate whole.natAbs '0' ++ digits).length : Int) =
        whole - digits.length - (0 : Nat) := by
      simp only [List.length_append, List.length_replicate]
      omega
    rw [hvalue, hpower] at hread
    exact hread
  · next hle =>
    dsimp only
    by_cases hlength : digits.length ≤ whole.toNat
    · refine ⟨whole.toNat - digits.length + 1, by omega, ?_⟩
      rw [List.take_of_length_le hlength, List.drop_of_length_le hlength]
      have hleads : Leads (digits ++ List.replicate (whole.toNat - digits.length) '0') :=
        ⟨List.forall_mem_append.mpr ⟨hdigits.isDigit, hzero _⟩,
          .inr ⟨c, cs ++ List.replicate (whole.toNat - digits.length) '0', by rw [hcons]; rfl, hc⟩⟩
      have hread := readsAs_point hleads (show ∀ c ∈ ['0'], _ from hzero 1) (by simp)
      have hvalue : digitsValue
          (digits ++ List.replicate (whole.toNat - digits.length) '0' ++ ['0']) =
          digitsValue digits * 10 ^ (whole.toNat - digits.length + 1) := by
        rw [List.append_assoc, ← List.replicate_succ', Number.digitsValue_append,
          Number.digitsValue_replicate_zero, List.length_replicate, Nat.add_zero]
      have hpower : -((['0'] : List Char).length : Int) =
          whole - digits.length - (whole.toNat - digits.length + 1 : Nat) := by
        simp only [List.length_singleton]
        omega
      rw [hvalue, hpower] at hread
      exact hread
    · obtain ⟨n, hn⟩ : ∃ n, whole.toNat = n + 1 := ⟨whole.toNat - 1, by omega⟩
      refine ⟨0, by decide, ?_⟩
      have hright : (digits.drop whole.toNat).isEmpty = false := by simpa using hlength
      have hleads : Leads (digits.take whole.toNat) :=
        ⟨fun d hd => hdigits.isDigit d (List.mem_of_mem_take hd),
          .inr ⟨c, cs.take n, by rw [hcons, hn, List.take_succ_cons], hc⟩⟩
      have hfraction : ∀ d ∈ digits.drop whole.toNat, d.isDigit = true := fun d hd =>
        hdigits.isDigit d (List.mem_of_mem_drop hd)
      have hread := readsAs_point hleads hfraction (by simpa using hlength)
      have hpower : -((digits.drop whole.toNat).length : Int) =
          whole - digits.length - (0 : Nat) := by
        rw [List.length_drop]
        omega
      rw [List.take_append_drop, hpower] at hread
      rw [Nat.sub_eq_zero_of_le (Nat.le_of_not_le hlength), List.replicate_zero, List.append_nil,
        hright, if_neg Bool.false_ne_true, Nat.pow_zero, Nat.mul_one]
      exact hread

/-- The digits of an exponent, of which there are at least two. -/
def exponentDigits (top : Int) : List Char :=
  let size := (Nat.repr top.natAbs).toList
  if size.length < 2 then '0' :: size else size

/-- With an exponent a point stands behind the first digit, if there are more. -/
theorem scientific_cons (c : Char) (cs : List Char) (top : Int) :
    scientific (c :: cs) top =
      [c] ++ point cs ++ 'e' :: exponentSign (decide (top < 0)) :: exponentDigits top := by
  unfold scientific point exponentSign exponentDigits
  simp only [decide_eq_true_eq]
  cases cs <;> rfl

/-- The digits of an exponent write its size. -/
theorem exponentDigits_spec (top : Int) : (∀ c ∈ exponentDigits top, c.isDigit = true) ∧
    exponentDigits top ≠ [] ∧ digitsValue (exponentDigits top) = top.natAbs := by
  have hdigit : ∀ c ∈ Nat.toDigits 10 top.natAbs, c.isDigit = true :=
    fun c => Number.isDigit_toDigits
  have hvalue := Number.digitsValue_toDigits top.natAbs
  simp only [exponentDigits, Nat.repr, String.toList_ofList]
  split
  · exact ⟨List.forall_mem_cons.mpr ⟨rfl, hdigit⟩, List.cons_ne_nil _ _, hvalue⟩
  · exact ⟨hdigit, Nat.toDigits_ne_nil, hvalue⟩

/-- With an exponent the digits stand as they are. -/
theorem readsAs_scientific (hdigits : Shown digits) :
    ReadsAs (scientific digits top) (digitsValue digits) (top + 1 - digits.length) := by
  obtain ⟨c, cs, rfl, hc⟩ := hdigits.head
  obtain ⟨hdigit, hne, hvalue⟩ := exponentDigits_spec top
  have hleads : Leads [c] :=
    ⟨List.forall_mem_singleton.mpr (hdigits.isDigit c List.mem_cons_self), .inr ⟨c, [], rfl, hc⟩⟩
  have hfraction : ∀ d ∈ cs, d.isDigit = true := fun d hd =>
    hdigits.isDigit d (List.mem_cons_of_mem _ hd)
  have hread := readsAs_exponent (decide (top < 0)) hleads hfraction hdigit hne
  have hpower : (if decide (top < 0) = true then -(top.natAbs : Int) else top.natAbs) - cs.length =
      top + 1 - (c :: cs).length := by
    rw [List.length_cons]
    simp only [decide_eq_true_eq]
    split <;> omega
  rw [hvalue, hpower] at hread
  rw [scientific_cons]
  exact hread

/-- The digits of a number in the layout that its size asks for. -/
def layOut (digits : List Char) (top : Int) : List Char :=
  if -4 ≤ top ∧ top < 16 then positional digits (top + 1) else scientific digits top

/-- In either layout the digits stand at their places, up to zeros behind them. -/
theorem exists_readsAs_layOut (top : Int) (hdigits : Shown digits) :
    ∃ zeros ≤ 17, ReadsAs (layOut digits top) (digitsValue digits * 10 ^ zeros)
      (top + 1 - digits.length - (zeros : Nat)) := by
  unfold layOut
  split
  · exact exists_readsAs_positional hdigits (by omega)
  · refine ⟨0, by decide, ?_⟩
    rw [Nat.pow_zero, Nat.mul_one, Int.natCast_zero, Int.sub_zero]
    exact readsAs_scientific hdigits

/-- Only zeros are dropped from the end of digits. -/
theorem exists_dropTrailingZeros_append (digits : List Char) :
    ∃ zeros, digits = dropTrailingZeros digits ++ List.replicate zeros '0' := by
  refine ⟨(digits.reverse.takeWhile (· == '0')).length, ?_⟩
  have hzeros : (digits.reverse.takeWhile (· == '0')).reverse =
      List.replicate (digits.reverse.takeWhile (· == '0')).length '0' :=
    List.eq_replicate_iff.mpr ⟨List.length_reverse, fun d hd =>
      beq_iff_eq.mp (List.mem_takeWhile_imp (p := (· == '0')) (List.mem_reverse.mp hd))⟩
  rw [dropTrailingZeros, ← hzeros, ← List.reverse_append, List.takeWhile_append_dropWhile,
    List.reverse_reverse]

/-- Without the zeros at their end the digits of a positive number are in their shortest form. -/
theorem shown_dropTrailingZeros {n : Nat} (hn : 0 < n) :
    Shown (dropTrailingZeros (Nat.toDigits 10 n)) := by
  obtain ⟨c, cs, hcons, hc, -⟩ := Number.exists_toDigits_eq_cons hn
  obtain ⟨zeros, hsplit⟩ := exists_dropTrailingZeros_append (Nat.toDigits 10 n)
  refine ⟨fun d hd => Number.isDigit_toDigits (n := n) ?_, ?_⟩
  · rw [hsplit]
    exact List.mem_append_left _ hd
  · generalize dropTrailingZeros (Nat.toDigits 10 n) = shown at hsplit
    rw [hcons] at hsplit
    cases shown with
    | nil =>
      rw [List.nil_append] at hsplit
      exact absurd (List.eq_of_mem_replicate (hsplit ▸ List.mem_cons_self)) hc
    | cons d ds => exact ⟨d, ds, rfl, (List.cons.inj hsplit).1 ▸ hc⟩

section Text

variable {mantissa : Nat} {exponent : Int} (negative : Bool)

/-- A sign stands before the text of a negative number. -/
theorem toList_sign (body : String) : (if negative = true then "-" ++ body else body).toList =
    (if negative then ['-'] else []) ++ body.toList := by
  cases negative <;> simp

/-- The text of a zero has one digit behind the point. -/
theorem toList_text_zero : (text (.finite negative 0 exponent)).toList =
    (if negative then ['-'] else []) ++ ['0', '.', '0'] := by
  simp only [text, if_true]
  exact toList_sign negative "0.0"

/-- The text of another finite double lays out its shortest digits. -/
theorem toList_text (hpos : 0 < mantissa) : (text (.finite negative mantissa exponent)).toList =
    (if negative then ['-'] else []) ++
      layOut (dropTrailingZeros (Nat.toDigits 10 (shortest mantissa exponent).1))
        ((shortest mantissa exponent).2 +
          (Nat.toDigits 10 (shortest mantissa exponent).1).length - 1) := by
  simp only [text, Nat.ne_of_gt hpos, if_false, Nat.repr, String.toList_ofList]
  rw [toList_sign, String.toList_ofList]
  rfl

/-- The text of a finite double is a sign and a decimal that reads as this double. -/
theorem exists_toList_text (hfits : Fits mantissa exponent) :
    ∃ body digits power, (text (.finite negative mantissa exponent)).toList =
        (if negative then ['-'] else []) ++ body ∧ ReadsAs body digits power ∧
      ofDecimal negative digits power = .finite negative mantissa exponent := by
  obtain rfl | hpos := Nat.eq_zero_or_pos mantissa
  · have hexponent : exponent = leastExponent := hfits.normal.resolve_left (by decide)
    have hzero : ∀ c ∈ ['0'], c.isDigit = true := List.forall_mem_singleton.mpr rfl
    have hread := readsAs_point ⟨hzero, .inl rfl⟩ hzero (List.cons_ne_nil _ _)
    refine ⟨_, _, _, toList_text_zero negative, hread, ?_⟩
    rw [hexponent]
    rfl
  · obtain ⟨hn, hbound, hrounds⟩ := shortest_spec hfits hpos
    have htext : (text (.finite negative mantissa exponent)).toList = _ := toList_text negative hpos
    generalize shortest mantissa exponent = found at hn hbound hrounds htext
    obtain ⟨n, last⟩ := found
    dsimp only at hn hbound hrounds htext
    have hshown := shown_dropTrailingZeros hn
    obtain ⟨zeros, hsplit⟩ := exists_dropTrailingZeros_append (Nat.toDigits 10 n)
    have hvalue : digitsValue (dropTrailingZeros (Nat.toDigits 10 n)) * 10 ^ zeros = n := by
      have happend := congrArg digitsValue hsplit
      rw [Number.digitsValue_toDigits, Number.digitsValue_append,
        Number.digitsValue_replicate_zero, List.length_replicate] at happend
      exact happend.symm
    have hlength : (Nat.toDigits 10 n).length =
        (dropTrailingZeros (Nat.toDigits 10 n)).length + zeros := by
      conv_lhs => rw [hsplit, List.length_append, List.length_replicate]
    generalize dropTrailingZeros (Nat.toDigits 10 n) = shown at hshown hvalue hlength htext
    obtain ⟨more, hmore, hread⟩ :=
      exists_readsAs_layOut (last + (Nat.toDigits 10 n).length - 1) hshown
    have hpower : last + (Nat.toDigits 10 n).length - 1 + 1 - shown.length - (more : Nat) =
        last + zeros - (more : Nat) := by omega
    rw [hpower] at hread
    refine ⟨_, _, _, htext, hread, ofDecimal_of_rounds negative hfits hpos ?_ ?_⟩
    · calc
        digitsValue shown * 10 ^ more ≤ n * 10 ^ 17 :=
          Nat.mul_le_mul (hvalue ▸ Nat.le_mul_of_pos_right _ (Nat.pow_pos (by decide)))
            (Nat.pow_le_pow_right (by decide) hmore)
        _ < 10 ^ 40 := by omega
    · have hsame : ((digitsValue shown * 10 ^ more : Nat) : ℚ) *
          10 ^ (last + zeros - (more : Nat)) = n * 10 ^ last := by
        rw [← hvalue]
        push_cast
        rw [zpow_sub₀ (by norm_num), zpow_add₀ (by norm_num), zpow_natCast, zpow_natCast]
        field_simp
      rwa [hsame]

end Text

end Layouts

end BearerSession.Json
