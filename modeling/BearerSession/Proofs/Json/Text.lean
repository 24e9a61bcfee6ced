import Mathlib.Tactic.IntervalCases
import BearerSession.Json.Reader
import BearerSession.Json.Writer

/-!
# Texts in JSON

A text is written between quotes, with an escape for each quote, backslash and control character,
and for whatever is not ASCII where that is asked for. Reading undoes this character by character:
an escaped character beyond the first plane is a pair of escapes that are read together.
-/

namespace BearerSession.Json

open Text (hex)

/-- A hexadecimal digit reads as its value. -/
theorem hexDigit?_digitChar {d : Nat} (h : d < 16) : hexDigit? (Nat.digitChar d) = some d := by
  interval_cases d <;> rfl

/-- Four hexadecimal digits read as the number they write. -/
theorem exists_hex_eq {n : Nat} (h : n < 0x10000) :
    ∃ p q r s, hex 4 n = [p, q, r, s] ∧ hexUnit? p q r s = some n := by
  refine ⟨_, _, _, _, rfl, ?_⟩
  simp only [hexUnit?, hexDigit?_digitChar (Nat.mod_lt _ (by decide : 0 < 16)), bind,
    Option.bind_some]
  congr 1
  omega

section Character

variable {opening : Nat} {rest : List Char}

/-- An escape of one letter reads as its character. -/
theorem readText_escape {e d : Char} (he : e ≠ 'u') (hd : escaped? e = some d) :
    readText opening ('\\' :: e :: rest) = consChar d (readText opening rest) := by
  rw [readText.eq_def]
  simp [he, hd]

/-- A character that needs no escape reads as itself. -/
theorem readText_plain {c : Char} (hquote : c ≠ '"') (hescape : c ≠ '\\')
    (hcontrol : 0x20 ≤ c.toNat) :
    readText opening (c :: rest) = consChar c (readText opening rest) := by
  rw [readText.eq_def]
  simp [hquote, hescape, Nat.not_lt.mpr hcontrol]

/-- The escape of a unit that nothing joins with reads as its character. -/
theorem readText_unit {p q r s : Char} {unit : Nat} (hunit : hexUnit? p q r s = some unit)
    (hhalf : lowerHalf? unit rest = .ok none) (hrest : rest ≠ []) :
    readText opening ('\\' :: 'u' :: p :: q :: r :: s :: rest) =
      consChar (unitChar unit) (readText opening rest) := by
  have hempty : rest.isEmpty = false := by simpa using hrest
  rw [readText.eq_def]
  simp [hunit, hempty, hhalf]

/-- The escapes of two halves of a pair read as its character. -/
theorem readText_halves {p q r s p' q' r' s' : Char} {high low : Nat}
    (hfirst : hexUnit? p q r s = some high) (hhigh : isHigh high = true)
    (hsecond : hexUnit? p' q' r' s' = some low) (hlow : isLow low = true) (hrest : rest ≠ []) :
    readText opening
        ('\\' :: 'u' :: p :: q :: r :: s :: '\\' :: 'u' :: p' :: q' :: r' :: s' :: rest) =
      consChar (pairChar high low) (readText opening rest) := by
  have hempty : rest.isEmpty = false := by simpa using hrest
  rw [readText.eq_def]
  simp [hfirst, lowerHalf?, hhigh, hempty, hsecond, hlow]

/-- The escape of a unit that is no half of a pair reads as its character. -/
theorem readText_unicodeEscape {unit : Nat} (h : unit < 0xD800 ∨ 0xDFFF < unit)
    (hunit : unit < 0x10000) (hrest : rest ≠ []) :
    readText opening (unicodeEscape unit ++ rest) =
      consChar (Char.ofNat unit) (readText opening rest) := by
  obtain ⟨p, q, r, s, hhex, hvalue⟩ := exists_hex_eq hunit
  have hhigh : isHigh unit = false := by simp [isHigh]; omega
  have hlow : isLow unit = false := by simp [isLow]; omega
  have hhalf : lowerHalf? unit rest = .ok none := by
    unfold lowerHalf?
    split <;> simp [hhigh]
  have hchar : unitChar unit = Char.ofNat unit := by simp [unitChar, hhigh, hlow]
  rw [unicodeEscape, hhex, ← hchar]
  exact readText_unit hvalue hhalf hrest

/-- The escapes of both halves of a pair read as one character. -/
theorem readText_pair {n : Nat} (hn : n < 0x100000) (hrest : rest ≠ []) :
    readText opening
        (unicodeEscape (0xD800 + n / 0x400) ++ (unicodeEscape (0xDC00 + n % 0x400) ++ rest)) =
      consChar (Char.ofNat (0x10000 + n)) (readText opening rest) := by
  obtain ⟨p, q, r, s, hhex, hvalue⟩ := exists_hex_eq (n := 0xD800 + n / 0x400) (by omega)
  obtain ⟨p', q', r', s', hhex', hvalue'⟩ := exists_hex_eq (n := 0xDC00 + n % 0x400) (by omega)
  have hhigh : isHigh (0xD800 + n / 0x400) = true := by simp [isHigh]; omega
  have hlow : isLow (0xDC00 + n % 0x400) = true := by simp [isLow]; omega
  have hpair : pairChar (0xD800 + n / 0x400) (0xDC00 + n % 0x400) = Char.ofNat (0x10000 + n) :=
    congrArg Char.ofNat (by omega)
  rw [unicodeEscape, unicodeEscape, hhex, hhex', ← hpair]
  exact readText_halves hvalue hhigh hvalue' hlow hrest

/-- The code point of a character is no half of a pair. -/
theorem toNat_valid (c : Char) : c.toNat < 0xD800 ∨ 0xDFFF < c.toNat ∧ c.toNat < 0x110000 :=
  c.valid

/-- A written character reads as itself, wherever more of the text follows. -/
theorem readText_writeChar (asciiOnly : Bool) (c : Char) (hrest : rest ≠ []) :
    readText opening (writeChar asciiOnly c ++ rest) = consChar c (readText opening rest) := by
  have hvalid := toNat_valid c
  have hescaped {m : Nat} (hm : c.toNat = m) (h : m < 0x10000) :
      readText opening (unicodeEscape m ++ rest) = consChar c (readText opening rest) := by
    rw [readText_unicodeEscape (by omega) h hrest, ← hm, Char.ofNat_toNat]
  unfold writeChar
  extract_lets n
  split_ifs with hquote hfeed hreturn htab hback hform hcontrol hplain hplane
  · rcases hquote with rfl | rfl <;> exact readText_escape (by decide) rfl
  · subst hfeed
    exact readText_escape (by decide) rfl
  · subst hreturn
    exact readText_escape (by decide) rfl
  · subst htab
    exact readText_escape (by decide) rfl
  · obtain rfl : c = '\x08' := Char.ext (UInt32.toNat_inj.mp hback)
    exact readText_escape (by decide) rfl
  · obtain rfl : c = '\x0C' := Char.ext (UInt32.toNat_inj.mp hform)
    exact readText_escape (by decide) rfl
  · exact hescaped rfl (by omega)
  · rw [not_or] at hquote
    exact readText_plain hquote.1 hquote.2 (Nat.le_of_not_lt hcontrol)
  · exact hescaped rfl hplane
  · have hcode : 0x10000 + (c.toNat - 0x10000) = c.toNat := by omega
    rw [List.append_assoc, readText_pair (by omega) hrest, hcode, Char.ofNat_toNat]

/-- A written text reads as itself up to its closing quote. -/
theorem readText_flatMap_writeChar (asciiOnly : Bool) (s : List Char) :
    readText opening (s.flatMap (writeChar asciiOnly) ++ '"' :: rest) = .ok (s, rest) := by
  induction s with
  | nil =>
    rw [List.flatMap_nil, List.nil_append, readText.eq_def]
    simp
  | cons c s ih =>
    rw [List.flatMap_cons, List.append_assoc, readText_writeChar asciiOnly c (by simp), ih]
    rfl

end Character

end BearerSession.Json
