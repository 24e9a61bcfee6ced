import Mathlib.Data.List.Induction
import Mathlib.Tactic.Ring
import BearerSession.Number.Digits

/-!
# The digits of a number

The decimal digits of a number write it, do not begin with a zero unless it is zero, and are told
apart from whatever follows that is no digit.
-/

namespace BearerSession.Number

/-- The digits of a number write it. -/
theorem digitsValue_toDigits (n : Nat) : digitsValue (Nat.toDigits 10 n) = n := by
  have hfold : digitsValue (Nat.toDigits 10 n) = Nat.ofDigitChars 10 (Nat.toDigits 10 n) 0 := by
    simp only [digitsValue, Nat.ofDigitChars_eq_foldl, Nat.mul_comm]
    rfl
  rw [hfold, Nat.ofDigitChars_ten_toDigits]

/-- They are digits. -/
theorem isDigit_toDigits {n : Nat} {c : Char} (h : c ∈ Nat.toDigits 10 n) : c.isDigit = true :=
  Nat.isDigit_of_mem_toDigits (by decide) (by decide) h

/-- Digits end where something follows that is none. -/
theorem splitDigits_of_digits {digits rest : List Char} (hdigits : ∀ c ∈ digits, c.isDigit = true)
    (h : ∀ c ∈ rest.head?, c.isDigit = false) : splitDigits (digits ++ rest) = (digits, rest) := by
  have hrest : rest.takeWhile Char.isDigit = [] ∧ rest.dropWhile Char.isDigit = rest := by
    cases rest with
    | nil => exact ⟨rfl, rfl⟩
    | cons c rest => simp [h c rfl]
  rw [splitDigits, List.takeWhile_append_of_pos hdigits, List.dropWhile_append_of_pos hdigits,
    hrest.1, hrest.2, List.append_nil]

/-- Digits behind others make these count for so many places more. -/
theorem digitsValue_append (a b : List Char) :
    digitsValue (a ++ b) = digitsValue a * 10 ^ b.length + digitsValue b := by
  induction b using List.reverseRecOn with
  | nil => simp [digitsValue]
  | append_singleton b c ih =>
    have hlast (digits : List Char) :
        digitsValue (digits ++ [c]) = digitsValue digits * 10 + (c.toNat - 0x30) := by
      simp [digitsValue]
    rw [← List.append_assoc, hlast, ih, hlast, List.length_append, List.length_singleton,
      Nat.pow_succ]
    ring

/-- Zeros count for nothing. -/
theorem digitsValue_replicate_zero (n : Nat) : digitsValue (List.replicate n '0') = 0 := by
  induction n with
  | zero => rfl
  | succ n ih => rw [List.replicate_succ', digitsValue_append, ih]; rfl

/-- Digits write less than the power of ten of their number. -/
theorem digitsValue_lt {digits : List Char} (h : ∀ c ∈ digits, c.isDigit = true) :
    digitsValue digits < 10 ^ digits.length := by
  induction digits using List.reverseRecOn with
  | nil => decide
  | append_singleton digits c ih =>
    have hc : 48 ≤ c.toNat ∧ c.toNat ≤ 57 := by
      simpa [Char.isDigit, UInt32.le_iff_toNat_le] using h c (by simp)
    have hdigits := ih fun d hd => h d (List.mem_append_left _ hd)
    have hlast : digitsValue [c] = c.toNat - 0x30 := by simp [digitsValue]
    rw [digitsValue_append, hlast, List.length_append, List.length_singleton, Nat.pow_succ]
    omega

/-- Only zero begins with a zero. -/
theorem exists_toDigits_eq_cons {n : Nat} (h : 0 < n) :
    ∃ c cs, Nat.toDigits 10 n = c :: cs ∧ c ≠ '0' ∧ c.isDigit = true := by
  induction n using Nat.strongRecOn with
  | ind n ih =>
    by_cases hn : n < 10
    · refine ⟨n.digitChar, [], Nat.toDigits_of_lt_base hn, fun hzero => ?_, ?_⟩
      · have hvalue := digitsValue_toDigits n
        rw [Nat.toDigits_of_lt_base hn, hzero] at hvalue
        exact absurd hvalue.symm (Nat.ne_of_gt h)
      · exact isDigit_toDigits (Nat.toDigits_of_lt_base hn ▸ List.mem_singleton_self _)
    · obtain ⟨c, cs, hdigits, hc⟩ := ih (n / 10) (by omega) (by omega)
      refine ⟨c, cs ++ [(n % 10).digitChar], ?_, hc⟩
      rw [Nat.toDigits_of_base_le (by decide) (Nat.le_of_not_lt hn), hdigits, List.cons_append]

end BearerSession.Number
