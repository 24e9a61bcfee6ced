import Mathlib.Data.List.TakeWhile
import BearerSession.Number.Word
import BearerSession.Proofs.Number.Digits

/-!
# Plain numbers among arguments

A number written by its digits alone is read as the number, up to the greatest length that is read.
-/

namespace BearerSession.Number

variable {n : Nat}

/-- The digits of a number are neither blanks nor signs, points or underscores. -/
theorem ne_of_mem_toDigits {c d : Char} (hc : c ∈ Nat.toDigits 10 n) (hd : d.isDigit = false) :
    c ≠ d := by
  rintro rfl
  rw [isDigit_toDigits hc] at hd
  contradiction

/-- Digits are no white space. -/
theorem isWhiteSpace_of_isDigit {c : Char} (h : c.isDigit = true) :
    Text.isWhiteSpace c = false := by
  have hrange : 48 ≤ c.toNat ∧ c.toNat ≤ 57 := by
    simpa [Char.isDigit, UInt32.le_iff_toNat_le] using h
  simp [Text.isWhiteSpace]
  omega

/-- No two underscores stand among digits. -/
theorem hasDoubleUnderscore_eq_false {s : List Char} (h : '_' ∉ s) :
    hasDoubleUnderscore s = false := by
  induction s with
  | nil => rfl
  | cons c rest ih =>
    rw [List.mem_cons, not_or] at h
    unfold hasDoubleUnderscore
    split
    · next heq => exact absurd (List.cons.inj heq).1.symm h.1
    · next heq =>
      obtain ⟨-, rfl⟩ := List.cons.inj heq
      exact ih h.2
    · rfl

/-- Digits have no plus sign that is left out. -/
theorem withoutPlus?_toDigits (n : Nat) :
    withoutPlus? (Nat.toDigits 10 n) = some (Nat.toDigits 10 n) := by
  have hplus : '+' ∉ Nat.toDigits 10 n := fun h => ne_of_mem_toDigits h rfl rfl
  unfold withoutPlus?
  split
  · next heq => exact absurd (heq ▸ List.mem_cons_self) hplus
  · next heq => exact absurd (heq ▸ List.mem_cons_self) hplus
  · rfl

/-- They begin with no zeros that are left out. -/
theorem withoutLeadingZeros?_toDigits (n : Nat) :
    withoutLeadingZeros? (Nat.toDigits 10 n) = some (Nat.toDigits 10 n) := by
  have hminus : '-' ∉ Nat.toDigits 10 n := fun h => ne_of_mem_toDigits h rfl rfl
  unfold withoutLeadingZeros?
  split
  · next heq => exact absurd (heq ▸ List.mem_cons_self) hminus
  · rcases Nat.eq_zero_or_pos n with rfl | hpos
    · rfl
    · obtain ⟨c, cs, hdigits, hzero, hdigit⟩ := exists_toDigits_eq_cons hpos
      rw [hdigits]
      simp only [withoutZeros?, hzero, if_false, hdigit, if_true]

/-- They have no fraction. -/
theorem withoutZeroFraction_toDigits (n : Nat) :
    withoutZeroFraction (Nat.toDigits 10 n) = Nat.toDigits 10 n := by
  have hpoint : (Nat.toDigits 10 n).dropWhile (· ≠ '.') = [] := by
    refine List.dropWhile_eq_nil_iff.mpr fun c hc => ?_
    simpa using ne_of_mem_toDigits hc (show ('.' : Char).isDigit = false from rfl)
  unfold withoutZeroFraction
  rw [hpoint]

/-- They have no underscores. -/
theorem withoutUnderscores?_toDigits (n : Nat) :
    withoutUnderscores? (Nat.toDigits 10 n) = some (Nat.toDigits 10 n) := by
  have hscore : '_' ∉ Nat.toDigits 10 n := fun h => ne_of_mem_toDigits h rfl rfl
  have hfirst : (Nat.toDigits 10 n).head? ≠ some '_' := fun h => hscore (List.mem_of_mem_head? h)
  have hlast : (Nat.toDigits 10 n).getLast? ≠ some '_' :=
    fun h => hscore (List.mem_of_getLast? h)
  have hkept : (Nat.toDigits 10 n).filter (· ≠ '_') = Nat.toDigits 10 n := by
    refine List.filter_eq_self.mpr fun c hc => ?_
    simpa using ne_of_mem_toDigits hc (show ('_' : Char).isDigit = false from rfl)
  unfold withoutUnderscores?
  rw [if_neg (by simp [hfirst, hlast, hasDoubleUnderscore_eq_false hscore]), hkept]

/-- They are a number as it is written without liberties. -/
theorem plainWhole?_toDigits (hn : (Nat.toDigits 10 n).length ≤ wholeLimit) :
    plainWhole? (Nat.toDigits 10 n) = some (n : Int) := by
  obtain ⟨c, cs, hdigits⟩ := List.exists_cons_of_ne_nil (Nat.toDigits_ne_nil (n := n) (b := 10))
  have hmem : c ∈ Nat.toDigits 10 n := hdigits ▸ List.mem_cons_self
  have hplus : c ≠ '+' := ne_of_mem_toDigits hmem rfl
  have hminus : c ≠ '-' := ne_of_mem_toDigits hmem rfl
  have hsign : splitSign (c :: cs) = (false, c :: cs) := by
    unfold splitSign
    split
    · next heq => exact absurd (List.cons.inj heq).1 hminus
    · next heq => exact absurd (List.cons.inj heq).1 hplus
    · rfl
  have hall : (c :: cs).all Char.isDigit = true :=
    List.all_eq_true.mpr fun d hd => isDigit_toDigits (hdigits ▸ hd)
  have hzero : c = '0' → c = '0' ∧ cs = [] := by
    rintro rfl
    refine ⟨rfl, ?_⟩
    rcases Nat.eq_zero_or_pos n with rfl | hpos
    · exact (List.cons.inj hdigits).2.symm
    · obtain ⟨d, ds, hother, hne, -⟩ := exists_toDigits_eq_cons hpos
      rw [hdigits] at hother
      exact absurd (List.cons.inj hother).1.symm hne
  have hvalue := digitsValue_toDigits n
  rw [hdigits] at hn hvalue ⊢
  unfold plainWhole?
  rw [hsign]
  dsimp only
  rw [if_neg (by simpa [hplus] using List.all_eq_true.mp hall), if_neg (Nat.not_lt.mpr hn),
    if_neg (by simpa using hzero), hvalue]
  rfl

/-- A number is read from its digits. -/
theorem whole?_toString (hn : (toString n).length ≤ wholeLimit) :
    whole? (toString n) = some (n : Int) := by
  have hlist : (toString n).toList = Nat.toDigits 10 n := Nat.toList_repr
  rw [← String.length_toList, hlist] at hn
  have htrim : Text.trimList Text.isWhiteSpace (Nat.toDigits 10 n) = Nat.toDigits 10 n :=
    Text.trimList_eq_self
      (fun c hc => isWhiteSpace_of_isDigit (isDigit_toDigits (List.mem_of_mem_head? hc)))
      (fun c hc => isWhiteSpace_of_isDigit (isDigit_toDigits (List.mem_of_getLast? hc)))
  simp only [whole?, hlist, htrim, withoutPlus?_toDigits, withoutLeadingZeros?_toDigits,
    withoutZeroFraction_toDigits, withoutUnderscores?_toDigits, bind, Option.bind_some,
    plainWhole?_toDigits hn]

end BearerSession.Number
