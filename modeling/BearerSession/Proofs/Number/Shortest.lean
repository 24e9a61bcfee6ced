import BearerSession.Proofs.Number.Nearest

/-!
# The shortest digits of a double

The digits that are found for a double lie in its interval, so they read back as the double, and
seventeen of them are always enough: the decimals of that length lie closer to each other than the
ends of the interval.
-/

namespace BearerSession.Binary64

variable {mantissa digits : Nat} {exponent p : Int}

/-- The two whole numbers of a grid have the ratio of its powers. -/
theorem gridRatio_eq (e p : Int) :
    0 < (gridRatio e p).2 ∧ ((gridRatio e p).1 : ℚ) * 10 ^ p = 2 ^ e * (gridRatio e p).2 := by
  have hpower (base : ℚ) (hbase : base ≠ 0) (n : Int) :
      base ^ n.toNat = base ^ n * base ^ (-n).toNat := by
    rw [← zpow_natCast, ← zpow_natCast, ← zpow_add₀ hbase]
    congr 1
    omega
  have htwo := hpower 2 two_ne_zero e
  have hten := hpower 10 (by norm_num) p
  simp only [gridRatio, Nat.pow_eq]
  refine ⟨by positivity, ?_⟩
  push_cast
  rw [htwo, hten]
  ring

/-- Multiples of a power of two and of a power of ten are compared in whole numbers. -/
theorem mul_two_le_iff (x y : Nat) (e p : Int) :
    (x : ℚ) * 2 ^ e ≤ y * 10 ^ p ↔ x * (gridRatio e p).1 ≤ y * (gridRatio e p).2 := by
  obtain ⟨hb, hunit⟩ := gridRatio_eq e p
  have hb' : (0 : ℚ) < (gridRatio e p).2 := by exact_mod_cast hb
  have hten : (0 : ℚ) < 10 ^ p := by positivity
  have hleft : (x : ℚ) * 2 ^ e * (gridRatio e p).2 = x * (gridRatio e p).1 * 10 ^ p := by
    rw [mul_assoc, ← hunit, mul_assoc]
  rw [← mul_le_mul_iff_left₀ hb', hleft, mul_right_comm (y : ℚ), mul_le_mul_iff_left₀ hten]
  exact_mod_cast Iff.rfl

/-- So they are the other way round. -/
theorem mul_ten_le_iff (x y : Nat) (e p : Int) :
    (y : ℚ) * 10 ^ p ≤ x * 2 ^ e ↔ y * (gridRatio e p).2 ≤ x * (gridRatio e p).1 := by
  obtain ⟨hb, hunit⟩ := gridRatio_eq e p
  have hb' : (0 : ℚ) < (gridRatio e p).2 := by exact_mod_cast hb
  have hten : (0 : ℚ) < 10 ^ p := by positivity
  have hright : (x : ℚ) * 2 ^ e * (gridRatio e p).2 = x * (gridRatio e p).1 * 10 ^ p := by
    rw [mul_assoc, ← hunit, mul_assoc]
  rw [← mul_le_mul_iff_left₀ hb', hright, mul_right_comm (y : ℚ), mul_le_mul_iff_left₀ hten]
  exact_mod_cast Iff.rfl

section Digits

/-- Digits are held by an interval just where the decimal lies in it. -/
theorem holds_iff :
    (interval mantissa exponent).holds (gridRatio (exponent - 2) p).1
        (gridRatio (exponent - 2) p).2 digits = true ↔
      Rounds mantissa exponent (digits * 10 ^ p) := by
  simp only [Interval.holds, Rounds]
  split
  · rw [Bool.and_eq_true, decide_eq_true_eq, decide_eq_true_eq, mul_two_le_iff, mul_ten_le_iff]
  · rw [Bool.and_eq_true, decide_eq_true_eq, decide_eq_true_eq, ← not_le, ← not_le,
      ← mul_two_le_iff, ← mul_ten_le_iff, not_le, not_le]

/-- What is found on a grid reads back as the double. -/
theorem rounds_of_onGrid? (h : onGrid? mantissa exponent p = some digits) :
    Rounds mantissa exponent (digits * 10 ^ p) := by
  rw [← holds_iff]
  simp only [onGrid?] at h
  split at h
  · next hfloor _ =>
    cases h
    exact hfloor
  · next _ hnext =>
    cases h
    exact hnext
  · contradiction
  · next hfloor hnext =>
    split at h
    · cases h
      exact hfloor
    · cases h
      exact hnext
    · cases h
      split
      · exact hfloor
      · exact hnext

/-- An interval holds one of two neighbours around its centre, if they are closer to each other than
its ends. -/
theorem Interval.holds_or_next {i : Interval} {a b floor : Nat} (hbelow : i.below ≤ i.centre)
    (habove : 0 < i.above) (hclose : b < (i.below + i.above) * a)
    (hfloor : floor * b ≤ i.centre * a) (hnext : i.centre * a < (floor + 1) * b) :
    i.holds a b floor = true ∨ i.holds a b (floor + 1) = true := by
  have hpos : 0 < i.above * a := by
    refine Nat.mul_pos habove (Nat.pos_of_ne_zero ?_)
    rintro rfl
    simp at hclose
  have hlow : (i.centre - i.below) * a + i.below * a = i.centre * a := by
    rw [← Nat.add_mul, Nat.sub_add_cancel hbelow]
  rw [Nat.add_mul] at hclose hnext
  simp only [Interval.holds, Nat.add_mul]
  generalize (i.centre - i.below) * a = low at hlow ⊢
  generalize i.centre * a = centre at hlow hfloor hnext ⊢
  generalize i.below * a = below at hlow hclose
  generalize i.above * a = above at hclose hpos ⊢
  generalize floor * b = x at hfloor hnext ⊢
  split <;> simp only [Bool.and_eq_true, decide_eq_true_eq] <;> omega

/-- On a grid that is finer than the interval of a double something is found. -/
theorem onGrid?_isSome (hpos : 0 < mantissa) (h : (10 : ℚ) ^ p <
      ((interval mantissa exponent).below + (interval mantissa exponent).above : Nat) *
        2 ^ (exponent - 2)) : (onGrid? mantissa exponent p).isSome = true := by
  have hclose : (gridRatio (exponent - 2) p).2 <
      ((interval mantissa exponent).below + (interval mantissa exponent).above) *
        (gridRatio (exponent - 2) p).1 := by
    rw [← not_le, ← one_mul ((10 : ℚ) ^ p), ← Nat.cast_one, mul_two_le_iff, one_mul, not_le] at h
    exact h
  have hbelow : (interval mantissa exponent).below ≤ (interval mantissa exponent).centre := by
    simp only [interval]
    split <;> omega
  obtain ⟨hb, -⟩ := gridRatio_eq (exponent - 2) p
  have hor := Interval.holds_or_next hbelow Nat.two_pos hclose (Nat.div_mul_le_self _ _) (by
    rw [Nat.mul_comm _ (gridRatio (exponent - 2) p).2]
    exact Nat.lt_mul_div_succ _ hb)
  simp only [onGrid?]
  split
  · rfl
  · rfl
  · next hfloor hnext =>
    rw [hfloor, hnext] at hor
    simp at hor
  · split <;> rfl

end Digits

section Exponent

/-- Reaching a power of ten is being at least as great. -/
theorem reaches_iff :
    reaches mantissa exponent p = true ↔ (10 : ℚ) ^ p ≤ mantissa * 2 ^ exponent := by
  have hiff := mul_ten_le_iff mantissa 1 exponent p
  rw [Nat.cast_one, one_mul, one_mul] at hiff
  rw [hiff]
  simp only [reaches, decide_eq_true_eq]

/-- The decimal exponent of a positive double tells between which powers of ten it lies. -/
theorem decimalExponent_spec (hfits : Fits mantissa exponent) (hpos : 0 < mantissa) :
    (10 : ℚ) ^ decimalExponent mantissa exponent ≤ mantissa * 2 ^ exponent ∧
      mantissa * 2 ^ exponent < (10 : ℚ) ^ (decimalExponent mantissa exponent + 1) := by
  have hlog : mantissa.log2 < 53 := (Nat.log2_lt (Nat.ne_of_gt hpos)).mpr hfits.lt
  have hleast := hfits.least
  have hgreatest := hfits.greatest
  unfold leastExponent at hleast
  unfold greatestExponent at hgreatest
  obtain ⟨hsizeLow, hsizeHigh⟩ := decimal_between (n := mantissa.log2 + exponent) (by omega)
  have hunit : (0 : ℚ) < 2 ^ exponent := by positivity
  have hlow : (2 : ℚ) ^ ((mantissa.log2 : Int) + exponent) ≤ mantissa * 2 ^ exponent := by
    rw [zpow_add₀ two_ne_zero, zpow_natCast]
    exact mul_le_mul_of_nonneg_right
      (by exact_mod_cast Nat.log2_self_le (Nat.ne_of_gt hpos)) hunit.le
  have hhigh : mantissa * 2 ^ exponent < (2 : ℚ) ^ ((mantissa.log2 : Int) + exponent + 1) := by
    rw [Int.add_right_comm, zpow_add₀ two_ne_zero, ← Int.natCast_succ, zpow_natCast]
    exact mul_lt_mul_of_pos_right (by exact_mod_cast Nat.lt_log2_self) hunit
  have hless := hsizeLow.trans hlow
  have hmore := hhigh.trans_le hsizeHigh
  unfold decimalExponent
  dsimp only
  generalize ((mantissa.log2 : Int) + exponent) * 30103 / 100000 = guess at hless hmore ⊢
  split
  · next hreach => exact ⟨reaches_iff.mp hreach, by rwa [Int.add_assoc]⟩
  · next hreach =>
    rw [reaches_iff, not_le] at hreach
    split
    · next hguess => exact ⟨reaches_iff.mp hguess, hreach⟩
    · next hguess =>
      rw [reaches_iff, not_le] at hguess
      exact ⟨hless, by rwa [Int.sub_add_cancel]⟩

end Exponent

section Shortest

/-- Seventeen digits are enough for each double. -/
theorem onGrid?_seventeen (hfits : Fits mantissa exponent) (hpos : 0 < mantissa) :
    (onGrid? mantissa exponent (decimalExponent mantissa exponent - 16)).isSome = true := by
  obtain ⟨hlow, -⟩ := decimalExponent_spec hfits hpos
  refine onGrid?_isSome hpos ?_
  have hunit : (0 : ℚ) < 2 ^ exponent := by positivity
  rw [zpow_sub₀ (by norm_num), zpow_sub₀ two_ne_zero, div_lt_iff₀ (by positivity)]
  refine hlow.trans_lt ?_
  have hbits : (mantissa : ℚ) < 2 ^ 53 := by exact_mod_cast hfits.lt
  simp only [interval, Nat.pow_eq]
  generalize (2 : ℚ) ^ exponent = u at hunit
  norm_num
  split
  · next hshort =>
    rw [hshort.1]
    norm_num
    linarith
  · norm_num
    nlinarith

/-- The shortest digits of a positive double make a decimal that rounds to it. -/
theorem shortest_spec (hfits : Fits mantissa exponent) (hpos : 0 < mantissa) :
    0 < (shortest mantissa exponent).1 ∧ (shortest mantissa exponent).1 < 10 ^ 18 ∧
      Rounds mantissa exponent
        ((shortest mantissa exponent).1 * 10 ^ (shortest mantissa exponent).2) := by
  obtain ⟨n, hn, digits, hgrid, hshortest⟩ : ∃ n < 17, ∃ digits,
      onGrid? mantissa exponent (decimalExponent mantissa exponent - (n : Nat)) = some digits ∧
        shortest mantissa exponent = (digits, decimalExponent mantissa exponent - n) := by
    unfold shortest
    dsimp only
    cases hfound : (List.range 17).findSome? _ with
    | none =>
      have hnone := List.findSome?_eq_none_iff.mp hfound 16 (by decide)
      have hsome := onGrid?_seventeen hfits hpos
      exact absurd (Option.map_eq_none_iff.mp hnone) (Option.isSome_iff_ne_none.mp hsome)
    | some found =>
      obtain ⟨n, hn, hdigits⟩ := List.exists_of_findSome?_eq_some hfound
      obtain ⟨digits, hgrid, rfl⟩ := Option.map_eq_some_iff.mp hdigits
      exact ⟨n, List.mem_range.mp hn, digits, hgrid, rfl⟩
  have hrounds := rounds_of_onGrid? hgrid
  obtain ⟨hlow, hhigh, -⟩ := hrounds.between hpos
  obtain ⟨-, htop⟩ := decimalExponent_spec hfits hpos
  have hone : (1 : ℚ) ≤ mantissa := by exact_mod_cast hpos
  have hunit : (0 : ℚ) < 2 ^ exponent := by positivity
  rw [hshortest]
  refine ⟨Nat.pos_of_ne_zero ?_, ?_, hrounds⟩
  · rintro rfl
    rw [Nat.cast_zero, zero_mul] at hlow
    nlinarith
  · -- seventeen places below the first power of ten that is greater the last digit has its place
    have hplace : (10 : ℚ) ^ (decimalExponent mantissa exponent + 1) ≤
        10 ^ 17 * 10 ^ (decimalExponent mantissa exponent - n) := by
      rw [← zpow_natCast, ← zpow_add₀ (by norm_num)]
      exact zpow_le_zpow_right₀ (by norm_num) (by omega)
    have hten : (0 : ℚ) < 10 ^ (decimalExponent mantissa exponent - n) := by positivity
    have hless : (digits : ℚ) * 10 ^ (decimalExponent mantissa exponent - n) <
        10 ^ 18 * 10 ^ (decimalExponent mantissa exponent - n) := by
      nlinarith
    exact_mod_cast (mul_lt_mul_iff_left₀ hten).mp hless

end Shortest

end BearerSession.Binary64
