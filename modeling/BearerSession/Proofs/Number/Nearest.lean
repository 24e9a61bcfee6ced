import Mathlib.Algebra.Order.Field.Power
import Mathlib.Data.Rat.Cast.Order
import Mathlib.Tactic.FieldSimp
import Mathlib.Tactic.Linarith
import Mathlib.Tactic.Positivity
import Mathlib.Tactic.Ring
import BearerSession.Number.Decimal

/-!
# The nearest double

A ratio of whole numbers is rounded in the binade in which it lies. All ratios in the interval of a
double round to this double, those below a power of two by way of the binade below it.
-/

namespace BearerSession.Binary64

/-- A mantissa and an exponent that make a finite double. -/
structure Fits (mantissa : Nat) (exponent : Int) : Prop where
  /-- The mantissa has at most 53 bits. -/
  lt : mantissa < 2 ^ 53
  /-- It has exactly 53 unless the exponent is the least one. -/
  normal : 2 ^ 52 ≤ mantissa ∨ exponent = leastExponent
  /-- No exponent is less. -/
  least : leastExponent ≤ exponent
  /-- No exponent is greater. -/
  greatest : exponent ≤ greatestExponent

/-- Whether a double is one that arithmetic yields. -/
def Canonical : Binary64 → Prop
  | .nan | .infinite _ => True
  | .finite _ mantissa exponent => Fits mantissa exponent

section Division

variable {n d m : Nat}

/-- Rounding goes to the quotient or to the next whole number. -/
theorem divideToEven_between (n d : Nat) :
    n / d ≤ divideToEven n d ∧ divideToEven n d ≤ n / d + 1 := by
  unfold divideToEven
  dsimp only
  split_ifs <;> omega

/-- Rounding goes to the whole number that is not more than half away, or just half and even. -/
theorem divideToEven_eq (hd : 0 < d) (hlow : 2 * m * d ≤ 2 * n + d) (hhigh : 2 * n ≤ 2 * m * d + d)
    (hodd : m % 2 = 1 → 2 * m * d < 2 * n + d ∧ 2 * n < 2 * m * d + d) :
    divideToEven n d = m := by
  have hn : n = d * (n / d) + n % d := (Nat.div_add_mod n d).symm
  have hr : n % d < d := Nat.mod_lt n hd
  unfold divideToEven
  dsimp only
  generalize n / d = k at hn
  generalize n % d = r at hn hr
  have hkm : k ≤ m := by
    by_contra hlt
    have hmul : d * (m + 1) ≤ d * k := Nat.mul_le_mul_left d (by omega)
    nlinarith
  have hmk : m ≤ k + 1 := by
    by_contra hlt
    have hmul : d * (k + 2) ≤ d * m := Nat.mul_le_mul_left d (by omega)
    nlinarith
  obtain rfl | rfl : m = k ∨ m = k + 1 := by omega
  · have hproduct : 2 * m * d = 2 * (d * m) := by ring
    rw [hproduct] at hhigh hodd
    split_ifs <;> omega
  · have hproduct : 2 * (k + 1) * d = 2 * (d * k) + 2 * d := by ring
    rw [hproduct] at hlow hodd
    split_ifs <;> omega

end Division

section Binade

variable {num den : Nat}

/-- The exponent of the binade in which a positive ratio lies. -/
def binade (num den : Nat) : Int :=
  let guess : Int := (num.log2 : Int) - (den.log2 : Int) - 52
  if (scaled num den guess).1 < 2 ^ 52 * (scaled num den guess).2 then guess - 1 else guess

/-- A ratio is scaled by a power of two. -/
theorem scaled_eq (num : Nat) (hden : 0 < den) (e : Int) :
    0 < (scaled num den e).2 ∧
      ((scaled num den e).1 : ℚ) = num / den / 2 ^ e * (scaled num den e).2 := by
  have hden' : (den : ℚ) ≠ 0 := by positivity
  unfold scaled
  split
  · next he =>
    refine ⟨hden, ?_⟩
    obtain ⟨k, rfl⟩ : ∃ k : Nat, e = -k := ⟨e.natAbs, by omega⟩
    simp only [Int.natAbs_neg, Int.natAbs_natCast, Nat.pow_eq, Nat.cast_mul, Nat.cast_pow,
      Nat.cast_ofNat, zpow_neg, zpow_natCast]
    field_simp
  · next he =>
    obtain ⟨k, rfl⟩ : ∃ k : Nat, e = k := ⟨e.toNat, by omega⟩
    simp only [Int.toNat_natCast, Nat.pow_eq, Nat.cast_mul, Nat.cast_pow, Nat.cast_ofNat,
      zpow_natCast]
    refine ⟨by positivity, ?_⟩
    field_simp

/-- A positive ratio lies between the powers of two that its logarithms tell. -/
theorem ratio_between (hnum : 0 < num) (hden : 0 < den) :
    (2 : ℚ) ^ ((num.log2 : Int) - den.log2 - 1) < num / den ∧
      (num : ℚ) / den < 2 ^ ((num.log2 : Int) - den.log2 + 1) := by
  have hnumLow : (2 : ℚ) ^ num.log2 ≤ num := by
    exact_mod_cast Nat.log2_self_le (Nat.ne_of_gt hnum)
  have hnumHigh : (num : ℚ) < 2 ^ (num.log2 + 1) := by exact_mod_cast Nat.lt_log2_self
  have hdenLow : (2 : ℚ) ^ den.log2 ≤ den := by
    exact_mod_cast Nat.log2_self_le (Nat.ne_of_gt hden)
  have hdenHigh : (den : ℚ) < 2 ^ (den.log2 + 1) := by exact_mod_cast Nat.lt_log2_self
  have hden' : (0 : ℚ) < den := by exact_mod_cast hden
  rw [zpow_sub₀ two_ne_zero, zpow_add₀ two_ne_zero, zpow_sub₀ two_ne_zero, zpow_natCast,
    zpow_natCast, zpow_one]
  rw [pow_succ] at hnumHigh hdenHigh
  have hd : (0 : ℚ) < 2 ^ den.log2 := by positivity
  have hn : (0 : ℚ) < 2 ^ num.log2 := by positivity
  constructor
  · rw [div_div, div_lt_div_iff₀ (by positivity) hden']
    nlinarith
  · rw [div_mul_eq_mul_div, div_lt_div_iff₀ hden' (by positivity)]
    nlinarith

/-- In its binade a ratio has 53 bits before the point. -/
theorem binade_spec (hnum : 0 < num) (hden : 0 < den) :
    (2 : ℚ) ^ 52 * 2 ^ binade num den ≤ num / den ∧
      (num : ℚ) / den < 2 ^ 53 * 2 ^ binade num den := by
  obtain ⟨hlow, hhigh⟩ := ratio_between hnum hden
  unfold binade
  dsimp only
  generalize hguess : (num.log2 : Int) - den.log2 - 52 = guess
  obtain ⟨hd, hn⟩ := scaled_eq num hden guess
  have hunit : (0 : ℚ) < 2 ^ guess := by positivity
  have hexact : (scaled num den guess).1 < 2 ^ 52 * (scaled num den guess).2 ↔
      (num : ℚ) / den < 2 ^ 52 * 2 ^ guess := by
    have hd' : (0 : ℚ) < (scaled num den guess).2 := by exact_mod_cast hd
    rw [← div_lt_iff₀ hunit, ← mul_lt_mul_iff_left₀ hd', ← hn]
    exact_mod_cast Iff.rfl
  rw [show (num.log2 : Int) - den.log2 - 1 = guess + 51 by omega, zpow_add₀ two_ne_zero] at hlow
  rw [show (num.log2 : Int) - den.log2 + 1 = guess + 53 by omega, zpow_add₀ two_ne_zero] at hhigh
  have h51 : (2 : ℚ) ^ (51 : Int) = 2 ^ 51 := by norm_cast
  have h53 : (2 : ℚ) ^ (53 : Int) = 2 ^ 53 := by norm_cast
  rw [h51] at hlow
  rw [h53] at hhigh
  split
  · next hless =>
    rw [zpow_sub₀ two_ne_zero, zpow_one]
    have hless := hexact.mp hless
    constructor <;> linarith
  · next hless =>
    rw [hexact] at hless
    constructor <;> linarith

end Binade

section Rounding

variable {num den mantissa : Nat} {exponent : Int}

/-- The exponent of the doubles among which a ratio is rounded. -/
def roundingExponent (num den : Nat) : Int := max (binade num den) leastExponent

/-- The whole number to which a ratio is rounded, in units of the last bit. -/
def rounded (num den : Nat) : Nat :=
  divideToEven (scaled num den (roundingExponent num den)).1
    (scaled num den (roundingExponent num den)).2

/-- A positive ratio is rounded among the doubles of its binade; a mantissa of more than 53 bits
stands for the next power of two. -/
theorem ofRatio_eq (negative : Bool) (hnum : 0 < num) :
    ofRatio negative num den =
      if rounded num den = 2 ^ 53 then
        if greatestExponent < roundingExponent num den + 1 then .infinite negative
        else .finite negative (2 ^ 52) (roundingExponent num den + 1)
      else if greatestExponent < roundingExponent num den then .infinite negative
      else .finite negative (rounded num den) (roundingExponent num den) := by
  unfold ofRatio rounded roundingExponent binade
  rw [if_neg (Nat.ne_of_gt hnum)]
  simp only [Nat.pow_eq]
  generalize divideToEven _ _ = m
  generalize max _ leastExponent = e
  split_ifs <;> rfl

/-- Scaled by the exponent of its doubles, a ratio is a ratio again. -/
theorem scaled_roundingExponent (num : Nat) (hden : 0 < den) :
    0 < (scaled num den (roundingExponent num den)).2 ∧
      ((scaled num den (roundingExponent num den)).1 : ℚ) =
        num / den / 2 ^ roundingExponent num den *
          (scaled num den (roundingExponent num den)).2 :=
  scaled_eq num hden _

/-- A ratio is rounded to a whole number of units from which it differs by half a unit at most, and
by less where the whole number is odd. -/
theorem rounded_eq (hden : 0 < den)
    (hlow : ((mantissa : ℚ) - 1 / 2) * 2 ^ roundingExponent num den ≤ num / den)
    (hhigh : (num : ℚ) / den ≤ (mantissa + 1 / 2) * 2 ^ roundingExponent num den)
    (hodd : mantissa % 2 = 1 →
      ((mantissa : ℚ) - 1 / 2) * 2 ^ roundingExponent num den < num / den ∧
        (num : ℚ) / den < (mantissa + 1 / 2) * 2 ^ roundingExponent num den) :
    rounded num den = mantissa := by
  obtain ⟨hd, hn⟩ := scaled_roundingExponent num hden
  unfold rounded
  generalize scaled num den (roundingExponent num den) = r at hd hn
  obtain ⟨n, d⟩ := r
  have hunit : (0 : ℚ) < 2 ^ roundingExponent num den := by positivity
  have hd' : (0 : ℚ) < d := by exact_mod_cast hd
  generalize (num : ℚ) / den = q at hlow hhigh hodd hn
  generalize (2 : ℚ) ^ roundingExponent num den = u at hlow hhigh hodd hn hunit
  simp only at hn
  -- in units of the last bit the ratio is that of the two whole numbers
  have hq : q = n / d * u := by
    rw [hn]
    field_simp
  rw [hq] at hlow hhigh hodd
  rw [mul_le_mul_iff_left₀ hunit, le_div_iff₀ hd'] at hlow
  rw [mul_le_mul_iff_left₀ hunit, div_le_iff₀ hd'] at hhigh
  rw [mul_lt_mul_iff_left₀ hunit, lt_div_iff₀ hd', mul_lt_mul_iff_left₀ hunit, div_lt_iff₀ hd']
    at hodd
  refine divideToEven_eq hd ?_ ?_ fun h => ?_
  · have hcast : (2 * mantissa * d : ℚ) ≤ 2 * n + d := by linarith
    exact_mod_cast hcast
  · have hcast : (2 * n : ℚ) ≤ 2 * mantissa * d + d := by linarith
    exact_mod_cast hcast
  · obtain ⟨hlow, hhigh⟩ := hodd h
    have hcastLow : (2 * mantissa * d : ℚ) < 2 * n + d := by linarith
    have hcastHigh : (2 * n : ℚ) < 2 * mantissa * d + d := by linarith
    exact ⟨by exact_mod_cast hcastLow, by exact_mod_cast hcastHigh⟩

/-- A ratio is rounded to at most 53 bits, and to no less unless it lies below all binades. -/
theorem rounded_bounds (hnum : 0 < num) (hden : 0 < den) :
    rounded num den ≤ 2 ^ 53 ∧
      (2 ^ 52 ≤ rounded num den ∨ roundingExponent num den = leastExponent) := by
  obtain ⟨hlow, hhigh⟩ := binade_spec hnum hden
  obtain ⟨hd, hn⟩ := scaled_roundingExponent num hden
  obtain ⟨hquotient, hnext⟩ := divideToEven_between
    (scaled num den (roundingExponent num den)).1 (scaled num den (roundingExponent num den)).2
  have hunit : (0 : ℚ) < 2 ^ roundingExponent num den := by positivity
  have hd' : (0 : ℚ) < (scaled num den (roundingExponent num den)).2 := by exact_mod_cast hd
  have hmono : (2 : ℚ) ^ binade num den ≤ 2 ^ roundingExponent num den :=
    zpow_le_zpow_right₀ (by norm_num) (le_max_left _ _)
  refine ⟨?_, ?_⟩
  · have hless : (scaled num den (roundingExponent num den)).1 <
        2 ^ 53 * (scaled num den (roundingExponent num den)).2 := by
      have hq : (num : ℚ) / den / 2 ^ roundingExponent num den < 2 ^ 53 := by
        rw [div_lt_iff₀ hunit]
        linarith
      have hcast := mul_lt_mul_of_pos_right hq hd'
      rw [← hn] at hcast
      exact_mod_cast hcast
    have hdiv := (Nat.div_lt_iff_lt_mul hd).mpr hless
    unfold rounded
    omega
  · by_cases he : roundingExponent num den = leastExponent
    · exact .inr he
    · left
      have hbinade : roundingExponent num den = binade num den := by
        unfold roundingExponent at he ⊢
        omega
      have hmore : 2 ^ 52 * (scaled num den (roundingExponent num den)).2 ≤
          (scaled num den (roundingExponent num den)).1 := by
        have hq : (2 : ℚ) ^ 52 ≤ num / den / 2 ^ roundingExponent num den := by
          rw [le_div_iff₀ hunit, hbinade]
          exact hlow
        have hcast := mul_le_mul_of_nonneg_right hq hd'.le
        rw [← hn] at hcast
        exact_mod_cast hcast
      have hdiv := (Nat.le_div_iff_mul_le hd).mpr hmore
      unfold rounded
      omega

/-- The nearest double to a ratio is canonical. -/
theorem canonical_ofRatio (negative : Bool) (hden : 0 < den) :
    (ofRatio negative num den).Canonical := by
  obtain rfl | hnum := Nat.eq_zero_or_pos num
  · exact ⟨by decide, .inr rfl, Int.le_refl _, by decide⟩
  · obtain ⟨hle, hnormal⟩ := rounded_bounds hnum hden
    have hleast : leastExponent ≤ roundingExponent num den := le_max_right _ _
    rw [ofRatio_eq negative hnum]
    split_ifs with htop hover hover
    · trivial
    · exact ⟨by decide, .inl (Nat.le_refl _), by omega, by omega⟩
    · trivial
    · exact ⟨by omega, hnormal, hleast, by omega⟩

/-- Whether a real lies in the interval of the reals that round to a double. -/
def Rounds (mantissa : Nat) (exponent : Int) (q : ℚ) : Prop :=
  let i := interval mantissa exponent
  let low : ℚ := (i.centre - i.below : Nat) * 2 ^ (exponent - 2)
  let high : ℚ := (i.centre + i.above : Nat) * 2 ^ (exponent - 2)
  if i.closed then low ≤ q ∧ q ≤ high else low < q ∧ q < high

/-- The interval of a double reaches up by half a unit, and down by half a unit or, from a power of
two, by a quarter. -/
theorem Rounds.between {q : ℚ} (h : Rounds mantissa exponent q) (hpos : 0 < mantissa) :
    ((mantissa : ℚ) - 1 / 2) * 2 ^ exponent ≤ q ∧ q ≤ (mantissa + 1 / 2) * 2 ^ exponent ∧
      (mantissa % 2 = 1 →
        ((mantissa : ℚ) - 1 / 2) * 2 ^ exponent < q ∧ q < (mantissa + 1 / 2) * 2 ^ exponent) ∧
      (mantissa = 2 ^ 52 → leastExponent < exponent →
        ((mantissa : ℚ) - 1 / 4) * 2 ^ exponent ≤ q) := by
  have hunit : (0 : ℚ) < 2 ^ exponent := by positivity
  have hquarter : (2 : ℚ) ^ (exponent - 2) = 2 ^ exponent / 4 := by
    rw [zpow_sub₀ two_ne_zero]
    norm_num
  have hone : (1 : ℚ) ≤ mantissa := by exact_mod_cast hpos
  simp only [Rounds, interval, Nat.pow_eq, hquarter] at h
  generalize (2 : ℚ) ^ exponent = u at h hunit
  have hhigh : ((4 * mantissa + 2 : Nat) : ℚ) * (u / 4) = (mantissa + 1 / 2) * u := by
    push_cast
    ring
  rw [hhigh] at h
  by_cases hshort : mantissa = 2 ^ 52 ∧ leastExponent < exponent
  · have hlow : ((4 * mantissa - 1 : Nat) : ℚ) * (u / 4) = (mantissa - 1 / 4) * u := by
      rw [Nat.cast_sub (by omega)]
      push_cast
      ring
    have heven : (mantissa % 2 == 0) = true := by rw [hshort.1]; decide
    rw [if_pos hshort, hlow, heven, if_pos rfl] at h
    refine ⟨by nlinarith, h.2, fun hodd => ?_, fun _ _ => h.1⟩
    rw [hshort.1] at hodd
    contradiction
  · have hlow : ((4 * mantissa - 2 : Nat) : ℚ) * (u / 4) = (mantissa - 1 / 2) * u := by
      rw [Nat.cast_sub (by omega)]
      push_cast
      ring
    rw [if_neg hshort, hlow] at h
    cases heven : mantissa % 2 == 0 with
    | true =>
      rw [heven, if_pos rfl] at h
      rw [beq_iff_eq] at heven
      exact ⟨h.1, h.2, fun hodd => by omega, fun hm he => absurd ⟨hm, he⟩ hshort⟩
    | false =>
      rw [heven, if_neg Bool.false_ne_true] at h
      exact ⟨h.1.le, h.2.le, fun _ => h, fun hm he => absurd ⟨hm, he⟩ hshort⟩

/-- A real in the interval of a double lies in its binade or, from a power of two, in the binade
below. -/
theorem Rounds.roundingExponent_eq (hfits : Fits mantissa exponent) (hpos : 0 < mantissa)
    (hnum : 0 < num) (hden : 0 < den) (h : Rounds mantissa exponent (num / den)) :
    roundingExponent num den = exponent ∨
      mantissa = 2 ^ 52 ∧ leastExponent < exponent ∧ roundingExponent num den = exponent - 1 ∧
        (num : ℚ) / den < 2 ^ 52 * 2 ^ exponent := by
  obtain ⟨hlow, hhigh, -⟩ := h.between hpos
  obtain ⟨hbinade, hnext⟩ := binade_spec hnum hden
  have hunit : (0 : ℚ) < 2 ^ exponent := by positivity
  have hbits : (mantissa : ℚ) + 1 ≤ 2 ^ 53 := by exact_mod_cast hfits.lt
  -- a binade is told by comparing powers of two
  have hlt {a b : Int} (hab : (2 : ℚ) ^ a < 2 ^ b) : a < b :=
    (zpow_lt_zpow_iff_right₀ (by norm_num)).mp hab
  have habove : binade num den < exponent + 1 := by
    refine hlt ?_
    rw [zpow_add_one₀ two_ne_zero]
    nlinarith
  by_cases hinside : (2 : ℚ) ^ 52 * 2 ^ exponent ≤ num / den
  · left
    have hbelow : exponent < binade num den + 1 := by
      refine hlt ?_
      rw [zpow_add_one₀ two_ne_zero]
      linarith
    have hleast := hfits.least
    unfold roundingExponent
    omega
  · rw [not_le] at hinside
    rcases Int.lt_or_eq_of_le hfits.least with hleast | hleast
    · right
      have hm : mantissa = 2 ^ 52 := by
        have hnormal := hfits.normal.resolve_right (by omega)
        by_contra hne
        have hmore : (2 : ℚ) ^ 52 + 1 ≤ mantissa := by
          exact_mod_cast (by omega : 2 ^ 52 + 1 ≤ mantissa)
        nlinarith
      have hquarter := (h.between hpos).2.2.2 hm hleast
      have hm' : (mantissa : ℚ) = 2 ^ 52 := by exact_mod_cast hm
      have hbelow : exponent - 1 < binade num den + 1 := by
        refine hlt ?_
        rw [zpow_add_one₀ two_ne_zero, zpow_sub_one₀ two_ne_zero]
        nlinarith
      have hunder : binade num den < exponent := by
        refine hlt ?_
        linarith
      refine ⟨hm, hleast, ?_, hinside⟩
      unfold roundingExponent
      omega
    · left
      unfold roundingExponent
      omega

/-- A ratio in the interval of a double rounds to this double. -/
theorem ofRatio_of_rounds (negative : Bool) (hfits : Fits mantissa exponent) (hpos : 0 < mantissa)
    (hnum : 0 < num) (hden : 0 < den) (h : Rounds mantissa exponent (num / den)) :
    ofRatio negative num den = .finite negative mantissa exponent := by
  obtain ⟨hlow, hhigh, hodd, hquarter⟩ := h.between hpos
  have hgreatest := hfits.greatest
  rw [ofRatio_eq negative hnum]
  obtain hexponent | ⟨hm, hleast, hexponent, hinside⟩ :=
    h.roundingExponent_eq hfits hpos hnum hden
  · have hrounded : rounded num den = mantissa :=
      rounded_eq hden (by rwa [hexponent]) (by rwa [hexponent]) (by rwa [hexponent])
    have hlt := hfits.lt
    rw [hrounded, if_neg (Nat.ne_of_lt hlt), hexponent, if_neg (by omega)]
  · have hm' : (mantissa : ℚ) = 2 ^ 52 := by exact_mod_cast hm
    have hunit : (0 : ℚ) < 2 ^ exponent := by positivity
    have hquarter := hquarter hm hleast
    have hrounded : rounded num den = 2 ^ 53 := by
      refine rounded_eq hden ?_ ?_ fun hodd => absurd hodd (by decide)
      · rw [hexponent, zpow_sub_one₀ two_ne_zero]
        push_cast
        nlinarith
      · rw [hexponent, zpow_sub_one₀ two_ne_zero]
        push_cast
        nlinarith
    rw [hrounded, if_pos rfl, hexponent, if_neg (by omega), hm, Int.sub_add_cancel]

end Rounding

section Decimals

variable {mantissa digits : Nat} {exponent power : Int}

/-- The decimal logarithm of two is a little more than 59 / 196 and less than 28 / 93, so a power of
ten with an exponent that is less by both ratios is the smaller one. -/
theorem ten_zpow_le_two_zpow {p n : Int} (hover : 196 * p ≤ 59 * n) (hunder : 93 * p ≤ 28 * n) :
    (10 : ℚ) ^ p ≤ 2 ^ n := by
  have hroot {k : Nat} {r : Int} (hk : k ≠ 0) (hp : k * p ≤ r * n)
      (h : ((10 : ℚ) ^ r) ^ n ≤ ((2 : ℚ) ^ (k : Int)) ^ n) : (10 : ℚ) ^ p ≤ 2 ^ n := by
    refine le_of_pow_le_pow_left₀ hk (by positivity) ?_
    rw [← zpow_natCast, ← zpow_natCast, ← zpow_mul, ← zpow_mul, Int.mul_comm p, Int.mul_comm n]
    rw [← zpow_mul, ← zpow_mul] at h
    exact (zpow_le_zpow_right₀ (by norm_num) hp).trans h
  rcases Int.le_total 0 n with hn | hn
  · exact hroot (k := 196) (by decide) hover (zpow_le_zpow_left₀ hn (by norm_num) (by norm_num))
  · refine hroot (k := 93) (by decide) hunder ?_
    rw [← inv_le_inv₀ (by positivity) (by positivity), ← zpow_neg, ← zpow_neg]
    exact zpow_le_zpow_left₀ (by omega) (by positivity) (by norm_num)

/-- The decimal exponent that is told from the binary one is off by less than two. -/
theorem decimal_between {n : Int} (hn : -2000 ≤ n ∧ n ≤ 2000) :
    (10 : ℚ) ^ (n * 30103 / 100000 - 1) ≤ 2 ^ n ∧
      (2 : ℚ) ^ (n + 1) ≤ 10 ^ (n * 30103 / 100000 + 2) := by
  refine ⟨ten_zpow_le_two_zpow (by omega) (by omega), ?_⟩
  have hinverse := ten_zpow_le_two_zpow (p := -(n * 30103 / 100000 + 2)) (n := -(n + 1))
    (by omega) (by omega)
  rwa [zpow_neg, zpow_neg, inv_le_inv₀ (by positivity) (by positivity)] at hinverse

/-- Reals that round to a positive double are neither too great nor too small for decimals. -/
theorem Rounds.magnitude {q : ℚ} (h : Rounds mantissa exponent q) (hfits : Fits mantissa exponent)
    (hpos : 0 < mantissa) : (10 : ℚ) ^ (-350 : Int) ≤ q ∧ q ≤ 10 ^ (350 : Int) := by
  obtain ⟨hlow, hhigh, -⟩ := h.between hpos
  have hone : (1 : ℚ) ≤ mantissa := by exact_mod_cast hpos
  have hbits : (mantissa : ℚ) + 1 ≤ 2 ^ (53 : Int) := by exact_mod_cast hfits.lt
  have hunit : (0 : ℚ) < 2 ^ exponent := by positivity
  have hleast : (2 : ℚ) ^ (-1099 : Int) ≤ 2 ^ exponent :=
    zpow_le_zpow_right₀ (by norm_num) (Int.le_trans (by decide) hfits.least)
  have hgreatest : (2 : ℚ) ^ exponent ≤ 2 ^ (1047 : Int) :=
    zpow_le_zpow_right₀ (by norm_num) (Int.le_trans hfits.greatest (by decide))
  constructor
  · calc
      (10 : ℚ) ^ (-350 : Int) ≤ 2 ^ (-1100 : Int) := ten_zpow_le_two_zpow (by decide) (by decide)
      _ = 2 ^ (-1099 : Int) * 2⁻¹ := zpow_sub_one₀ two_ne_zero (-1099)
      _ ≤ 2 ^ exponent * 2⁻¹ := mul_le_mul_of_nonneg_right hleast (by norm_num)
      _ ≤ ((mantissa : ℚ) - 1 / 2) * 2 ^ exponent := by
        clear hleast hgreatest
        nlinarith
      _ ≤ q := hlow
  · calc
      q ≤ ((mantissa : ℚ) + 1 / 2) * 2 ^ exponent := hhigh
      _ ≤ 2 ^ (53 : Int) * 2 ^ (1047 : Int) :=
        mul_le_mul (by linarith only [hbits]) hgreatest hunit.le (by positivity)
      _ = 2 ^ (1100 : Int) := (zpow_add₀ two_ne_zero 53 1047).symm
      _ ≤ 10 ^ (332 : Int) := (decimal_between (n := 1099) (by decide)).2
      _ ≤ 10 ^ (350 : Int) := zpow_le_zpow_right₀ (by norm_num) (by decide)

/-- A decimal in the interval of a double reads as this double. -/
theorem ofDecimal_of_rounds (negative : Bool) (hfits : Fits mantissa exponent) (hpos : 0 < mantissa)
    (hdigits : digits < 10 ^ 40) (h : Rounds mantissa exponent (digits * 10 ^ power)) :
    ofDecimal negative digits power = .finite negative mantissa exponent := by
  obtain ⟨hsmall, hgreat⟩ := h.magnitude hfits hpos
  have hten : (0 : ℚ) < 10 ^ power := by positivity
  have hdigits₀ : 0 < digits := by
    refine Nat.pos_of_ne_zero ?_
    rintro rfl
    have hzero : (0 : ℚ) < 10 ^ (-350 : Int) := by positivity
    rw [Nat.cast_zero, zero_mul] at hsmall
    linarith
  have hbits : digits.log2 < 140 :=
    (Nat.log2_lt (Nat.ne_of_gt hdigits₀)).mpr (Nat.lt_of_lt_of_le hdigits (by norm_num))
  have hlog : (2 : ℚ) ^ (digits.log2 : Int) ≤ digits := by
    exact_mod_cast Nat.log2_self_le (Nat.ne_of_gt hdigits₀)
  have hnext : (digits : ℚ) < 2 ^ ((digits.log2 : Int) + 1) := by
    exact_mod_cast (Nat.lt_log2_self : digits < 2 ^ (digits.log2 + 1))
  obtain ⟨hsizeLow, hsizeHigh⟩ := decimal_between (n := digits.log2) (by omega)
  unfold ofDecimal
  generalize (digits.log2 : Int) * 30103 / 100000 = size at hsizeLow hsizeHigh ⊢
  have hless : ¬ 400 < size + power := by
    intro hover
    have hproduct := mul_le_mul_of_nonneg_right (hsizeLow.trans hlog) hten.le
    rw [← zpow_add₀ (by norm_num)] at hproduct
    have hpower : (10 : ℚ) ^ (350 : Int) < 10 ^ (size - 1 + power) :=
      zpow_lt_zpow_right₀ (by norm_num) (by omega)
    linarith only [hproduct, hpower, hgreat]
  have hmore : ¬ size + power < -400 := by
    intro hunder
    have hproduct := mul_lt_mul_of_pos_right (hnext.trans_le hsizeHigh) hten
    rw [← zpow_add₀ (by norm_num)] at hproduct
    have hpower : (10 : ℚ) ^ (size + 2 + power) ≤ 10 ^ (-350 : Int) :=
      zpow_le_zpow_right₀ (by norm_num) (by omega)
    linarith only [hproduct, hpower, hsmall]
  simp only [Nat.ne_of_gt hdigits₀, hless, hmore, if_false, Nat.pow_eq]
  split
  · next hneg =>
    obtain ⟨k, rfl⟩ : ∃ k : Nat, power = -k := ⟨power.natAbs, by omega⟩
    rw [Int.natAbs_neg, Int.natAbs_natCast]
    refine ofRatio_of_rounds negative hfits hpos hdigits₀ (by positivity) ?_
    rw [zpow_neg, zpow_natCast, ← div_eq_mul_inv] at h
    push_cast
    exact h
  · next hneg =>
    obtain ⟨k, rfl⟩ : ∃ k : Nat, power = k := ⟨power.toNat, by omega⟩
    rw [Int.toNat_natCast]
    refine ofRatio_of_rounds negative hfits hpos (by positivity) Nat.one_pos ?_
    rw [zpow_natCast] at h
    push_cast
    rwa [div_one]

/-- The zeros are canonical. -/
theorem canonical_zero (negative : Bool) : (zero negative).Canonical :=
  ⟨by decide, .inr rfl, Int.le_refl _, by decide⟩

/-- What a decimal reads as is canonical. -/
theorem canonical_ofDecimal (negative : Bool) (digits : Nat) (power : Int) :
    (ofDecimal negative digits power).Canonical := by
  unfold ofDecimal
  dsimp only
  split_ifs
  · exact canonical_zero negative
  · trivial
  · exact canonical_zero negative
  · exact canonical_ofRatio negative (Nat.pow_pos (by decide))
  · exact canonical_ofRatio negative Nat.one_pos

end Decimals

end BearerSession.Binary64
