/-!
# Double-precision numbers

A double is kept as the value it denotes: not a number, an infinity, or a signed whole multiple of a
power of two. Finite doubles are canonical, so equal values have equal forms up to the sign of zero.
All arithmetic goes through exact whole numbers and one rounding, to the nearest double, ties to an
even last bit.
-/

namespace BearerSession

/-- A double-precision number. A finite one is `± mantissa · 2 ^ exponent`, where the mantissa has
at most 53 bits and has exactly 53 unless the exponent is the least one. -/
inductive Binary64 where
  /-- Not a number. -/
  | nan
  /-- An infinity and whether it is the negative one. -/
  | infinite (negative : Bool)
  /-- A finite number. -/
  | finite (negative : Bool) (mantissa : Nat) (exponent : Int)
  deriving DecidableEq, Repr

namespace Binary64

/-- The exponent of the least positive double. -/
def leastExponent : Int := -1074

/-- The exponent of the greatest finite doubles. -/
def greatestExponent : Int := 971

/-- A zero of either sign. -/
def zero (negative : Bool) : Binary64 := .finite negative 0 leastExponent

instance : Inhabited Binary64 := ⟨zero false⟩

/-- Whole division rounded to the nearest, a tie to the even quotient. -/
def divideToEven (num den : Nat) : Nat :=
  let quotient := num / den
  let twice := 2 * (num % den)
  if twice < den then quotient
  else if den < twice then quotient + 1
  else if quotient % 2 = 0 then quotient else quotient + 1

/-- The two whole numbers whose ratio is `num / den / 2 ^ e`. -/
def scaled (num den : Nat) (e : Int) : Nat × Nat :=
  if e < 0 then (num * Nat.pow 2 e.natAbs, den) else (num, den * Nat.pow 2 e.toNat)

/-- The double nearest to `± num / den`, for a positive `den`. -/
def ofRatio (negative : Bool) (num den : Nat) : Binary64 :=
  if num = 0 then zero negative
  else
    let guess : Int := (num.log2 : Int) - (den.log2 : Int) - 52
    let (n, d) := scaled num den guess
    let exact := if n < Nat.pow 2 52 * d then guess - 1 else guess
    let e := max exact leastExponent
    let (n, d) := scaled num den e
    let m := divideToEven n d
    let (m, e) := if m = Nat.pow 2 53 then (Nat.pow 2 52, e + 1) else (m, e)
    if greatestExponent < e then .infinite negative else .finite negative m e

/-- The double nearest to `± digits · 10 ^ power`. Powers far outside the range of doubles are
answered without computing them. -/
def ofDecimal (negative : Bool) (digits : Nat) (power : Int) : Binary64 :=
  let size : Int := (digits.log2 : Int) * 30103 / 100000
  if digits = 0 then zero negative
  else if 400 < size + power then .infinite negative
  else if size + power < -400 then zero negative
  else if power < 0 then ofRatio negative digits (Nat.pow 10 power.natAbs)
  else ofRatio negative (digits * Nat.pow 10 power.toNat) 1

/-- The double nearest to `n · 2 ^ e`; a zero sum is the positive zero. -/
def ofDyadic (n : Int) (e : Int) : Binary64 :=
  if e < 0 then ofRatio (n < 0) n.natAbs (Nat.pow 2 e.natAbs)
  else ofRatio (n < 0) (n.natAbs * Nat.pow 2 e.toNat) 1

/-- The double nearest to a whole number. -/
def ofInt (n : Int) : Binary64 := ofDyadic n 0

/-- The signed mantissa. -/
def signed (negative : Bool) (mantissa : Nat) : Int := if negative then -mantissa else mantissa

/-- The signed mantissa over the smaller exponent `e`. -/
def atExponent (negative : Bool) (mantissa : Nat) (exponent e : Int) : Int :=
  signed negative mantissa * Nat.pow 2 (exponent - e).toNat

/-- The order of two doubles; none when one of them is not a number. -/
def compare? : Binary64 → Binary64 → Option Ordering
  | .nan, _ | _, .nan => none
  | .infinite a, .infinite b => some (compare b.toNat a.toNat)
  | .infinite a, .finite .. => some (if a then .lt else .gt)
  | .finite .., .infinite b => some (if b then .gt else .lt)
  | .finite s m e, .finite t n f =>
    some (compare (atExponent s m e (min e f)) (atExponent t n f (min e f)))

/-- The order of a double and a whole number, exactly. -/
def compareInt? : Binary64 → Int → Option Ordering
  | .nan, _ => none
  | .infinite a, _ => some (if a then .lt else .gt)
  | .finite s m e, n =>
    some (compare (atExponent s m e (min e 0)) (n * Nat.pow 2 (0 - min e 0).toNat))

/-- Strictly less; false when one of the two is not a number. -/
def lt (a b : Binary64) : Bool := a.compare? b == some .lt

/-- Less or equal; false when one of the two is not a number. -/
def le (a b : Binary64) : Bool :=
  match a.compare? b with
  | some .lt | some .eq => true
  | _ => false

/-- Strictly greater than zero. -/
def isPositive (a : Binary64) : Bool := (zero false).lt a

/-- A finite double without a fractional part. -/
def isWhole : Binary64 → Bool
  | .finite _ m e => 0 ≤ e || m % Nat.pow 2 e.natAbs == 0
  | _ => false

/-- The nearest double to a sum. -/
def add : Binary64 → Binary64 → Binary64
  | .nan, _ | _, .nan => .nan
  | .infinite a, .infinite b => if a = b then .infinite a else .nan
  | .infinite a, _ | _, .infinite a => .infinite a
  | .finite s m e, .finite t n f =>
    let low := min e f
    let sum := atExponent s m e low + atExponent t n f low
    if sum = 0 then zero (s && t) else ofDyadic sum low

instance : Add Binary64 := ⟨add⟩

end Binary64

end BearerSession
