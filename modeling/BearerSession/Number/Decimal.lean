import BearerSession.Number.Binary64

/-!
# The decimal text of a double

The digits written are the fewest that read back as the same double, and of those the nearest to it.
A double is the only one in the interval of reals that round to it; for one digit, two digits and so
on the two decimals that enclose it on that grid are tested against this interval in whole numbers.
-/

namespace BearerSession.Binary64

/-- The interval of reals that round to a double, in quarters of the unit of its last bit. -/
structure Interval where
  /-- The double itself. -/
  centre : Nat
  /-- How far below it the interval reaches. -/
  below : Nat
  /-- How far above it the interval reaches. -/
  above : Nat
  /-- Whether the two ends belong to it. -/
  closed : Bool
  deriving DecidableEq, Repr

/-- Below a power of two the doubles lie twice as close, so the interval is shorter on that side. -/
def interval (mantissa : Nat) (exponent : Int) : Interval where
  centre := 4 * mantissa
  below := if mantissa = Nat.pow 2 52 ∧ leastExponent < exponent then 1 else 2
  above := 2
  closed := mantissa % 2 == 0

/-- Whether the interval holds `candidate · b / a`. -/
def Interval.holds (i : Interval) (a b candidate : Nat) : Bool :=
  let low := (i.centre - i.below) * a
  let high := (i.centre + i.above) * a
  if i.closed then low ≤ candidate * b && candidate * b ≤ high
  else low < candidate * b && candidate * b < high

/-- The ratio `2 ^ e / 10 ^ p` as two whole numbers. -/
def gridRatio (e p : Int) : Nat × Nat :=
  (Nat.pow 2 e.toNat * Nat.pow 10 (-p).toNat, Nat.pow 2 (-e).toNat * Nat.pow 10 p.toNat)

/-- The multiple of `10 ^ p` that reads back as the double and lies nearest to it. -/
def onGrid? (mantissa : Nat) (exponent p : Int) : Option Nat :=
  let i := interval mantissa exponent
  let (a, b) := gridRatio (exponent - 2) p
  let floor := i.centre * a / b
  match i.holds a b floor, i.holds a b (floor + 1) with
  | true, false => some floor
  | false, true => some (floor + 1)
  | false, false => none
  | true, true =>
    match compare (2 * i.centre * a) ((2 * floor + 1) * b) with
    | .lt => some floor
    | .gt => some (floor + 1)
    | .eq => some (if floor % 2 = 0 then floor else floor + 1)

/-- Whether `mantissa · 2 ^ exponent` is at least `10 ^ p`. -/
def reaches (mantissa : Nat) (exponent p : Int) : Bool :=
  let (a, b) := gridRatio exponent p
  b ≤ mantissa * a

/-- The decimal exponent of a positive double: `p` with `10 ^ p ≤ x < 10 ^ (p + 1)`. -/
def decimalExponent (mantissa : Nat) (exponent : Int) : Int :=
  let guess := ((mantissa.log2 : Int) + exponent) * 30103 / 100000
  if reaches mantissa exponent (guess + 1) then guess + 1
  else if reaches mantissa exponent guess then guess
  else guess - 1

/-- The shortest digits of a positive double and the power of ten of their last place. Seventeen
digits always suffice. -/
def shortest (mantissa : Nat) (exponent : Int) : Nat × Int :=
  let top := decimalExponent mantissa exponent
  let found := (List.range 17).findSome? fun (n : Nat) =>
    (onGrid? mantissa exponent (top - n)).map fun digits => (digits, top - n)
  found.getD (0, 0)

/-- Drop the zeros at the end of a list of digits. -/
def dropTrailingZeros (digits : List Char) : List Char :=
  (digits.reverse.dropWhile (· == '0')).reverse

/-- The digits with a point after `whole` of them, filled with zeros on either side. -/
def positional (digits : List Char) (whole : Int) : List Char :=
  if whole ≤ 0 then '0' :: '.' :: List.replicate whole.natAbs '0' ++ digits
  else
    let n := whole.toNat
    let left := digits.take n ++ List.replicate (n - digits.length) '0'
    let right := digits.drop n
    left ++ '.' :: (if right.isEmpty then ['0'] else right)

/-- The digits as one digit, the others behind a point, and an exponent of at least two places. -/
def scientific (digits : List Char) (top : Int) : List Char :=
  let body := match digits with
    | [] => []
    | [d] => [d]
    | d :: rest => d :: '.' :: rest
  let size := (Nat.repr top.natAbs).toList
  let size := if size.length < 2 then '0' :: size else size
  body ++ 'e' :: (if top < 0 then '-' else '+') :: size

/-- The text of a double: positional from `10 ^ -4` to below `10 ^ 16`, scientific outside, and
always with a point or an exponent. -/
def text : Binary64 → String
  | .nan => "nan"
  | .infinite negative => if negative then "-inf" else "inf"
  | .finite negative mantissa exponent =>
    let body :=
      if mantissa = 0 then "0.0"
      else
        let (n, last) := shortest mantissa exponent
        let written := (Nat.repr n).toList
        let top := last + written.length - 1
        let digits := dropTrailingZeros written
        String.ofList <|
          if -4 ≤ top ∧ top < 16 then positional digits (top + 1) else scientific digits top
    if negative then "-" ++ body else body

end BearerSession.Binary64
