import BearerSession.Number.Binary64
import BearerSession.Number.Digits
import BearerSession.Text.Basic

/-!
# Numbers written by people

The reader of settings and arguments allows white space around a number, a plus sign, and single
underscores inside it. Digits are those of ASCII.
-/

namespace BearerSession.Number

/-- A sign and what follows it. -/
def splitSign : List Char → Bool × List Char
  | '-' :: rest => (true, rest)
  | '+' :: rest => (false, rest)
  | rest => (false, rest)

/-- The exponent at the end of a number, or nothing where none is written. -/
def exponent? : List Char → Option Int
  | [] => some 0
  | e :: rest =>
    if e = 'e' ∨ e = 'E' then
      let (negative, rest) := splitSign rest
      let (digits, rest) := splitDigits rest
      if digits.isEmpty || !rest.isEmpty then none
      else some (if negative then -(digitsValue digits : Int) else digitsValue digits)
    else none

/-- A plain decimal: digits, perhaps a point among or beside them, perhaps an exponent; or the name
of an infinity or of no number, in any case. -/
def plainReal? (s : List Char) : Option Binary64 :=
  let (negative, body) := splitSign s
  let word := String.ofList (body.map Char.toLower)
  if word = "inf" ∨ word = "infinity" then some (.infinite negative)
  else if word = "nan" then some .nan
  else
    let (whole, rest) := splitDigits body
    let (fraction, rest) := match rest with
      | '.' :: rest => splitDigits rest
      | rest => ([], rest)
    if whole.isEmpty && fraction.isEmpty then none
    else (exponent? rest).map fun power =>
      .ofDecimal negative (digitsValue (whole ++ fraction)) (power - fraction.length)

/-- Whether two underscores stand side by side. -/
def hasDoubleUnderscore : List Char → Bool
  | '_' :: '_' :: _ => true
  | _ :: rest => hasDoubleUnderscore rest
  | [] => false

/-- Drop underscores; none may stand at an end or beside another. -/
def withoutUnderscores? (s : List Char) : Option (List Char) :=
  if s.head? = some '_' ∨ s.getLast? = some '_' ∨ hasDoubleUnderscore s then none
  else some (s.filter (· ≠ '_'))

/-- A number in a text: with white space around it, or with underscores inside it. -/
def real? (s : String) : Option Binary64 :=
  match plainReal? (Text.trimList Text.isWhiteSpace s.toList) with
  | some x => some x
  | none => (withoutUnderscores? s.toList).bind plainReal?

/-- A text without its plus sign. A minus sign may not follow one. -/
def withoutPlus? : List Char → Option (List Char)
  | '+' :: '-' :: _ => none
  | '+' :: rest => some rest
  | s => some s

/-- What follows zeros at the start, among which underscores may stand: a number from its first
other digit or its sign on, a single zero before a point, or the last character where nothing else
follows. -/
def afterZeros? (last : Char) : List Char → Option (List Char)
  | [] => some [last]
  | c :: rest =>
    if c = '0' ∨ c = '_' then afterZeros? c rest
    else if c.isDigit ∨ c = '-' then some (c :: rest)
    else if c = '.' then some (last :: c :: rest)
    else none

/-- A number without a sign in front and without zeros at its start. It begins with a digit. -/
def withoutZeros? : List Char → Option (List Char)
  | [] => none
  | c :: rest =>
    if c = '0' then afterZeros? c rest
    else if c.isDigit then some (c :: rest)
    else none

/-- A number without zeros at its start or after its minus sign. -/
def withoutLeadingZeros? : List Char → Option (List Char)
  | '-' :: rest => (withoutZeros? rest).map ('-' :: ·)
  | s => withoutZeros? s

/-- Drop a point and the zeros after it, of which there is at least one, at the end. -/
def withoutZeroFraction (s : List Char) : List Char :=
  match s.dropWhile (· ≠ '.') with
  | _ :: zero :: zeros =>
    if (zero :: zeros).all (· == '0') then s.takeWhile (· ≠ '.') else s
  | _ => s

/-- The greatest length of a whole number in a text. -/
def wholeLimit : Nat := 4300

/-- A whole number as it is written without liberties: perhaps a minus sign, then a single zero or
digits that do not begin with one. -/
def plainWhole? (s : List Char) : Option Int :=
  let (negative, digits) := splitSign s
  if s.head? = some '+' || digits.isEmpty || !digits.all Char.isDigit then none
  else if wholeLimit < s.length then none
  else if digits.head? = some '0' && digits ≠ ['0'] then none
  else some (if negative then -(digitsValue digits : Int) else digitsValue digits)

/-- A whole number in a text: with white space around it, a sign, zeros before it, underscores
inside it, and a fraction of zeros. -/
def whole? (s : String) : Option Int := do
  let unsigned ← withoutPlus? (Text.trimList Text.isWhiteSpace s.toList)
  let number ← withoutLeadingZeros? unsigned
  let digits ← withoutUnderscores? (withoutZeroFraction number)
  plainWhole? digits

end BearerSession.Number
