import BearerSession.Text.Basic

/-!
# Quoted literals of texts and bytes

A literal stands between single quotes, or between double ones when that spares an escape. What has
no visible form is written by its code point in two, four or eight hexadecimal digits.
-/

namespace BearerSession.Text

/-- A number in `width` hexadecimal digits, small letters. -/
def hex : (width : Nat) → Nat → List Char
  | 0, _ => []
  | width + 1, n => hex width (n / 16) ++ [Nat.digitChar (n % 16)]

/-- The quote that spares most escapes: the double one for texts that hold only single quotes. -/
def quoteFor (single double : Bool) : Char := if single && !double then '"' else '\''

/-- The written form of one character inside a literal. -/
def literalChar (quote c : Char) : List Char :=
  if c = quote ∨ c = '\\' then ['\\', c]
  else if c = '\n' then ['\\', 'n']
  else if c = '\r' then ['\\', 'r']
  else if c = '\t' then ['\\', 't']
  else if isVisible c then [c]
  else if c.toNat < 0x100 then '\\' :: 'x' :: hex 2 c.toNat
  else if c.toNat < 0x10000 then '\\' :: 'u' :: hex 4 c.toNat
  else '\\' :: 'U' :: hex 8 c.toNat

/-- The quoted literal of a text. -/
def literal (s : String) : String :=
  let cs := s.toList
  let quote := quoteFor (cs.contains '\'') (cs.contains '"')
  String.ofList (quote :: cs.flatMap (literalChar quote) ++ [quote])

/-- The written form of one byte inside a literal of bytes: ASCII as it is, all else in hexadecimal.
-/
def literalByte (quote : Char) (b : UInt8) : List Char :=
  let c := Char.ofNat b.toNat
  if b.toNat < 0x7F then
    if 0x20 ≤ b.toNat ∨ c = '\n' ∨ c = '\r' ∨ c = '\t' then literalChar quote c
    else '\\' :: 'x' :: hex 2 b.toNat
  else '\\' :: 'x' :: hex 2 b.toNat

/-- The quoted literal of a sequence of bytes. -/
def literalBytes (bytes : List UInt8) : String :=
  let quote := quoteFor (bytes.contains 0x27) (bytes.contains 0x22)
  String.ofList ('b' :: quote :: bytes.flatMap (literalByte quote) ++ [quote])

end BearerSession.Text
