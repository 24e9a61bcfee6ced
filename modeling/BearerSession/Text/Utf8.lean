import BearerSession.Text.Literal

/-!
# UTF-8

Texts are kept on disk in UTF-8. Reading is strict: it refuses the first byte sequence that begins
no character and says where it stands and what is wrong with it.
-/

namespace BearerSession.Text.Utf8

/-- Why a byte sequence is no character. -/
inductive Reason where
  /-- The first byte begins no character. -/
  | start
  /-- A later byte does not continue the character. -/
  | continuation
  /-- The input ends inside the character. -/
  | truncated
  deriving DecidableEq, Repr

/-- The wording of a reason. -/
def Reason.text : Reason → String
  | .start => "invalid start byte"
  | .continuation => "invalid continuation byte"
  | .truncated => "unexpected end of data"

/-- The place of a byte sequence that is no character. -/
structure Fault where
  /-- The first byte of the sequence. -/
  first : UInt8
  /-- How many bytes stand before it. -/
  position : Nat
  /-- How many bytes belong to it. -/
  length : Nat
  /-- What is wrong with it. -/
  reason : Reason
  deriving DecidableEq, Repr

/-- The message about a refused byte sequence. A single byte is shown, a longer sequence is located.
-/
def Fault.text (f : Fault) : String :=
  if f.length = 1 then
    let shown := String.ofList (hex 2 f.first.toNat)
    s!"'utf-8' codec can't decode byte 0x{shown} in position {f.position}: {f.reason.text}"
  else
    let last := f.position + f.length - 1
    s!"'utf-8' codec can't decode bytes in position {f.position}-{last}: {f.reason.text}"

/-- The bytes of a text. -/
def encode (s : List Char) : List UInt8 := s.flatMap String.utf8EncodeChar

/-- Whether a byte continues a character. -/
def continues (b : UInt8) : Bool := 0x80 ≤ b.toNat && b.toNat < 0xC0

/-- The payload of a continuation byte. -/
def payload (b : UInt8) : Nat := b.toNat % 0x40

/-- Whether a byte may come second after a lead byte of three: no overlong form and no surrogate. -/
def second3 (lead b : UInt8) : Bool :=
  continues b && (if b.toNat < 0xA0 then lead.toNat != 0xE0 else lead.toNat != 0xED)

/-- Whether a byte may come second after a lead byte of four: no overlong form and nothing past the
last code point. -/
def second4 (lead b : UInt8) : Bool :=
  continues b && (if b.toNat < 0x90 then lead.toNat != 0xF0 else lead.toNat != 0xF4)

/-- Put a character before what follows it. -/
def prepend (n : Nat) (rest : Except Fault (List Char)) : Except Fault (List Char) :=
  rest.map (Char.ofNat n :: ·)

/-- The characters of a byte sequence that starts at `position`. -/
def decodeFrom (position : Nat) : List UInt8 → Except Fault (List Char)
  | [] => .ok []
  | a :: rest =>
    let fault (length : Nat) (reason : Reason) := Except.error (Fault.mk a position length reason)
    let n := a.toNat
    if n < 0x80 then prepend n (decodeFrom (position + 1) rest)
    else if n < 0xC2 ∨ 0xF5 ≤ n then fault 1 .start
    else if n < 0xE0 then
      match rest with
      | [] => fault 1 .truncated
      | b :: rest =>
        if continues b then prepend (n % 0x20 * 0x40 + payload b) (decodeFrom (position + 2) rest)
        else fault 1 .continuation
    else if n < 0xF0 then
      match rest with
      | [] => fault 1 .truncated
      | [b] => if second3 a b then fault 2 .truncated else fault 1 .continuation
      | b :: c :: rest =>
        if !second3 a b then fault 1 .continuation
        else if !continues c then fault 2 .continuation
        else prepend ((n % 0x10 * 0x40 + payload b) * 0x40 + payload c)
          (decodeFrom (position + 3) rest)
    else
      match rest with
      | [] => fault 1 .truncated
      | [b] => if second4 a b then fault 2 .truncated else fault 1 .continuation
      | [b, c] =>
        if !second4 a b then fault 1 .continuation
        else if !continues c then fault 2 .continuation
        else fault 3 .truncated
      | b :: c :: d :: rest =>
        if !second4 a b then fault 1 .continuation
        else if !continues c then fault 2 .continuation
        else if !continues d then fault 3 .continuation
        else prepend (((n % 0x8 * 0x40 + payload b) * 0x40 + payload c) * 0x40 + payload d)
          (decodeFrom (position + 4) rest)

/-- The characters of a byte sequence. -/
def decode (bytes : List UInt8) : Except Fault (List Char) := decodeFrom 0 bytes

/-- Line ends of all three kinds become line feeds. -/
def normalizeLineEnds : List Char → List Char
  | '\r' :: '\n' :: rest => '\n' :: normalizeLineEnds rest
  | '\r' :: rest => '\n' :: normalizeLineEnds rest
  | c :: rest => c :: normalizeLineEnds rest
  | [] => []

end BearerSession.Text.Utf8
