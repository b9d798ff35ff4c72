import Protoclass.Text.Basic

/-!
# Reading a byte text as UTF-8

A byte text is a sequence of characters and stray bytes.  A byte is stray when
no well-formed UTF-8 sequence starts at it; it is then a unit of its own, and
reading goes on at the next byte.  Surrogates, overlong forms and code points
above U+10FFFF are not well-formed.
-/

namespace Protoclass.Text

/-- A unit of a byte text: a character, or a byte that belongs to none. -/
inductive Scalar where
  | char (c : Char)
  | stray (b : UInt8)
  deriving DecidableEq, Repr

/-- The bytes that a unit was read from. -/
def Scalar.bytes : Scalar → Text
  | .char c => String.utf8EncodeChar c
  | .stray b => [b]

/-- A continuation byte. -/
def isTail (b : UInt8) : Bool := 0x80 ≤ b && b ≤ 0xBF

/-- The six low bits of a continuation byte. -/
def tailBits (b : UInt8) : Nat := b.toNat % 64

/-- The character of a two-byte sequence. -/
def twoBytes? (a b : UInt8) : Option Char :=
  if 0xC2 ≤ a && a ≤ 0xDF && isTail b then
    some (Char.ofNat (a.toNat % 32 * 64 + tailBits b))
  else none

/-- The character of a three-byte sequence. -/
def threeBytes? (a b c : UInt8) : Option Char :=
  if 0xE0 ≤ a && a ≤ 0xEF && isTail b && isTail c
      && (a != 0xE0 || 0xA0 ≤ b) && (a != 0xED || b ≤ 0x9F) then
    some (Char.ofNat (a.toNat % 16 * 4096 + tailBits b * 64 + tailBits c))
  else none

/-- The character of a four-byte sequence. -/
def fourBytes? (a b c d : UInt8) : Option Char :=
  if 0xF0 ≤ a && a ≤ 0xF4 && isTail b && isTail c && isTail d
      && (a != 0xF0 || 0x90 ≤ b) && (a != 0xF4 || b ≤ 0x8F) then
    some (Char.ofNat
      (a.toNat % 8 * 262144 + tailBits b * 4096 + tailBits c * 64 + tailBits d))
  else none

/-- The unit that starts with the byte `a` before `rest`, and how many bytes of
`rest` it takes. -/
def headScalar (a : UInt8) (rest : Text) : Scalar × Nat :=
  if a < 0x80 then (.char (Char.ofNat a.toNat), 0)
  else
    match rest with
    | b :: c :: d :: _ =>
      match twoBytes? a b, threeBytes? a b c, fourBytes? a b c d with
      | some ch, _, _ => (.char ch, 1)
      | none, some ch, _ => (.char ch, 2)
      | none, none, some ch => (.char ch, 3)
      | none, none, none => (.stray a, 0)
    | [b, c] =>
      match twoBytes? a b, threeBytes? a b c with
      | some ch, _ => (.char ch, 1)
      | none, some ch => (.char ch, 2)
      | none, none => (.stray a, 0)
    | [b] =>
      match twoBytes? a b with
      | some ch => (.char ch, 1)
      | none => (.stray a, 0)
    | [] => (.stray a, 0)

/-- The units of a text whose first `taken` bytes belong to the unit before. -/
def scalarsFrom : (taken : Nat) → Text → List Scalar
  | _, [] => []
  | taken + 1, _ :: rest => scalarsFrom taken rest
  | 0, a :: rest => (headScalar a rest).1 :: scalarsFrom (headScalar a rest).2 rest

/-- The characters and stray bytes of a text, in order. -/
def scalars (text : Text) : List Scalar :=
  scalarsFrom 0 text

/-- The first unit of a text and what follows it. -/
def readScalar? : Text → Option (Scalar × Text)
  | [] => none
  | a :: rest => some ((headScalar a rest).1, rest.drop (headScalar a rest).2)

/-- The text as a string, with U+FFFD for each stray byte. -/
def toString (text : Text) : String :=
  String.ofList (text.scalars.map fun
    | .char c => c
    | .stray _ => Char.ofNat 0xFFFD)

/-- The character that a unit is, unless it is a stray byte. -/
def Scalar.char? : Scalar → Option Char
  | .char c => some c
  | .stray _ => none

/-- The characters of a text, if it has no stray byte. -/
def chars? (text : Text) : Option (List Char) := text.scalars.mapM Scalar.char?

/-- The UTF-8 bytes of a list of characters. -/
def ofChars (cs : List Char) : Text :=
  cs.flatMap String.utf8EncodeChar

end Protoclass.Text
