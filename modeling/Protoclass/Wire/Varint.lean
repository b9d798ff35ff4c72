import Protoclass.Text.Basic

/-!
# Variable-length integers

A number is written in groups of seven bits, lowest first, one group a byte;
the high bit of a byte says that another follows.  A number has 64 bits, so at
most ten bytes, the tenth of which holds one bit.
-/

namespace Protoclass.Wire

/-- The number that a text starts with, from the group of index `place` on,
and what follows it. -/
def readVarintFrom (place : Nat) : Text → Option (Nat × Text)
  | [] => none
  | b :: rest =>
    if b < 0x80 then
      if place < 9 ∨ (place = 9 ∧ b ≤ 1) then some (b.toNat, rest) else none
    else if place < 9 then
      match readVarintFrom (place + 1) rest with
      | some (high, rest) => some (b.toNat % 128 + 128 * high, rest)
      | none => none
    else none

/-- The number that a text starts with, and what follows it. -/
def readVarint (bytes : Text) : Option (Nat × Text) :=
  readVarintFrom 0 bytes

/-- The numbers that a text is made of. -/
def readVarints : (fuel : Nat) → Text → Option (List Nat)
  | _, [] => some []
  | 0, _ => none
  | fuel + 1, bytes =>
    match readVarint bytes with
    | some (n, rest) => (readVarints fuel rest).map (n :: ·)
    | none => none

/-- A number in groups of seven bits; `more` bounds how many groups follow the
first. -/
def varintGroups : (more : Nat) → Nat → Text
  | 0, n => [UInt8.ofNat n]
  | more + 1, n =>
    if n < 128 then [UInt8.ofNat n]
    else UInt8.ofNat (n % 128 + 128) :: varintGroups more (n / 128)

/-- The bytes of a number below 2^64. -/
def varint (n : Nat) : Text :=
  varintGroups 9 n

end Protoclass.Wire
