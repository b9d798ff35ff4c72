import Protoclass.Text.Basic

/-!
# Base 64

Three bytes are written as four characters; `=` fills up the last four.
-/

namespace Protoclass.Text.Base64

/-- The character for a value below 64. -/
def digit (value : Nat) : UInt8 :=
  UInt8.ofNat (
    if value < 26 then 65 + value
    else if value < 52 then 97 + (value - 26)
    else if value < 62 then 48 + (value - 52)
    else if value = 62 then 43
    else 47)

/-- The value of a character. -/
def value? (b : UInt8) : Option Nat :=
  if 65 ≤ b && b ≤ 90 then some (b.toNat - 65)
  else if 97 ≤ b && b ≤ 122 then some (b.toNat - 97 + 26)
  else if 48 ≤ b && b ≤ 57 then some (b.toNat - 48 + 52)
  else if b = 43 then some 62
  else if b = 47 then some 63
  else none

/-- Write bytes in base 64. -/
def encode : Text → Text
  | a :: b :: c :: rest =>
    let n := a.toNat * 65536 + b.toNat * 256 + c.toNat
    digit (n / 262144) :: digit (n / 4096 % 64) :: digit (n / 64 % 64) :: digit (n % 64)
      :: encode rest
  | [a, b] =>
    let n := a.toNat * 65536 + b.toNat * 256
    [digit (n / 262144), digit (n / 4096 % 64), digit (n / 64 % 64), 61]
  | [a] =>
    let n := a.toNat * 65536
    [digit (n / 262144), digit (n / 4096 % 64), 61, 61]
  | [] => []

/-- Read bytes from base 64 without line breaks. -/
def decodeLine? : Text → Option Text
  | [] => some []
  | [a, b, 61, 61] => do
    let n := (← value? a) * 64 + (← value? b)
    return [UInt8.ofNat (n / 16)]
  | [a, b, c, 61] => do
    let n := (← value? a) * 4096 + (← value? b) * 64 + (← value? c)
    return [UInt8.ofNat (n / 1024), UInt8.ofNat (n / 4)]
  | a :: b :: c :: d :: rest => do
    let n := (← value? a) * 262144 + (← value? b) * 4096 + (← value? c) * 64 + (← value? d)
    return UInt8.ofNat (n / 65536) :: UInt8.ofNat (n / 256) :: UInt8.ofNat n :: (← decodeLine? rest)
  | _ => none

/-- Read bytes from base 64; line breaks count for nothing. -/
def decode? (text : Text) : Option Text :=
  decodeLine? (text.filter fun b => b != 10 && b != 13)

end Protoclass.Text.Base64
