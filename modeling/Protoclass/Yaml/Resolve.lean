import Protoclass.Text.Base64
import Protoclass.Text.Utf8
import Protoclass.Yaml.Node

/-!
# What a scalar means

A plain scalar without a tag may mean nothing, a truth value, a number or a
point in time; else it is a text.  A tag says what a scalar has to mean.
-/

namespace Protoclass.Yaml

/-- What a plain scalar means. -/
inductive Meaning where
  | null
  | bool (value : Bool)
  | int
  | float
  | time
  | text
  deriving DecidableEq, Repr

/-! ## Numbers -/

/-- The value of a digit in any base up to 36. -/
def digitValue? (c : Char) : Option Nat :=
  if c.isDigit then some (c.toNat - 48)
  else if 'a' ≤ c && c ≤ 'z' then some (c.toNat - 87)
  else if 'A' ≤ c && c ≤ 'Z' then some (c.toNat - 55)
  else none

/-- The number that digits write in a base. -/
def natIn? (base : Nat) (digits : List Char) : Option Nat :=
  digits.foldlM (fun value digit =>
    (digitValue? digit).bind fun d => if d < base then some (value * base + d) else none) 0

/-- The number that digits write in a base given by how they start: `0x`, `0b`,
`0o` and `0`, and ten without any. -/
def natLiteral? : List Char → Option Nat
  | [] => none
  | '0' :: c :: d :: rest =>
    if c = 'x' || c = 'X' then natIn? 16 (d :: rest)
    else if c = 'b' || c = 'B' then natIn? 2 (d :: rest)
    else if c = 'o' || c = 'O' then natIn? 8 (d :: rest)
    else natIn? 8 (c :: d :: rest)
  | '0' :: rest => natIn? 8 rest
  | digits => natIn? 10 digits

/-- Whether a text is a sign, or none, and a number that fits in 64 bits with its
sign. -/
def isSigned (number : List Char → Option Nat) (text : List Char) : Bool :=
  match text with
  | '-' :: rest => (number rest).any (· ≤ 9223372036854775808)
  | '+' :: rest => (number rest).any (· < 9223372036854775808)
  | _ => (number text).any (· < 9223372036854775808)

/-- The number that at least one digit writes in a base. -/
def someNatIn? (base : Nat) (digits : List Char) : Option Nat :=
  if digits.isEmpty then none else natIn? base digits

/-- Whether a text is an integer.  A sign may also stand after `0b` and `0o`. -/
def isInt (text : List Char) : Bool :=
  isSigned natLiteral? text || (natLiteral? text).any (· < 18446744073709551616)
    || match text with
      | '0' :: 'b' :: rest =>
        isSigned (someNatIn? 2) rest || (someNatIn? 2 rest).any (· < 18446744073709551616)
      | '0' :: 'o' :: rest =>
        isSigned (someNatIn? 8) rest || (someNatIn? 8 rest).any (· < 18446744073709551616)
      | _ => false

/-- A decimal number: its digits as one number, and the power of ten that it is to
be multiplied by. -/
structure Decimal where
  digits : List Char
  exponent : Int

/-- The exponent at the end of a decimal number, zero if nothing is left. -/
def exponent? : List Char → Option Int
  | [] => some 0
  | c :: rest =>
    if c = 'e' || c = 'E' then
      match rest with
      | '-' :: digits => (someNatIn? 10 digits).map fun n => -(n : Int)
      | '+' :: digits => (someNatIn? 10 digits).map Int.ofNat
      | digits => (someNatIn? 10 digits).map Int.ofNat
    else none

/-- A decimal number without a sign. -/
def decimal? (text : List Char) : Option Decimal := do
  let whole := text.takeWhile Char.isDigit
  let rest := text.dropWhile Char.isDigit
  let (fraction, rest) := match rest with
    | '.' :: after => (after.takeWhile Char.isDigit, after.dropWhile Char.isDigit)
    | _ => ([], rest)
  if whole.isEmpty && fraction.isEmpty then none
  else
    let exponent ← exponent? rest
    return { digits := whole ++ fraction, exponent := exponent - fraction.length }

/-- The least number that is too large for a floating-point number of 64 bits. -/
def floatLimit : Nat := Nat.pow 2 1024 - Nat.pow 2 970

/-- Whether a decimal number is small enough for a floating-point number. -/
def Decimal.fits (number : Decimal) : Bool :=
  let digits := number.digits.dropWhile (· = '0')
  let size := (digits.length : Int) + number.exponent
  if digits.isEmpty || size < 309 then true
  else if 309 < size then false
  else
    let value := (natIn? 10 digits).getD 0
    if 0 ≤ number.exponent then value * Nat.pow 10 number.exponent.toNat < floatLimit
    else value < floatLimit * Nat.pow 10 (-number.exponent).toNat

/-- A text without its sign. -/
def unsigned : List Char → List Char
  | '-' :: rest => rest
  | '+' :: rest => rest
  | text => text

/-- Whether a text is a decimal number that fits, with a sign or without. -/
def isFloat (text : List Char) : Bool :=
  (decimal? (unsigned text)).any Decimal.fits

/-- Whether each underscore stands between two digits. -/
def separatesDigits : (afterDigit : Bool) → List Char → Bool
  | _, [] => true
  | afterDigit, c :: rest =>
    if c = '_' then
      afterDigit && rest.head?.any Char.isDigit && separatesDigits false rest
    else separatesDigits c.isDigit rest

/-- Whether a text that starts with a point is a decimal number that fits. -/
def isPointFloat (text : List Char) : Bool :=
  separatesDigits false text && isFloat (text.filter (· != '_'))

/-! ## Points in time -/

/-- One or two digits, and what follows them. -/
def oneOrTwoDigits : List Char → Option (Nat × List Char)
  | a :: b :: rest =>
    if a.isDigit then
      if b.isDigit then some ((a.toNat - 48) * 10 + (b.toNat - 48), rest)
      else some (a.toNat - 48, b :: rest)
    else none
  | [a] => if a.isDigit then some (a.toNat - 48, []) else none
  | [] => none

/-- The number of days of a month. -/
def daysIn (year month : Nat) : Nat :=
  if month = 2 then
    if year % 4 = 0 && (year % 100 != 0 || year % 400 = 0) then 29 else 28
  else if month = 4 || month = 6 || month = 9 || month = 11 then 30
  else 31

/-- What follows a character. -/
def after? (c : Char) : List Char → Option (List Char)
  | d :: rest => if c = d then some rest else none
  | [] => none

/-- What follows a date, written with four digits for the year and one or two for
the month and the day. -/
def afterDate? (text : List Char) : Option (List Char) := do
  let digits := text.takeWhile Char.isDigit
  if digits.length != 4 then none
  else
    let year := (natIn? 10 digits).getD 0
    let (month, rest) ← oneOrTwoDigits (← after? '-' (text.drop 4))
    let (day, rest) ← oneOrTwoDigits (← after? '-' rest)
    if 1 ≤ month && month ≤ 12 && 1 ≤ day && day ≤ daysIn year month then some rest else none

/-- What follows a time of the day, with a fraction of the second or without. -/
def afterTime? (text : List Char) : Option (List Char) := do
  let (hour, rest) ← oneOrTwoDigits text
  let (minute, rest) ← oneOrTwoDigits (← after? ':' rest)
  let (second, rest) ← oneOrTwoDigits (← after? ':' rest)
  if 24 ≤ hour || 60 ≤ minute || 60 ≤ second then none
  else
    match rest with
    | c :: d :: more =>
      if (c = '.' || c = ',') && d.isDigit then some (more.dropWhile Char.isDigit) else some rest
    | _ => some rest

/-- Whether a text is a time zone: `Z`, or hours and minutes with a sign. -/
def isZone : List Char → Bool
  | ['Z'] => true
  | [sign, a, b, ':', c, d] =>
    (sign = '+' || sign = '-') && a.isDigit && b.isDigit && c.isDigit && d.isDigit
      && (natIn? 10 [a, b]).any (· ≤ 24) && (natIn? 10 [c, d]).any (· ≤ 60)
  | _ => false

/-- Whether a text is a date, alone or with a time: after a `T` and with a time
zone, or after spaces and without one. -/
def isTime (text : List Char) : Bool :=
  match afterDate? text with
  | none => false
  | some [] => true
  | some (c :: rest) =>
    if c = 'T' || c = 't' then (afterTime? rest).any isZone
    else if c = ' ' then afterTime? (rest.dropWhile (· = ' ')) = some []
    else false

/-! ## Meanings -/

/-- Whether a text is written as some word in one of three ways: in small
letters, with a capital first, or in capitals. -/
def isWord (text : List Char) (forms : List String) : Bool :=
  forms.any fun form => form.toList = text

/-- What a plain scalar without a tag means. -/
def meaning (text : List Char) : Meaning :=
  match text with
  | [] => .null
  | first :: _ =>
    if isWord text ["true", "True", "TRUE"] then .bool true
    else if isWord text ["false", "False", "FALSE"] then .bool false
    else if isWord text ["~", "null", "Null", "NULL"] then .null
    else if isWord text [".nan", ".NaN", ".NAN", ".inf", ".Inf", ".INF", "+.inf", "+.Inf", "+.INF",
        "-.inf", "-.Inf", "-.INF"] then .float
    else if first = '.' then
      if isPointFloat text then .float else .text
    else if first.isDigit || first = '+' || first = '-' then
      let plain := text.filter (· != '_')
      if isTime text then .time
      else if isInt plain then .int
      else if isFloat plain then .float
      else .text
    else .text

/-- Whether a text is a word for a truth value in an older form of the
language, and which one. -/
def oldBool? (text : List Char) : Option Bool :=
  if isWord text ["y", "Y", "yes", "Yes", "YES", "on", "On", "ON"] then some true
  else if isWord text ["n", "N", "no", "No", "NO", "off", "Off", "OFF"] then some false
  else none

/-- What a scalar gives to a place where a text or a truth value is wanted. -/
inductive Content where
  | null
  /-- A truth value, and how it is written. -/
  | bool (value : Bool) (written : Text)
  /-- A text, and whether it is written plainly. -/
  | text (text : Text) (plain : Bool)
  deriving DecidableEq, Repr

/-- The tag of bytes in base 64. -/
def binaryTag : List Char := ['!', '!', 'b', 'i', 'n', 'a', 'r', 'y']

/-- The meaning that a tag asks for. -/
def wantedMeaning? (tag : List Char) : Option (Meaning → Bool) :=
  if tag = "!!null".toList then some (· = .null)
  else if tag = "!!bool".toList then some fun m => m = .bool true || m = .bool false
  else if tag = "!!int".toList then some (· = .int)
  else if tag = "!!float".toList then some fun m => m = .float || m = .int
  else if tag = "!!timestamp".toList then some (· = .time)
  else none

/-- The content of a text with a meaning. -/
def Content.of (meaning : Meaning) (text : List Char) (plain : Bool) : Content :=
  match meaning with
  | .null => .null
  | .bool value => .bool value (Text.ofChars text)
  | _ => .text (Text.ofChars text) plain

/-- What a scalar gives; `none` if it does not mean what its tag says. -/
def content? (tag : Option (List Char)) (style : Style) (text : List Char) : Option Content :=
  let plain := style = .plain
  match tag.filter (· != ['!']) with
  | none => some (if plain then Content.of (meaning text) text true
      else .text (Text.ofChars text) false)
  | some tag =>
    if tag = binaryTag then
      (Text.Base64.decode? (Text.ofChars text)).map fun bytes => .text bytes plain
    else
      match wantedMeaning? tag with
      | none => some (.text (Text.ofChars text) plain)
      | some wanted =>
        let found := meaning text
        if wanted found then some (Content.of found text plain) else none

end Protoclass.Yaml
