import Protoclass.Text.Utf8
import Protoclass.Text.Printable

/-!
# Quoted texts

A message that shows a text from outside puts it between double quotes and
writes what cannot be shown as an escape: a backslash form for the quote, the
backslash and the seven control characters that have a letter, `\x` and two
digits for other ASCII controls and for stray bytes, `\u` and four digits or
`\U` and eight for other characters that are not printable.
-/

namespace Protoclass.Text

/-- A hexadecimal digit, in lower case. -/
def hexDigit (n : Nat) : UInt8 :=
  if n < 10 then UInt8.ofNat (48 + n) else UInt8.ofNat (87 + n)

/-- The last `width` hexadecimal digits of a number. -/
def hexDigits : (width n : Nat) → Text
  | 0, _ => []
  | width + 1, n => hexDigits width (n / 16) ++ [hexDigit (n % 16)]

/-- A character as it stands in a quoted text. -/
def quoteChar (c : Char) : Text :=
  match c with
  | '"' => "\\\""
  | '\\' => "\\\\"
  | _ =>
    if isPrintable c then String.utf8EncodeChar c
    else
      match c.toNat with
      | 7 => "\\a"
      | 8 => "\\b"
      | 9 => "\\t"
      | 10 => "\\n"
      | 11 => "\\v"
      | 12 => "\\f"
      | 13 => "\\r"
      | n =>
        if n < 0x80 then "\\x" ++ hexDigits 2 n
        else if n < 0x10000 then "\\u" ++ hexDigits 4 n
        else "\\U" ++ hexDigits 8 n

/-- A unit as it stands in a quoted text. -/
def Scalar.quote : Scalar → Text
  | .char c => quoteChar c
  | .stray b => "\\x" ++ hexDigits 2 b.toNat

/-- A text between double quotes, with escapes for what cannot be shown. -/
def quoted (text : Text) : Text :=
  "\"" ++ text.scalars.flatMap Scalar.quote ++ "\""

end Protoclass.Text
