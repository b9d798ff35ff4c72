import Protoclass.Text.Basic

/-!
# Blanks

The white space that surrounds comments and option values is Unicode's: the
six ASCII blanks, U+0085, U+00A0, U+1680, U+2000 to U+200A, U+2028, U+2029,
U+202F, U+205F and U+3000.  A blank is recognised by its bytes, at either end
of a text, so that a stray byte is never a blank.
-/

namespace Protoclass.Text

/-- An ASCII blank: tab, line feed, vertical tab, form feed, carriage return
or space. -/
def isAsciiBlank (b : UInt8) : Bool := (9 ≤ b && b ≤ 13) || b = 32

/-- The two bytes of U+0085 or U+00A0. -/
def isBlankPair (a b : UInt8) : Bool :=
  a = 0xC2 && (b = 0x85 || b = 0xA0)

/-- The three bytes of a blank from U+1680 on. -/
def isBlankTriple (a b c : UInt8) : Bool :=
  (a = 0xE1 && b = 0x9A && c = 0x80)
  || (a = 0xE2 && b = 0x80
      && ((0x80 ≤ c && c ≤ 0x8A) || c = 0xA8 || c = 0xA9 || c = 0xAF))
  || (a = 0xE2 && b = 0x81 && c = 0x9F)
  || (a = 0xE3 && b = 0x80 && c = 0x80)

/-- A text without the blanks it starts with. -/
def trimLeft : Text → Text
  | [] => []
  | a :: rest =>
    if isAsciiBlank a then trimLeft rest
    else
      match rest with
      | [] => [a]
      | b :: rest₁ =>
        if isBlankPair a b then trimLeft rest₁
        else
          match rest₁ with
          | [] => [a, b]
          | c :: rest₂ =>
            if isBlankTriple a b c then trimLeft rest₂
            else a :: b :: c :: rest₂

/-- `trimLeft` on the bytes from last to first. -/
def trimReversed : Text → Text
  | [] => []
  | a :: rest =>
    if isAsciiBlank a then trimReversed rest
    else
      match rest with
      | [] => [a]
      | b :: rest₁ =>
        if isBlankPair b a then trimReversed rest₁
        else
          match rest₁ with
          | [] => [a, b]
          | c :: rest₂ =>
            if isBlankTriple c b a then trimReversed rest₂
            else a :: b :: c :: rest₂

/-- A text without the blanks it ends with. -/
def trimRight (text : Text) : Text :=
  (trimReversed text.reverse).reverse

/-- A text without the blanks at both its ends. -/
def trim (text : Text) : Text :=
  trimRight (trimLeft text)

/-- Whether a text holds nothing but blanks. -/
def isBlank (text : Text) : Bool :=
  (trimLeft text).isEmpty

end Protoclass.Text
