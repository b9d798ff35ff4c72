import Protoclass.Text.Basic

/-!
# Matching in either case

A word in lower-case ASCII letters is matched whatever the case of the text.
Folding case also makes U+017F a form of `s` and U+212A a form of `k`.
-/

namespace Protoclass.Text

/-- An ASCII letter in lower case; any other byte as it is. -/
def lower (b : UInt8) : UInt8 :=
  if 65 ≤ b && b ≤ 90 then b + 32 else b

/-- What follows the lower-case pattern byte `p`, matched in either case. -/
def afterFoldedByte? (p : UInt8) : Text → Option Text
  | [] => none
  | a :: rest =>
    if lower a = p then some rest
    else if p = 115 ∧ a = 0xC5 then
      match rest with
      | 0xBF :: rest => some rest
      | _ => none
    else if p = 107 ∧ a = 0xE2 then
      match rest with
      | 0x84 :: 0xAA :: rest => some rest
      | _ => none
    else none

/-- What follows a lower-case pattern, matched in either case. -/
def afterFolded? : (pattern text : Text) → Option Text
  | [], text => some text
  | p :: pattern, text =>
    match afterFoldedByte? p text with
    | some rest => afterFolded? pattern rest
    | none => none

/-- Whether a text is a lower-case word, in either case. -/
def isFolded (word text : Text) : Bool :=
  afterFolded? word text = some []

end Protoclass.Text
