import Protoclass.Text.Folded

/-!
# References in comments

A comment may point to another type with `@see name` or to a method with
`@see name.method()`.  Both become entries of a `seealso` block, and blocks of
class entries that follow one another are merged into one.

Letters are matched in either case.  Folding case also makes U+017F a form of
`s` and U+212A a form of `k`, so both count as word characters.
-/

namespace Protoclass.Reference

/-! ## Words -/

/-- An ASCII letter, digit or underscore. -/
def isWordByte (b : UInt8) : Bool :=
  (48 ≤ b && b ≤ 57) || (65 ≤ b && b ≤ 90) || b == 95 || (97 ≤ b && b ≤ 122)

/-- The longest beginning of a text made of word characters and dots. -/
def dottedRun : Text → Text
  | [] => []
  | a :: rest =>
    if isWordByte a || a == Text.dot then a :: dottedRun rest
    else
      match rest with
      | [] => []
      | b :: rest₁ =>
        if a = 0xC5 ∧ b = 0xBF then a :: b :: dottedRun rest₁
        else
          match rest₁ with
          | [] => []
          | c :: rest₂ =>
            if a = 0xE2 ∧ b = 0x84 ∧ c = 0xAA then a :: b :: c :: dottedRun rest₂
            else []

/-- The words of the dotted name that a text starts with: non-empty words, with
one dot between two of them. -/
def dottedName (text : Text) : List Text :=
  ((dottedRun text).splitOn Text.dot).takeWhile fun word => !word.isEmpty

/-! ## Replacing -/

/-- What replaces the start of a text, and how many bytes of it are replaced. -/
abbrev Rule := Text → Option (Text × Nat)

/-- Replace, from left to right, every place where the rule applies; the first
`skip` bytes were taken by the place before them. -/
def replaceFrom (rule : Rule) : (skip : Nat) → Text → Text
  | _, [] => []
  | skip + 1, _ :: rest => replaceFrom rule skip rest
  | 0, b :: rest =>
    match rule (b :: rest) with
    | some (new, taken) => new ++ replaceFrom rule (taken - 1) rest
    | none => b :: replaceFrom rule 0 rest

/-- Replace, from left to right, every place where the rule applies. -/
def replaceAll (rule : Rule) (text : Text) : Text :=
  replaceFrom rule 0 text

/-- The entry for a method, as `Type.method`, under its full name. -/
def methodEntry (margin : Text) (words : List Text) : Text :=
  let shown := Text.join "." (words.drop (words.length - 2))
  ".. seealso::\n" ++ margin ++ ":meth:`" ++ shown ++ " <" ++ Text.join "." words ++ ">`"

/-- The entry for a class, by its last name, under its full name. -/
def classEntry (margin : Text) (words : List Text) : Text :=
  let shown := words.getLast?.getD []
  ".. seealso::\n" ++ margin ++ ":class:`" ++ shown ++ " <" ++ Text.join "." words ++ ">`"

/-- A reference to a method: `@see`, a name of two words at least, and
parentheses. -/
def methodRule (margin : Text) : Rule := fun text => do
  let named ← Text.afterFolded? "@see " text
  let words := dottedName named
  if words.length < 2 then none
  else
    let rest ← Text.after? "()" (named.drop (Text.join "." words).length)
    some (methodEntry margin words, text.length - rest.length)

/-- A reference to a class: `@see` and a name. -/
def classRule (margin : Text) : Rule := fun text => do
  let named ← Text.afterFolded? "@see " text
  let words := dottedName named
  if words.isEmpty then none
  else
    let rest := named.drop (Text.join "." words).length
    some (classEntry margin words, text.length - rest.length)

/-- A blank between two lines of a block. -/
def isGap (b : UInt8) : Bool :=
  b == 9 || b == 10 || b == 12 || b == 13 || b == 32

/-- The rest of a line with a class entry and the head of a block right after
it: the two blocks become one, with a comma between their entries. -/
def mergeRule : Rule := fun text => do
  let entry ← Text.afterFolded? ":class:" text
  let ended := entry.dropWhile (· != Text.newline)
  let below ← Text.after? "\n" ended
  let rest ← Text.afterFolded? ".. seealso::\n" (below.dropWhile isGap)
  some (text.take (text.length - ended.length) ++ ",\n", text.length - rest.length)

/-- A text with its references expanded; entries stand behind `margin`. -/
def expand (margin text : Text) : Text :=
  replaceAll mergeRule (replaceAll (classRule margin) (replaceAll (methodRule margin) text))

end Protoclass.Reference
