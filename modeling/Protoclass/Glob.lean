import Protoclass.Text.Utf8

/-!
# Patterns for names

A pattern is matched against a whole name: `?` stands for any character but a
slash, `*` for any run of bytes without a slash, `[a-z]` for one character of a
class and `[^a-z]` for one outside it, `\\` takes the next character as it is,
and every other byte stands for itself.  A pattern that is not well formed
matches nothing.

A run matched by `*` is as short as the part up to the next `*` allows.
-/

namespace Protoclass.Glob

/-- One part of a pattern. -/
inductive Item where
  /-- A run of bytes without a slash. -/
  | star
  /-- One character that is not a slash. -/
  | any
  /-- One character in one of the closed ranges, or in none of them. -/
  | cls (negated : Bool) (ranges : List (Nat × Nat))
  /-- A byte that stands for itself. -/
  | byte (b : UInt8)
  deriving DecidableEq, Repr

/-! ## Reading a pattern -/

/-- The code point of a unit; a stray byte counts as U+FFFD. -/
def codePoint : Text.Scalar → Nat
  | .char c => c.toNat
  | .stray _ => 0xFFFD

/-- A character of a class, possibly after a backslash; something has to follow
it. -/
def readMember (text : Text) : Option (Nat × Text) := do
  let bare ←
    match text with
    | [] | 45 :: _ | 93 :: _ => none
    | 92 :: rest => some rest
    | _ => some text
  match Text.readScalar? bare with
  | some (.char c, b :: rest) => some (c.toNat, b :: rest)
  | _ => none

/-- The ranges of a class up to its closing bracket, and what follows it; `seen`
says whether there was a range before. -/
def readRanges : (fuel : Nat) → (seen : Bool) → Text → Option (List (Nat × Nat) × Text)
  | 0, _, _ => none
  | fuel + 1, seen, text =>
    match seen, text with
    | true, 93 :: rest => some ([], rest)
    | _, _ => do
      let (low, rest) ← readMember text
      let (high, rest) ←
        match rest with
        | 45 :: rest => readMember rest
        | _ => some (low, rest)
      let (more, rest) ← readRanges fuel true rest
      return ((low, high) :: more, rest)

/-- The parts of a pattern; `fuel` is at least the number of its bytes. -/
def readItems : (fuel : Nat) → Text → Option (List Item)
  | _, [] => some []
  | 0, _ => none
  | fuel + 1, b :: rest =>
    match b, rest with
    | 42, _ => return .star :: (← readItems fuel rest)
    | 63, _ => return .any :: (← readItems fuel rest)
    | 91, 94 :: rest => do
      let (ranges, rest) ← readRanges fuel false rest
      return .cls true ranges :: (← readItems fuel rest)
    | 91, _ => do
      let (ranges, rest) ← readRanges fuel false rest
      return .cls false ranges :: (← readItems fuel rest)
    | 92, [] => none
    | 92, c :: rest => return .byte c :: (← readItems fuel rest)
    | _, _ => return .byte b :: (← readItems fuel rest)

/-- The parts of a pattern, if it is well formed. -/
def parse (pattern : Text) : Option (List Item) :=
  readItems pattern.length pattern

/-! ## Matching -/

/-- What follows one part, other than a star, at the start of a text. -/
def Item.after? (item : Item) (text : Text) : Option Text :=
  match item with
  | .star => none
  | .any => do
    let (_, rest) ← Text.readScalar? text
    if text.head? = some Text.slash then none else some rest
  | .cls negated ranges => do
    let (scalar, rest) ← Text.readScalar? text
    let code := codePoint scalar
    let inside := ranges.any fun range => range.1 ≤ code && code ≤ range.2
    if inside = negated then none else some rest
  | .byte b =>
    match text with
    | c :: rest => if c = b then some rest else none
    | [] => none

/-- What follows a sequence of parts without stars. -/
def afterAll? : List Item → Text → Option Text
  | [], text => some text
  | item :: items, text =>
    match item.after? text with
    | some rest => afterAll? items rest
    | none => none

/-- What follows the parts at the first place where they fit, no slash being
passed over; at the end of a pattern they have to reach the end of the text. -/
def firstFit (items : List Item) (last : Bool) : Text → Option Text
  | [] =>
    match afterAll? items [] with
    | some rest => if last && !rest.isEmpty then none else some rest
    | none => none
  | b :: rest =>
    match afterAll? items (b :: rest) with
    | some after =>
      if last && !after.isEmpty then
        if b = Text.slash then none else firstFit items last rest
      else some after
    | none => if b = Text.slash then none else firstFit items last rest

/-- The parts before the first star, and those after each star up to the
next. -/
def segments : List Item → List Item × List (List Item)
  | [] => ([], [])
  | .star :: items =>
    match segments items with
    | ([], next :: more) => ([], next :: more)
    | (first, more) => ([], first :: more)
  | item :: items =>
    match segments items with
    | (first, more) => (item :: first, more)

/-- Whether the parts after a star, and those after each later star, match a
text. -/
def matchesAfterStar : List (List Item) → Text → Bool
  | [], text => text.isEmpty
  | [[]], text => !text.contains Text.slash
  | items :: more, text =>
    match firstFit items more.isEmpty text with
    | some rest => matchesAfterStar more rest
    | none => false

/-- Whether the parts match the whole of a text. -/
def matchesItems (items : List Item) (text : Text) : Bool :=
  match segments items with
  | (first, more) =>
    match afterAll? first text with
    | some rest => if more.isEmpty then rest.isEmpty else matchesAfterStar more rest
    | none => false

/-- Whether a pattern matches the whole of a name. -/
def isMatch (pattern name : Text) : Bool :=
  match parse pattern with
  | some items => matchesItems items name
  | none => false

end Protoclass.Glob
