import Protoclass.Text.Basic

/-!
# Places in a YAML text

A place is what is left of a text together with the line, the column and the
number of characters before it.  A run of blanks and line breaks between two
words is a gap; its text is what stands for it inside a scalar that goes over
several lines.
-/

namespace Protoclass.Yaml

/-! ## Characters -/

/-- A character that ends a line. -/
def isBreak (c : Char) : Bool :=
  c = '\n' || c = '\r' || c = Char.ofNat 0x85 || c = Char.ofNat 0x2028 || c = Char.ofNat 0x2029

/-- A space or a tab. -/
def isBlank (c : Char) : Bool := c = ' ' || c = '\t'

/-- A blank or a line break. -/
def isSpace (c : Char) : Bool := isBlank c || isBreak c

/-- Whether a space or the end comes next. -/
def atSpace : List Char → Bool
  | [] => true
  | c :: _ => isSpace c

/-- A character of an anchor's name. -/
def isWordChar (c : Char) : Bool := c.isAlphanum || c = '_' || c = '-'

/-- The value of a hexadecimal digit. -/
def hexValue? (c : Char) : Option Nat :=
  if c.isDigit then some (c.toNat - 48)
  else if 'a' ≤ c && c ≤ 'f' then some (c.toNat - 87)
  else if 'A' ≤ c && c ≤ 'F' then some (c.toNat - 55)
  else none

/-- A character that may stand in a text at all. -/
def isAllowed (c : Char) : Bool :=
  c = '\t' || c = '\n' || c = '\r' || (' ' ≤ c && c ≤ '~') || c = Char.ofNat 0x85
    || (0xA0 ≤ c.toNat && c.toNat ≤ 0xFFFD) || 0x10000 ≤ c.toNat

/-- The character that a break counts as: those for the separators of lines and
of paragraphs count as themselves. -/
def breakChar (c : Char) : Char :=
  if c = Char.ofNat 0x2028 || c = Char.ofNat 0x2029 then c else '\n'

/-! ## Places -/

/-- A place in a text. -/
structure Place where
  rest : List Char
  line : Nat := 0
  column : Nat := 0
  index : Nat := 0
  deriving DecidableEq, Repr

namespace Place

/-- The place after `count` characters that are no breaks. -/
def advance (place : Place) (count : Nat) : Place :=
  { place with
    rest := place.rest.drop count
    column := place.column + count
    index := place.index + count }

/-- The place after a line break, with the break; the same place if none is
there. -/
def readBreak (place : Place) : List Char × Place :=
  match place.rest with
  | '\r' :: '\n' :: rest =>
    (['\n'], { rest, line := place.line + 1, column := 0, index := place.index + 2 })
  | c :: rest =>
    if isBreak c then
      ([breakChar c], { rest, line := place.line + 1, column := 0, index := place.index + 1 })
    else ([], place)
  | [] => ([], place)

/-- Whether a mark between documents, made of three `c`, starts here. -/
def hasMark (place : Place) (c : Char) : Bool :=
  place.column = 0 && place.rest.take 3 = [c, c, c] && atSpace (place.rest.drop 3)

/-- Whether a mark between documents starts here. -/
def hasDocumentMark (place : Place) : Bool := place.hasMark '-' || place.hasMark '.'

/-- The character at a place. -/
def head? (place : Place) : Option Char := place.rest.head?

end Place

/-! ## Gaps -/

/-- A run of blanks and line breaks. -/
structure Gap where
  /-- The blanks before the first break. -/
  blanks : List Char := []
  /-- The first break; it is empty when it is escaped. -/
  firstBreak : Option (List Char) := none
  /-- The breaks after it. -/
  moreBreaks : List Char := []
  /-- The columns of the tabs after the first break. -/
  tabs : List Nat := []
  deriving DecidableEq, Repr

namespace Gap

/-- Whether there is a break. -/
def isBroken (gap : Gap) : Bool := gap.firstBreak.isSome

/-- The gap with one more blank, at a column. -/
def addBlank (gap : Gap) (c : Char) (column : Nat) : Gap :=
  if gap.isBroken then
    if c = '\t' then { gap with tabs := column :: gap.tabs } else gap
  else { gap with blanks := gap.blanks ++ [c] }

/-- The gap with one more break. -/
def addBreak (gap : Gap) (c : Char) : Gap :=
  match gap.firstBreak with
  | none => { gap with firstBreak := some [c] }
  | some _ => { gap with moreBreaks := gap.moreBreaks ++ [c] }

/-- What a gap stands for: itself if it lies in one line; else a single ordinary
break is a space, and of several the first goes. -/
def text (gap : Gap) : List Char :=
  match gap.firstBreak with
  | none => gap.blanks
  | some first =>
    if first = ['\n'] then
      if gap.moreBreaks.isEmpty then [' '] else gap.moreBreaks
    else first ++ gap.moreBreaks

/-- Add the blanks and breaks that come next to a gap. -/
def extend (gap : Gap) (line column index : Nat) : List Char → Gap × Place
  | [] => (gap, { rest := [], line, column, index })
  | '\r' :: '\n' :: rest => extend (gap.addBreak '\n') (line + 1) 0 (index + 2) rest
  | c :: rest =>
    if isBlank c then extend (gap.addBlank c column) line (column + 1) (index + 1) rest
    else if isBreak c then extend (gap.addBreak (breakChar c)) (line + 1) 0 (index + 1) rest
    else (gap, { rest := c :: rest, line, column, index })

/-- Add what comes next at a place to a gap. -/
def read (gap : Gap) (place : Place) : Gap × Place :=
  gap.extend place.line place.column place.index place.rest

end Gap

end Protoclass.Yaml
