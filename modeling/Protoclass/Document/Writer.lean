import Protoclass.Text.Basic

/-!
# Indented writing

A writer holds the text written so far, an indentation level, and the prefix that
lines at this level have.  A non-empty piece written at the start of a line is
preceded by the prefix; raw text is written as it is, having been indented where it
was made.

A level is a word of 64 bits, as long as it can be counted and the prefix has a
length that can: `indent?` and its like give no writer where one of the two goes
beyond the largest word.  Where code is laid out at a depth that no word bounds, the
level is a natural number.
-/

namespace Protoclass

/-- A text, over and over. -/
def Text.repeated (unit : Text) (count : Nat) : Text :=
  if unit.isEmpty then [] else (List.replicate count unit).flatten

theorem Text.repeated_eq (unit : Text) (count : Nat) :
    Text.repeated unit count = (List.replicate count unit).flatten := by
  unfold Text.repeated
  split
  case isTrue empty =>
    rw [List.isEmpty_iff.mp empty, List.flatten_replicate_nil]
  case isFalse => rfl

/-- A text, over and over, if the number is not negative and the result not longer
than a word can say. -/
def Text.repeated? (unit : Text) (count : Int64) : Option Text :=
  if count < 0 then none
  else if Int64.maxValue.toInt < unit.length * count.toInt then none
  else some (Text.repeated unit count.toInt.toNat)

/-- A text being written, line by line. -/
structure Writer (Level : Type) where
  /-- The text of one level of indentation. -/
  unit : Text
  level : Level
  /-- What stands before a line at the level. -/
  linePrefix : Text := []
  atLineStart : Bool := true
  text : Text := []
  deriving DecidableEq, Repr

namespace Writer

/-! ## Pieces -/

section Pieces

variable {Level : Type}

/-- Write a piece of a line. -/
def write (w : Writer Level) (piece : Text) : Writer Level :=
  if w.atLineStart && !piece.isEmpty then
    { w with text := w.text ++ w.linePrefix ++ piece, atLineStart := false }
  else
    { w with text := w.text ++ piece }

/-- End the line. -/
def newline (w : Writer Level) : Writer Level :=
  { w with text := w.text ++ "\n", atLineStart := true }

/-- Write a piece and end the line. -/
def line (w : Writer Level) (piece : Text) : Writer Level :=
  (w.write piece).newline

/-- Write text that carries its own indentation. -/
def raw (w : Writer Level) (piece : Text) : Writer Level :=
  if piece.isEmpty then w
  else { w with text := w.text ++ piece, atLineStart := Text.endsWith piece "\n" }

end Pieces

/-! ## Levels of 64 bits -/

/-- The writer with the prefix of its level, if there is one. -/
def updatePrefix? (w : Writer Int64) : Option (Writer Int64) :=
  (Text.repeated? w.unit w.level).map fun linePrefix => { w with linePrefix }

/-- One level deeper. -/
def indent? (w : Writer Int64) : Option (Writer Int64) :=
  { w with level := w.level + 1 }.updatePrefix?

/-- One level back, but not below zero. -/
def dedent? (w : Writer Int64) : Option (Writer Int64) :=
  if 0 < w.level then { w with level := w.level - 1 }.updatePrefix? else some w

/-- Another level; a negative level counts as zero. -/
def setLevel? (w : Writer Int64) (level : Int64) : Option (Writer Int64) :=
  { w with level := if level < 0 then 0 else level }.updatePrefix?

/-- A writer with nothing written, at a level. -/
def start? (unit : Text) (level : Int64) : Option (Writer Int64) :=
  Writer.setLevel? { unit, level := 0 } level

/-- What can be done with a writer. -/
inductive Operation where
  | indent
  | dedent
  | setLevel (level : Int64)
  | write (piece : Text)
  | line (piece : Text)
  | newline
  | raw (piece : Text)
  deriving DecidableEq, Repr

/-- A writer after an operation. -/
def perform? (w : Writer Int64) : Operation → Option (Writer Int64)
  | .indent => w.indent?
  | .dedent => w.dedent?
  | .setLevel level => w.setLevel? level
  | .write piece => some (w.write piece)
  | .line piece => some (w.line piece)
  | .newline => some w.newline
  | .raw piece => some (w.raw piece)

/-! ## Levels without a bound -/

/-- The writer at a level. -/
def atLevel (w : Writer Nat) (level : Nat) : Writer Nat :=
  { w with level, linePrefix := Text.repeated w.unit level }

/-- One level deeper. -/
def indent (w : Writer Nat) : Writer Nat := w.atLevel (w.level + 1)

/-- One level back, but not below zero. -/
def dedent (w : Writer Nat) : Writer Nat :=
  if 0 < w.level then w.atLevel (w.level - 1) else w

/-- A writer with nothing written, at a level; a negative level counts as zero. -/
def start (unit : Text) (level : Int) : Writer Nat :=
  Writer.atLevel { unit, level := 0 } level.toNat

end Writer

end Protoclass
