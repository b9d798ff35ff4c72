import Protoclass.Dataclass.Reference
import Protoclass.Text.Blank

/-!
# Docstrings

The comment before a declaration becomes its docstring.  The markers of a block
comment are removed, each line is indented, and references are expanded.  A
comment of nothing but blanks gives no docstring.
-/

namespace Protoclass.Docstring

/-- The margin of a line at a depth: four spaces a level. -/
def indent (depth : Int) : Text :=
  List.replicate (4 * depth.toNat) Text.space

/-- The three double quotes around a docstring. -/
def quotes : Text := "\"\"\""

/-- A comment without its opening marker: a `*` alone, before a line end, or
before a space, which stays. -/
def dropOpening (text : Text) : Text :=
  if text = "*" then []
  else
    match Text.after? "*\n" text with
    | some rest => rest
    | none => if Text.startsWith text "* " then text.drop 1 else text

/-- A comment without its closing marker and the blanks after it. -/
def dropClosing (text : Text) : Text :=
  (Text.before? "*/" (Text.trimRight text)).getD text

/-- A comment without the markers of a block comment and without one line end
at its end. -/
def stripMarkers (raw : Text) : Text :=
  dropClosing (dropOpening (Text.dropTail raw "\n"))

/-- The lines of a comment at a depth, each without one leading space. -/
def indented (depth : Int) (text : Text) : Text :=
  Text.join "\n" ((text.splitOn Text.newline).map fun line =>
    indent depth ++ Text.dropLead line " ")

/-- A comment as indented text with its references expanded, or nothing when
only blanks remain. -/
def body (raw : Text) (depth : Int) : Text :=
  if raw.isEmpty then []
  else
    let text := Reference.expand (indent (depth + 1)) (indented depth (stripMarkers raw))
    if Text.isBlank text then [] else text

/-- A comment as a docstring statement with an empty line after it. -/
def statement (raw : Text) (depth : Int) : Text :=
  let text := body raw depth
  let trimmed := Text.trim text
  if trimmed.isEmpty then []
  else if trimmed.contains Text.newline then
    indent depth ++ quotes ++ "\n" ++ text ++ "\n" ++ indent depth ++ quotes ++ "\n\n"
  else indent depth ++ quotes ++ trimmed ++ quotes ++ "\n\n"

/-- A comment as a string literal that stands on the line of an enum value. -/
def inline (raw : Text) (depth : Int) : Text :=
  let text := Text.trimLeft (body raw depth)
  let trimmed := Text.trim text
  if trimmed.isEmpty then []
  else if trimmed.contains Text.newline then
    quotes ++ text ++ "\n" ++ indent depth ++ quotes
  else quotes ++ trimmed ++ quotes

end Protoclass.Docstring
