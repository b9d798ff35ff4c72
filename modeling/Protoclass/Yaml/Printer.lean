import Protoclass.Yaml.Resolve

/-!
# Writing YAML

A record is written with one field a line, and what belongs to a field is
indented by four columns more than it.  A text is written

* as base 64, if it is not UTF-8,
* as a block of lines, if it has a newline and a block can hold it,
* plainly, if it would be read back as the same text,
* in single quotes, if only its characters are in the way of that,
* and else in double quotes, with escapes.
-/

namespace Protoclass.Yaml

/-- What can be written as a field. -/
inductive Value where
  | text (text : Text)
  | bool (value : Bool)
  | texts (items : List Text)
  | record (fields : List (Text × Value))
  deriving Repr

/-! ## The style of a text -/

/-- A character that is written as itself.  Tabs, breaks other than the newline
and the two separators, and characters above U+FFFF are not. -/
def isPrintable (c : Char) : Bool :=
  c = '\n' || (' ' ≤ c && c ≤ '~')
    || (0xA0 ≤ c.toNat && c.toNat < 0xFFFE && c.toNat != 0xFEFF)

/-- Whether two characters in a row satisfy `p`. -/
def anyPair (p : Char → Char → Bool) : List Char → Bool
  | a :: b :: rest => p a b || anyPair p (b :: rest)
  | _ => false

/-- Whether the first character, or the first three, would not start a plain
scalar. -/
def startsWithIndicator : List Char → Bool
  | [] => false
  | c :: rest =>
    let blankNext := rest.isEmpty || rest.head?.any isBlank
    (c :: rest).take 3 = ['-', '-', '-'] || (c :: rest).take 3 = ['.', '.', '.']
      || (c != '-' && c != '?' && c != ':' && Scan.isIndicator c)
      || ((c = '?' || c = ':' || c = '-') && blankNext)

/-- Whether a colon before a blank or at the end, or a number sign after a blank
or break, would end a plain scalar. -/
def hasIndicator (text : List Char) : Bool :=
  anyPair (fun a b => a = ':' && isBlank b) text || text.getLast? = some ':'
    || anyPair (fun a b => isSpace a && b = '#') text

/-- Whether a space stands at an end of the text. -/
def hasEdgeSpace (text : List Char) : Bool :=
  text.head? = some ' ' || text.getLast? = some ' '

/-- Whether a character cannot be written as itself, a tab left out of account. -/
def hasSpecial (text : List Char) : Bool := text.any fun c => c != '\t' && !isPrintable c

/-- Whether a space stands before a break. -/
def hasSpaceBeforeBreak (text : List Char) : Bool := anyPair (fun a b => a = ' ' && isBreak b) text

/-- Whether a space stands after a break. -/
def hasSpaceAfterBreak (text : List Char) : Bool := anyPair (fun a b => isBreak a && b = ' ') text

/-- Whether single quotes can hold a text. -/
def fitsQuotes (text : List Char) : Bool :=
  !(hasSpaceAfterBreak text || hasSpaceBeforeBreak text || text.contains '\t' || hasSpecial text)

/-- Whether a text can be written plainly, as far as its characters go. -/
def fitsPlain (text : List Char) : Bool :=
  fitsQuotes text && !hasEdgeSpace text && !(text.any isBreak) && !startsWithIndicator text
    && !hasIndicator text

/-- Whether a block of lines can hold a text. -/
def fitsBlock (text : List Char) : Bool :=
  !text.isEmpty && text.getLast? != some ' ' && !hasSpaceBeforeBreak text && !hasSpecial text

/-- What follows digits, the first of which has to be there, with underscores
among them. -/
def afterDigits? : List Char → Option (List Char)
  | c :: rest => if c.isDigit then some (rest.dropWhile fun d => d.isDigit || d = '_') else none
  | [] => none

/-- Whether what follows the first part of a number in base 60 makes one: parts
after colons, and then perhaps a fraction. -/
def isSexagesimalTail : (parts : Nat) → List Char → Bool
  | parts, ':' :: a :: b :: rest =>
    if '0' ≤ a && a ≤ '5' && b.isDigit then isSexagesimalTail (parts + 1) rest
    else a.isDigit && isSexagesimalTail (parts + 1) (b :: rest)
  | _, [':', a] => a.isDigit
  | parts, '.' :: rest => parts != 0 && rest.all fun d => d.isDigit || d = '_'
  | parts, [] => parts != 0
  | _, _ => false

/-- Whether a text is a number in base 60. -/
def isSexagesimal (text : List Char) : Bool :=
  (afterDigits? (unsigned text)).any (isSexagesimalTail 0)

/-- Whether a plain scalar would be read as the same text, here and by readers of
an older form of the language. -/
def readsAsText (text : List Char) : Bool :=
  meaning text = .text && !isSexagesimal text && (oldBool? text).isNone

/-- The style that a text is written in. -/
def styleOf (text : List Char) : Style :=
  if text.contains '\n' then
    if fitsBlock text then .literal else .double
  else if readsAsText text then
    if fitsPlain text then .plain
    else if fitsQuotes text then .single
    else .double
  else .double

/-! ## Scalars -/

/-- A hexadecimal digit. -/
def hexDigit (value : Nat) : Char := Char.ofNat (if value < 10 then 48 + value else 55 + value)

/-- The last `width` hexadecimal digits of a number. -/
def hexText : (width value : Nat) → List Char
  | 0, _ => []
  | width + 1, value => hexText width (value / 16) ++ [hexDigit (value % 16)]

/-- An escape in double quotes. -/
def escaped (c : Char) : List Char :=
  if c = Char.ofNat 0 then ['\\', '0']
  else if c = Char.ofNat 7 then ['\\', 'a']
  else if c = Char.ofNat 8 then ['\\', 'b']
  else if c = '\t' then ['\\', 't']
  else if c = '\n' then ['\\', 'n']
  else if c = Char.ofNat 11 then ['\\', 'v']
  else if c = Char.ofNat 12 then ['\\', 'f']
  else if c = '\r' then ['\\', 'r']
  else if c = Char.ofNat 27 then ['\\', 'e']
  else if c = '"' then ['\\', '"']
  else if c = '\\' then ['\\', '\\']
  else if c = Char.ofNat 0x85 then ['\\', 'N']
  else if c = Char.ofNat 0xA0 then ['\\', '_']
  else if c = Char.ofNat 0x2028 then ['\\', 'L']
  else if c = Char.ofNat 0x2029 then ['\\', 'P']
  else if c.toNat ≤ 0xFF then ['\\', 'x'] ++ hexText 2 c.toNat
  else if c.toNat ≤ 0xFFFF then ['\\', 'u'] ++ hexText 4 c.toNat
  else ['\\', 'U'] ++ hexText 8 c.toNat

/-- A character in double quotes; in a `marked` text each is escaped. -/
def inDoubleQuotes (marked : Bool) (c : Char) : List Char :=
  if marked || !isPrintable c || isBreak c || c = '"' || c = '\\' then escaped c else [c]

/-- A text in double quotes.  One that starts with a mark for the byte order is
escaped throughout. -/
def doubleQuoted (text : List Char) : List Char :=
  let marked := text.head? = some (Char.ofNat 0xFEFF)
  '"' :: text.flatMap (inDoubleQuotes marked) ++ ['"']

/-- A character in single quotes. -/
def inSingleQuotes (c : Char) : List Char := if c = '\'' then ['\'', '\''] else [c]

/-- The characters of a text in single quotes; lines after a break are
indented. -/
def singleQuotedFrom (indent : Nat) : (broken : Bool) → List Char → List Char
  | _, [] => []
  | broken, c :: rest =>
    if isBreak c then c :: singleQuotedFrom indent true rest
    else
      (if broken && c != ' ' then List.replicate indent ' ' else [])
        ++ inSingleQuotes c ++ singleQuotedFrom indent (broken && c = ' ') rest

/-- A text in single quotes. -/
def singleQuoted (indent : Nat) (text : List Char) : List Char :=
  '\'' :: singleQuotedFrom indent false text ++ ['\'']

/-- The digit after a block's indicator: it is needed if the text starts with a
space or a break. -/
def indentSign (text : List Char) : List Char :=
  if text.head? = some ' ' || text.head?.any isBreak then ['4'] else []

/-- The sign after a block's indicator for the breaks at the text's end: `-` for
none, `+` for several. -/
def chompSign (text : List Char) : List Char :=
  match text.reverse with
  | [] => ['-']
  | last :: before =>
    if !isBreak last then ['-']
    else if before.isEmpty || before.head?.any isBreak then ['+']
    else []

/-- The lines of a block, each that is not empty indented. -/
def blockLines (indent : Nat) : (lineStart : Bool) → List Char → List Char
  | _, [] => []
  | lineStart, c :: rest =>
    if isBreak c then c :: blockLines indent true rest
    else (if lineStart then List.replicate indent ' ' else []) ++ c :: blockLines indent false rest

/-- A text as a block of lines.  If the text starts with a break, that break also
ends the line of the indicator. -/
def literalBlock (indent : Nat) (text : List Char) : List Char :=
  '|' :: indentSign text ++ chompSign text
    ++ (if text.head?.any isBreak then [] else ['\n'])
    ++ blockLines indent true text

/-- A text in a style, with lines after the first indented. -/
def inStyle (style : Style) (indent : Nat) (text : List Char) : List Char :=
  match style with
  | .plain => text
  | .single => singleQuoted indent text
  | .double => doubleQuoted text
  | .literal | .folded => literalBlock indent text

/-- Base 64 in lines of seventy characters, each ended by a newline if there is
more than one. -/
def wrapped (limit : Nat) (digits : List Char) : List Char :=
  match limit with
  | 0 => []
  | limit + 1 =>
    if digits.isEmpty then [] else digits.take 70 ++ '\n' :: wrapped limit (digits.drop 70)

/-- The character that a byte of base 64 is. -/
def digitChar (b : UInt8) : Char := Char.ofNat b.toNat

/-- The digits of bytes in base 64. -/
def digits (bytes : Text) : List Char := (Text.Base64.encode bytes).map digitChar

/-- Bytes as base 64, in lines if there are many. -/
def binaryText (bytes : Text) : List Char :=
  if (digits bytes).length < 70 then digits bytes
  else wrapped (digits bytes).length (digits bytes)

/-- The style of a text in base 64. -/
def binaryStyle (text : List Char) : Style := if text.contains '\n' then .literal else .plain

/-- Bytes that are not UTF-8, as base 64 with a tag. -/
def binary (indent : Nat) (bytes : Text) : List Char :=
  binaryTag ++ ' ' :: inStyle (binaryStyle (binaryText bytes)) indent (binaryText bytes)

/-- A text as a scalar. -/
def scalarChars (indent : Nat) (text : Text) : List Char :=
  match text.chars? with
  | some chars => inStyle (styleOf chars) indent chars
  | none => binary indent text

/-- What has been written up to the end of a line. -/
def endLine (line : List Char) : List Char :=
  if line.getLast?.any isBreak then line else line ++ ['\n']

/-- A text as a scalar up to the end of its last line. -/
def scalarLine (indent : Nat) (text : Text) : Text :=
  Text.ofChars (endLine (scalarChars indent text))

/-! ## Records -/

/-- Columns that a line is indented by. -/
def columns (count : Nat) : Text := List.replicate count Text.space

mutual

/-- What is written after a field's name and colon, at an indentation. -/
def Value.write (indent : Nat) : Value → Text
  | .text text => Text.space :: scalarLine (indent + 4) text
  | .bool value => (if value then " true\n" else " false\n" : Text)
  | .texts items =>
    Text.newline :: items.flatMap fun item =>
      columns (indent + 4) ++ ("- " : Text) ++ scalarLine (indent + 6) item
  | .record fields => Text.newline :: writeFields (indent + 4) fields

/-- The lines of a record's fields, at an indentation. -/
def writeFields (indent : Nat) : List (Text × Value) → Text
  | [] => []
  | (name, value) :: rest =>
    columns indent ++ name ++ (":" : Text) ++ value.write indent ++ writeFields indent rest

end

/-- A record as a text. -/
def render (fields : List (Text × Value)) : Text :=
  if fields.isEmpty then "\x7b\x7d\n" else writeFields 0 fields

end Protoclass.Yaml
