import Protoclass.Yaml.Scalar

/-!
# YAML tokens

`scan` turns a text into tokens.  The start and the end of collections that are
written by indentation are tokens too.  A scalar, an alias or a collection in
brackets turns out to be a key only at the colon after it, at most 1024
characters on and in the same line; the key token is then put before it.

Scanning is two tokens ahead of reading.  If a text cannot be scanned to its end,
the last two tokens before the fault are therefore left out, and reading fails
unless it needs none of them.
-/

namespace Protoclass.Yaml

/-- A token. -/
inductive Token where
  | streamEnd
  | version (major minor : Nat)
  | tagHandle (handle meaning : List Char)
  | documentStart
  | documentEnd
  | blockSequenceStart
  | blockMappingStart
  | blockEnd
  | flowSequenceStart
  | flowSequenceEnd
  | flowMappingStart
  | flowMappingEnd
  | blockEntry
  | flowEntry
  | key
  | value
  | alias (name : List Char)
  | anchor (name : List Char)
  | tag (handle suffix : List Char)
  | scalar (style : Style) (text : List Char)
  deriving DecidableEq, Repr

/-! ## Anchors, tags and directives -/

/-- Read the name of an anchor or alias, after its indicator. -/
def readName (place : Place) : Option (List Char × Place) :=
  let name := place.rest.takeWhile isWordChar
  let next := place.advance name.length
  let ends := atSpace next.rest
    || next.head?.any fun c =>
        c = '?' || c = ':' || c = ',' || c = ']' || c = '\x7d' || c = '%' || c = '@' || c = '`'
  if name.isEmpty || !ends then none else some (name, next)

/-- A character of a tag, other than an escape. -/
def isTagChar (c : Char) : Bool :=
  isWordChar c || c = ';' || c = '/' || c = '?' || c = ':' || c = '@' || c = '&' || c = '='
    || c = '+' || c = '$' || c = ',' || c = '.' || c = '!' || c = '~' || c = '*' || c = '\''
    || c = '(' || c = ')' || c = '[' || c = ']'

/-- The bytes that escapes of the form `%41` stand for, and what follows them. -/
def escapedBytes : List Char → Text
  | '%' :: a :: b :: rest =>
    match hexValue? a, hexValue? b with
    | some high, some low => UInt8.ofNat (high * 16 + low) :: escapedBytes rest
    | _, _ => []
  | _ => []

/-- How many bytes a character has, by its first one. -/
def leadWidth (b : UInt8) : Nat :=
  if b < 0x80 then 1
  else if 0xC0 ≤ b && b < 0xE0 then 2
  else if 0xE0 ≤ b && b < 0xF0 then 3
  else if 0xF0 ≤ b && b < 0xF8 then 4
  else 0

/-- Whether bytes start with one character's worth of them. -/
def startsCharacter : Text → Bool
  | [] => false
  | b :: rest =>
    let width := leadWidth b
    width != 0 && width - 1 ≤ rest.length
      && (rest.take (width - 1)).all fun tail => 0x80 ≤ tail && tail < 0xC0

/-- Read the characters of a tag, and how many were read.  An escaped character
has to be complete. -/
def tagChars : (taken : Nat) → List Char → Option (List Char × Nat)
  | _, [] => some ([], 0)
  | taken + 1, _ :: rest => (tagChars taken rest).map fun (text, count) => (text, count + 1)
  | 0, c :: rest =>
    if c = '%' then
      let bytes := escapedBytes (c :: rest)
      if startsCharacter bytes then
        let width := leadWidth (bytes.headD 0)
        let written := (c :: rest).take (width * 3)
        (tagChars (width * 3 - 1) rest).map fun (text, count) => (written ++ text, count + 1)
      else none
    else if isTagChar c then (tagChars 0 rest).map fun (text, count) => (c :: text, count + 1)
    else some ([], 0)

/-- The handle that a tag may start with: `!`, or a word between two `!`. -/
def readHandle (place : Place) : List Char × Place :=
  let word := '!' :: (place.rest.drop 1).takeWhile isWordChar
  let next := place.advance word.length
  if next.head? = some '!' then (word ++ ['!'], next.advance 1) else (word, next)

/-- Read a tag. -/
def readTag (place : Place) : Option (Token × Place) := do
  let (token, after) ←
    if place.rest.take 2 = ['!', '<'] then do
      let start := place.advance 2
      let (suffix, count) ← tagChars 0 start.rest
      let next := start.advance count
      if count = 0 || next.head? != some '>' then none
      else some (Token.tag [] suffix, next.advance 1)
    else do
      let (handle, start) := readHandle place
      let (suffix, count) ← tagChars 0 start.rest
      let next := start.advance count
      if 2 ≤ handle.length && handle.getLast? = some '!' then
        if count = 0 then none else some (Token.tag handle suffix, next)
      else
        let whole := handle.drop 1 ++ suffix
        if whole.isEmpty then some (Token.tag [] ['!'], next)
        else some (Token.tag ['!'] whole, next)
  if atSpace after.rest then some (token, after) else none

/-- Read a number of one or two digits. -/
def readVersionNumber (place : Place) : Option (Nat × Place) :=
  let digits := place.rest.takeWhile Char.isDigit
  if digits.isEmpty || 2 < digits.length then none
  else some (digits.foldl (fun n d => n * 10 + (d.toNat - 48)) 0, place.advance digits.length)

/-- The place after blanks. -/
def afterBlanks (place : Place) : Place :=
  place.advance (place.rest.takeWhile isBlank).length

/-- Read a directive, from its `%` on. -/
def readDirective (place : Place) : Option (Token × Place) := do
  let start := place.advance 1
  let name := start.rest.takeWhile isWordChar
  let next := start.advance name.length
  if name.isEmpty || !atSpace next.rest then none
  else
    let (token, after) ←
      if name = ['Y', 'A', 'M', 'L'] then do
        let (major, dot) ← readVersionNumber (afterBlanks next)
        if dot.head? != some '.' then none
        else
          let (minor, after) ← readVersionNumber (dot.advance 1)
          some (Token.version major minor, after)
      else if name = ['T', 'A', 'G'] then do
        let start := afterBlanks next
        if start.head? != some '!' then none
        else
          let (handle, gap) := readHandle start
          if handle != ['!'] && handle.getLast? != some '!' then none
          else if !(gap.head?.any isBlank) then none
          else
            let target := afterBlanks gap
            let (meaning, count) ← tagChars 0 target.rest
            let after := target.advance count
            if count = 0 || !atSpace after.rest then none
            else some (Token.tagHandle handle meaning, after)
      else none
    let line ← afterHeader? after
    some (token, line)

/-! ## Scanning -/

/-- Where a key may have started. -/
structure KeySpot where
  /-- The number of tokens before it. -/
  position : Nat
  /-- Nothing but a key may stand there. -/
  required : Bool
  line : Nat
  column : Nat
  index : Nat
  deriving DecidableEq, Repr

/-- What scanning knows at a place. -/
structure Scan where
  place : Place
  /-- The indentations of the open blocks, innermost first. -/
  indents : List Nat := []
  /-- A key may start here. -/
  keyAllowed : Bool := true
  /-- Where a key may have started, for the text outside all brackets. -/
  outerKey : Option KeySpot := none
  /-- The same inside each open bracket, innermost first. -/
  innerKeys : List (Option KeySpot) := []
  /-- The tokens so far, newest first. -/
  tokens : List Token := []

namespace Scan

/-- Whether the place is inside brackets. -/
def inFlow (scan : Scan) : Bool := !scan.innerKeys.isEmpty

/-- The indentation of the innermost block, −1 outside of all. -/
def indent (scan : Scan) : Int :=
  match scan.indents with
  | [] => -1
  | column :: _ => column

/-- Where a key may have started, at the innermost level. -/
def key (scan : Scan) : Option KeySpot :=
  match scan.innerKeys with
  | [] => scan.outerKey
  | key :: _ => key

/-- Change where a key may have started, at the innermost level. -/
def setKey (scan : Scan) (key : Option KeySpot) : Scan :=
  match scan.innerKeys with
  | [] => { scan with outerKey := key }
  | _ :: rest => { scan with innerKeys := key :: rest }

/-- Add a token. -/
def push (scan : Scan) (token : Token) : Scan :=
  { scan with tokens := token :: scan.tokens }

/-- Put a token after the first `position` ones. -/
def insert (scan : Scan) (position : Nat) (token : Token) : Scan :=
  let later := scan.tokens.length - position
  { scan with tokens := scan.tokens.take later ++ token :: scan.tokens.drop later }

/-- Move to another place. -/
def goTo (scan : Scan) (place : Place) : Scan := { scan with place }

/-- Forget where a key may have started; that fails if it has to be one. -/
def dropKey (scan : Scan) : Option Scan :=
  match scan.key with
  | some spot => if spot.required then none else some (scan.setKey none)
  | none => some scan

/-- Remember that a key may start here, if it may. -/
def saveKey (scan : Scan) : Option Scan :=
  if scan.keyAllowed then
    scan.dropKey.map fun dropped => dropped.setKey (some {
      position := scan.tokens.length
      required := !scan.inFlow && scan.indent = scan.place.column
      line := scan.place.line
      column := scan.place.column
      index := scan.place.index })
  else some scan

/-- Open a block at a column if it lies deeper than the innermost one.  Its first
token goes after the first `position` ones. -/
def openBlock (scan : Scan) (column position : Nat) (token : Token) : Scan :=
  if !scan.inFlow && scan.indent < column then
    { scan.insert position token with indents := column :: scan.indents }
  else scan

/-- The open blocks without those deeper than a column, and how many those
are. -/
def closedAt (column : Int) : List Nat → List Nat × Nat
  | [] => ([], 0)
  | indent :: rest =>
    if column < indent then ((closedAt column rest).1, (closedAt column rest).2 + 1)
    else (indent :: rest, 0)

/-- Close the blocks that lie deeper than a column. -/
def closeBlocks (scan : Scan) (column : Int) : Scan :=
  if scan.inFlow then scan
  else
    let (indents, count) := closedAt column scan.indents
    { scan with indents, tokens := List.replicate count .blockEnd ++ scan.tokens }

/-- Skip spaces, comments and line breaks; gives the place after them and
whether a key may start there.  Outside brackets a tab is skipped only where no
key may start, or where a comment follows it: in the line of the last token
(`tokenLine`), or after another comment (`commented`). -/
def skipSpace (flow : Bool) (keyAllowed tokenLine commented inComment : Bool)
    (line column index : Nat) : List Char → Place × Bool
  | [] => ({ rest := [], line, column, index }, keyAllowed)
  | '\r' :: '\n' :: rest =>
    skipSpace flow (keyAllowed || !flow) false commented false (line + 1) 0 (index + 2) rest
  | c :: rest =>
    if isBreak c then
      skipSpace flow (keyAllowed || !flow) false commented false (line + 1) 0 (index + 1) rest
    else if inComment then
      skipSpace flow keyAllowed tokenLine commented true line (column + 1) (index + 1) rest
    else if c = ' ' then
      skipSpace flow keyAllowed tokenLine commented false line (column + 1) (index + 1) rest
    else if c = '\t' && (flow || !keyAllowed
        || (tokenLine && (rest.dropWhile isBlank).head? = some '#')
        || (commented && (rest.dropWhile isSpace).head? = some '#')) then
      skipSpace flow keyAllowed tokenLine commented false line (column + 1) (index + 1) rest
    else if c = '#' then
      skipSpace flow keyAllowed tokenLine true true line (column + 1) (index + 1) rest
    else ({ rest := c :: rest, line, column, index }, keyAllowed)

/-- Move to the next token. -/
def toToken (scan : Scan) : Scan :=
  let tokenLine := !scan.tokens.isEmpty && scan.tokens.head? != some .blockEntry
  let place := scan.place
  let (place, keyAllowed) := skipSpace scan.inFlow scan.keyAllowed tokenLine false false
    place.line place.column place.index place.rest
  { scan with place, keyAllowed }

/-- Move to the next token and close the blocks that end before it. -/
def settled (scan : Scan) : Scan := scan.toToken.closeBlocks scan.toToken.place.column

/-! ### One token -/

/-- A token of a single character. -/
def single (scan : Scan) (token : Token) : Scan :=
  (scan.goTo (scan.place.advance 1)).push token

/-- A mark between documents. -/
def documentMark (scan : Scan) (token : Token) : Option Scan := do
  let scan ← (scan.closeBlocks (-1)).dropKey
  return { (scan.goTo (scan.place.advance 3)).push token with keyAllowed := false }

/-- A directive. -/
def directive (scan : Scan) : Option Scan := do
  let scan ← (scan.closeBlocks (-1)).dropKey
  let (token, place) ← readDirective scan.place
  return { (scan.goTo place).push token with keyAllowed := false }

/-- An opening bracket. -/
def openFlow (scan : Scan) (token : Token) : Option Scan := do
  let scan ← scan.saveKey
  return { scan.single token with keyAllowed := true, innerKeys := none :: scan.innerKeys }

/-- A closing bracket. -/
def closeFlow (scan : Scan) (token : Token) : Option Scan := do
  let scan ← scan.dropKey
  return { scan.single token with keyAllowed := false, innerKeys := scan.innerKeys.drop 1 }

/-- A comma. -/
def flowEntry (scan : Scan) : Option Scan := do
  let scan ← scan.dropKey
  return { scan.single .flowEntry with keyAllowed := true }

/-- The dash before an entry. -/
def blockEntry (scan : Scan) : Option Scan := do
  if !scan.inFlow && !scan.keyAllowed then none
  else
    let scan ←
      (scan.openBlock scan.place.column scan.tokens.length .blockSequenceStart).dropKey
    return { scan.single .blockEntry with keyAllowed := true }

/-- A question mark before a key. -/
def explicitKey (scan : Scan) : Option Scan := do
  if !scan.inFlow && !scan.keyAllowed then none
  else
    let scan ←
      (scan.openBlock scan.place.column scan.tokens.length .blockMappingStart).dropKey
    return { scan.single .key with keyAllowed := !scan.inFlow }

/-- Whether what started at a spot can still be a key here. -/
def reaches (scan : Scan) (spot : KeySpot) : Bool :=
  spot.line = scan.place.line && scan.place.index ≤ spot.index + 1024

/-- A colon after a key. -/
def colon (scan : Scan) : Option Scan :=
  match scan.key.filter scan.reaches with
  | some spot =>
    let opened := (scan.insert spot.position .key).openBlock spot.column spot.position
      .blockMappingStart
    some { (opened.setKey none).single .value with keyAllowed := false }
  | none =>
    if scan.key.any (·.required) then none
    else if !scan.inFlow && !scan.keyAllowed then none
    else
      let opened := scan.openBlock scan.place.column scan.tokens.length .blockMappingStart
      some { (opened.setKey none).single .value with keyAllowed := !scan.inFlow }

/-- An anchor or an alias. -/
def named (scan : Scan) (token : List Char → Token) : Option Scan := do
  let scan ← scan.saveKey
  let (name, place) ← readName (scan.place.advance 1)
  return { (scan.goTo place).push (token name) with keyAllowed := false }

/-- A tag. -/
def tagged (scan : Scan) : Option Scan := do
  let scan ← scan.saveKey
  let (token, place) ← readTag scan.place
  return { (scan.goTo place).push token with keyAllowed := false }

/-- A block of lines. -/
def block (scan : Scan) (style : Style) : Option Scan := do
  let scan ← scan.dropKey
  let read ← readBlock (style = .folded) scan.indent scan.place
  return { (scan.goTo read.place).push (.scalar style read.text) with keyAllowed := true }

/-- A quoted scalar. -/
def quoted (scan : Scan) (style : Style) : Option Scan := do
  let scan ← scan.saveKey
  let read ← readQuoted (style = .double) scan.place
  return { (scan.goTo read.place).push (.scalar style read.text) with keyAllowed := false }

/-- A plain scalar. -/
def plain (scan : Scan) : Option Scan := do
  let scan ← scan.saveKey
  let read ← readPlain scan.inFlow (scan.indent + 1).toNat scan.place
  return { (scan.goTo read.place).push (.scalar .plain read.text) with keyAllowed := read.broken }

/-- A character that a plain scalar does not start with. -/
def isIndicator (c : Char) : Bool :=
  c = '-' || c = '?' || c = ':' || c = ',' || c = '[' || c = ']' || c = '\x7b' || c = '\x7d'
    || c = '#' || c = '&' || c = '*' || c = '!' || c = '|' || c = '>' || c = '\'' || c = '"'
    || c = '%' || c = '@' || c = '`'

/-- The end of the text. -/
def finish (scan : Scan) : Option Scan := do
  let scan ← (scan.closeBlocks (-1)).dropKey
  return { scan.push .streamEnd with keyAllowed := false }

/-- Scan the token at the place, whose first character is `c`, before `rest`. -/
def tokenAt (scan : Scan) (c : Char) (rest : List Char) : Option Scan :=
  if scan.place.column = 0 && c = '%' then scan.directive
  else if scan.place.hasMark '-' then scan.documentMark .documentStart
  else if scan.place.hasMark '.' then scan.documentMark .documentEnd
  else if c = '[' then scan.openFlow .flowSequenceStart
  else if c = '\x7b' then scan.openFlow .flowMappingStart
  else if c = ']' then scan.closeFlow .flowSequenceEnd
  else if c = '\x7d' then scan.closeFlow .flowMappingEnd
  else if c = ',' then scan.flowEntry
  else if c = '-' && atSpace rest then scan.blockEntry
  else if c = '?' && (scan.inFlow || atSpace rest) then scan.explicitKey
  else if c = ':' && (scan.inFlow || atSpace rest) then scan.colon
  else if c = '*' then scan.named .alias
  else if c = '&' then scan.named .anchor
  else if c = '!' then scan.tagged
  else if c = '|' && !scan.inFlow then scan.block .literal
  else if c = '>' && !scan.inFlow then scan.block .folded
  else if c = '\'' then scan.quoted .single
  else if c = '"' then scan.quoted .double
  else if !(isSpace c || isIndicator c) || (c = '-' && !(rest.head?.any isBlank))
      || (!scan.inFlow && (c = '?' || c = ':') && !atSpace rest) then scan.plain
  else none

/-- Scan to the end in at most `limit` tokens; gives the tokens, newest first,
and whether the end was reached. -/
def run : (limit : Nat) → Scan → List Token × Bool
  | 0, scan => (scan.tokens, false)
  | limit + 1, scan =>
    match scan.settled.place.rest with
    | [] =>
      match scan.settled.finish with
      | some done => (done.tokens, true)
      | none => (scan.tokens, false)
    | c :: rest =>
      match scan.settled.tokenAt c rest with
      | some next => run limit next
      | none => (scan.tokens, false)

end Scan

/-- The text without a mark for the byte order at its start. -/
def dropByteOrderMark : List Char → List Char
  | c :: rest => if c = Char.ofNat 0xFEFF then rest else c :: rest
  | [] => []

/-- The tokens of a text, as far as reading may see them. -/
def scan (text : List Char) : List Token :=
  let rest := dropByteOrderMark text
  match Scan.run (rest.length + 1) { place := { rest } } with
  | (tokens, true) => tokens.reverse
  | (tokens, false) => (tokens.drop 2).reverse

end Protoclass.Yaml
