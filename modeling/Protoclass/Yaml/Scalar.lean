import Protoclass.Yaml.Place

/-!
# Scalars in a YAML text

A scalar is written plainly, in quotes, or as a block of lines.  Each function
here reads one, from its first character on, and gives its text and the place
after it.
-/

namespace Protoclass.Yaml

/-- How a scalar is written. -/
inductive Style where
  | plain
  | single
  | double
  | literal
  | folded
  deriving DecidableEq, Repr

/-- A scalar that was read: its text and the place after it. -/
structure ReadScalar where
  text : List Char
  place : Place
  /-- Whether a line break was passed at its end. -/
  broken : Bool := false

/-! ## Plain scalars -/

/-- A character that ends a plain scalar inside brackets. -/
def isFlowEnd (c : Char) : Bool :=
  c = ',' || c = '?' || c = '[' || c = ']' || c = '\x7b' || c = '\x7d'

/-- The word of a plain scalar that comes next. -/
def plainWord (flow : Bool) : List Char → List Char
  | [] => []
  | c :: rest =>
    if isSpace c || (c = ':' && atSpace rest) || (flow && isFlowEnd c) then []
    else c :: plainWord flow rest

/-- Read on in a plain scalar, after the words `text` and a gap, in at most
`limit` words.  Lines have to be indented by `indent`, except inside brackets. -/
def readPlainFrom (flow : Bool) (indent : Nat) :
    (limit : Nat) → (text : List Char) → Gap → Place → Option ReadScalar
  | 0, text, gap, place => some { text, place, broken := gap.isBroken }
  | limit + 1, text, gap, place =>
    let word := plainWord flow place.rest
    if place.hasDocumentMark || place.head? = some '#' || word.isEmpty then
      some { text, place, broken := gap.isBroken }
    else
      let text := text ++ gap.text ++ word
      let (gap, next) := ({} : Gap).read (place.advance word.length)
      if gap.tabs.any (· < indent) then none
      else if !flow && gap.isBroken && next.column < indent then
        some { text, place := next, broken := true }
      else readPlainFrom flow indent limit text gap next

/-- Read a plain scalar. -/
def readPlain (flow : Bool) (indent : Nat) (place : Place) : Option ReadScalar :=
  readPlainFrom flow indent place.rest.length [] {} place

/-! ## Quoted scalars -/

/-- The number that hexadecimal digits write. -/
def hexNumber? (digits : List Char) : Option Nat :=
  digits.foldlM (fun value digit => (hexValue? digit).map (value * 16 + ·)) 0

/-- The character that `count` hexadecimal digits stand for. -/
def hexChar? (count : Nat) (rest : List Char) : Option Char := do
  let digits := rest.take count
  if digits.length < count then none
  else
    let value ← hexNumber? digits
    if value < 0xD800 || (0xE000 ≤ value && value ≤ 0x10FFFF) then some (Char.ofNat value)
    else none

/-- What an escape stands for, by the character after the backslash and the text
after that, and how many characters of the text it takes. -/
def escape? (c : Char) (rest : List Char) : Option (Char × Nat) :=
  match c with
  | '0' => some (Char.ofNat 0, 0)
  | 'a' => some (Char.ofNat 7, 0)
  | 'b' => some (Char.ofNat 8, 0)
  | 't' => some ('\t', 0)
  | '\t' => some ('\t', 0)
  | 'n' => some ('\n', 0)
  | 'v' => some (Char.ofNat 11, 0)
  | 'f' => some (Char.ofNat 12, 0)
  | 'r' => some ('\r', 0)
  | 'e' => some (Char.ofNat 27, 0)
  | ' ' => some (' ', 0)
  | '"' => some ('"', 0)
  | '\'' => some ('\'', 0)
  | '\\' => some ('\\', 0)
  | 'N' => some (Char.ofNat 0x85, 0)
  | '_' => some (Char.ofNat 0xA0, 0)
  | 'L' => some (Char.ofNat 0x2028, 0)
  | 'P' => some (Char.ofNat 0x2029, 0)
  | 'x' => (hexChar? 2 rest).map fun c => (c, 2)
  | 'u' => (hexChar? 4 rest).map fun c => (c, 4)
  | 'U' => (hexChar? 8 rest).map fun c => (c, 8)
  | _ => none

/-- The word in single quotes that comes next, and its length as written. -/
def singleWord : List Char → List Char × Nat
  | '\'' :: '\'' :: rest => ('\'' :: (singleWord rest).1, (singleWord rest).2 + 2)
  | c :: rest =>
    if isSpace c || c = '\'' then ([], 0)
    else (c :: (singleWord rest).1, (singleWord rest).2 + 1)
  | [] => ([], 0)

/-- The word in double quotes that comes next after `taken` characters, and its
length as written with those characters. -/
def doubleWord : (taken : Nat) → List Char → Option (List Char × Nat)
  | _, [] => some ([], 0)
  | taken + 1, _ :: rest => (doubleWord taken rest).map fun (text, count) => (text, count + 1)
  | 0, '\\' :: rest =>
    match rest with
    | [] => none
    | c :: more =>
      if isBreak c then some ([], 0)
      else
        match escape? c more with
        | none => none
        | some (meant, taken) =>
          (doubleWord (taken + 1) rest).map fun (text, count) => (meant :: text, count + 1)
  | 0, c :: rest =>
    if isSpace c || c = '"' then some ([], 0)
    else (doubleWord 0 rest).map fun (text, count) => (c :: text, count + 1)

/-- The word in quotes that comes next, and its length as written. -/
def quotedWord (double : Bool) (rest : List Char) : Option (List Char × Nat) :=
  if double then doubleWord 0 rest else some (singleWord rest)

/-- Read on in a quoted scalar after `text`, in at most `limit` words. -/
def readQuotedFrom (double : Bool) :
    (limit : Nat) → (text : List Char) → Place → Option ReadScalar
  | 0, _, _ => none
  | limit + 1, text, place =>
    if place.hasDocumentMark || place.rest.isEmpty then none
    else
      match quotedWord double place.rest with
      | none => none
      | some (word, length) =>
        let next := place.advance length
        match next.rest with
        | [] => none
        | c :: _ =>
          if c = (if double then '"' else '\'') then
            some { text := text ++ word, place := next.advance 1 }
          else if c = '\\' && double then
            let (gap, after) := ({ firstBreak := some [] } : Gap).read (next.advance 1).readBreak.2
            readQuotedFrom double limit (text ++ word ++ gap.text) after
          else
            let (gap, after) := ({} : Gap).read next
            readQuotedFrom double limit (text ++ word ++ gap.text) after

/-- Read a quoted scalar, from its first quote on. -/
def readQuoted (double : Bool) (place : Place) : Option ReadScalar :=
  readQuotedFrom double place.rest.length [] (place.advance 1)

/-! ## Blocks of lines -/

/-- What becomes of the line breaks at the end of a block. -/
inductive Chomp where
  | strip
  | clip
  | keep
  deriving DecidableEq, Repr

/-- What is left of the last break and the breaks `more` after it. -/
def Chomp.tail (last more : List Char) : Chomp → List Char
  | .strip => []
  | .clip => last
  | .keep => last ++ more

/-- The sign for what becomes of the breaks at the end, if it comes next. -/
def chompSign? (place : Place) : Option Chomp :=
  match place.head? with
  | some '+' => some .keep
  | some '-' => some .strip
  | _ => none

/-- The digit for the indentation, if it comes next; it may not be zero. -/
def indentDigit? (place : Place) : Option (Option Nat) :=
  match place.head? with
  | some c => if c = '0' then none else if c.isDigit then some (some (c.toNat - 48)) else some none
  | none => some none

/-- The signs after a block's indicator, in either order, and the place after
them. -/
def readBlockSigns (place : Place) : Option (Chomp × Nat × Place) :=
  match chompSign? place with
  | some chomp =>
    (indentDigit? (place.advance 1)).map fun
      | some digit => (chomp, digit, place.advance 2)
      | none => (chomp, 0, place.advance 1)
  | none =>
    (indentDigit? place).map fun
      | some digit =>
        match chompSign? (place.advance 1) with
        | some chomp => (chomp, digit, place.advance 2)
        | none => (.clip, digit, place.advance 1)
      | none => (.clip, 0, place)

/-- The place after the rest of a block's first line, which holds nothing but
blanks and a comment. -/
def afterHeader? (place : Place) : Option Place :=
  let blanks := place.rest.takeWhile isBlank
  let next := place.advance blanks.length
  let next :=
    if next.head? = some '#' then
      next.advance (next.rest.takeWhile fun c => !isBreak c).length
    else next
  match next.rest with
  | [] => some next
  | c :: _ => if isBreak c then some next.readBreak.2 else none

/-- The breaks before the next line of a block that is not empty, the width of
the widest indentation on the way, and the place after the indentation.  With
`indent` zero the indentation is not known yet.  A tab may not stand in it. -/
def blockBreaks (indent : Nat) (widest : Nat) (breaks : List Char) (line column index : Nat) :
    List Char → Option (List Char × Nat × Place)
  | [] => some (breaks, max widest column, { rest := [], line, column, index })
  | '\r' :: '\n' :: rest =>
    blockBreaks indent (max widest column) (breaks ++ ['\n']) (line + 1) 0 (index + 2) rest
  | c :: rest =>
    if c = ' ' && (indent = 0 || column < indent) then
      blockBreaks indent widest breaks line (column + 1) (index + 1) rest
    else if c = '\t' && (indent = 0 || column < indent) then none
    else if isBreak c then
      blockBreaks indent (max widest column) (breaks ++ [breakChar c]) (line + 1) 0 (index + 1) rest
    else some (breaks, max widest column, { rest := c :: rest, line, column, index })

/-- Read on in a block after `text`, a break `last` and the breaks `more` after
it, in at most `limit` lines.  `blank` says that the line before started with a
blank. -/
def readBlockFrom (folded : Bool) (indent : Nat) :
    (limit : Nat) → (text last more : List Char) → (blank : Bool) → Place →
      Option (List Char × List Char × List Char × Place)
  | 0, text, last, more, _, place => some (text, last, more, place)
  | limit + 1, text, last, more, blank, place =>
    if place.column = indent && !place.rest.isEmpty then
      let startsBlank := place.rest.head?.any isBlank
      let joint :=
        if folded && !blank && !startsBlank && last = ['\n'] then
          if more.isEmpty then [' '] else []
        else last
      let words := place.rest.takeWhile fun c => !isBreak c
      let (last, next) := (place.advance words.length).readBreak
      match blockBreaks indent 0 [] next.line next.column next.index next.rest with
      | none => none
      | some (breaks, _, after) =>
        readBlockFrom folded indent limit (text ++ joint ++ more ++ words) last breaks startsBlank
          after
    else some (text, last, more, place)

/-- Read a block, from its indicator on, inside a block of indentation `outer`,
which is −1 outside of all. -/
def readBlock (folded : Bool) (outer : Int) (place : Place) : Option ReadScalar := do
  let (chomp, digit, afterSigns) ← readBlockSigns (place.advance 1)
  let start ← afterHeader? afterSigns
  let given := if digit = 0 then 0 else (max outer 0).toNat + digit
  let (breaks, widest, first) ←
    blockBreaks given 0 [] start.line start.column start.index start.rest
  let indent := if given = 0 then max widest (max (outer + 1).toNat 1) else given
  let (text, last, more, after) ←
    readBlockFrom folded indent first.rest.length [] [] breaks false first
  return { text := text ++ chomp.tail last more, place := after, broken := true }

end Protoclass.Yaml
