import Protoclass.Schema.Comment

/-!
# Tokens of schema files

Words, numbers, quoted texts and symbols, each with the comment that leads it.
-/

namespace Protoclass.Schema

/-- What a token is. -/
inductive Lexeme where
  | word (text : Text)
  | number (text : Text)
  | quoted (text : Text)
  | symbol (byte : UInt8)
  deriving DecidableEq, Repr

/-- A token, with the comment that leads it. -/
structure Token where
  lexeme : Lexeme
  comment : Text := []
  deriving DecidableEq, Repr

/-- A letter or an underscore. -/
def isLetter (b : UInt8) : Bool := (65 ≤ b && b ≤ 90) || (97 ≤ b && b ≤ 122) || b = 95

/-- A decimal digit. -/
def isDigit (b : UInt8) : Bool := 48 ≤ b && b ≤ 57

/-- A byte that only divides tokens. -/
def isBlank (b : UInt8) : Bool := b = 32 || (9 ≤ b && b ≤ 13)

/-- A byte that is a token of its own. -/
def isSymbol (b : UInt8) : Bool := b ∈ (";=\x7b\x7d[]()<>,.:-+/" : Text)

/-- A byte that ends something, and so needs no comment. -/
def isClosing (b : UInt8) : Bool := b ∈ ("\x7d]),;" : Text)

/-- The value of a digit up to base 16. -/
def hexDigit? (b : UInt8) : Option Nat :=
  if isDigit b then some (b.toNat - 48)
  else if 97 ≤ b && b ≤ 102 then some (b.toNat - 87)
  else if 65 ≤ b && b ≤ 70 then some (b.toNat - 55)
  else none

/-- The byte that an escape of a single letter stands for. -/
def escapedByte? (b : UInt8) : Option UInt8 :=
  ([(97, 7), (98, 8), (102, 12), (110, 10), (114, 13), (116, 9), (118, 11), (92, 92), (39, 39),
    (34, 34), (63, 63)] : List (UInt8 × UInt8)).lookup b

/-- The text in quotes up to its closing quote, and what follows it. -/
def readQuoted (quote : UInt8) : Text → Option (Text × Text)
  | [] => none
  | 92 :: b :: rest =>
    match escapedByte? b with
    | none => none
    | some meant => (readQuoted quote rest).map fun (text, after) => (meant :: text, after)
  | b :: rest =>
    if b = quote then some ([], rest)
    else if b = Text.newline then none
    else (readQuoted quote rest).map fun (text, after) => (b :: text, after)

/-- The text of a block comment up to its end, and what follows it. -/
def readBlock : Text → Option (Text × Text)
  | [] => none
  | 42 :: 47 :: rest => some ([], rest)
  | b :: rest => (readBlock rest).map fun (text, after) => (b :: text, after)

/-- How many newlines a text has. -/
def newlines (text : Text) : Nat := text.count Text.newline

/-- The bytes that can follow the first one of a number. -/
def isNumberByte (b : UInt8) : Bool := isLetter b || isDigit b || b = Text.dot

/-- The lexeme at the start of a text that starts with neither a blank nor a
comment, and what follows it. -/
def readLexeme : Text → Option (Lexeme × Text)
  | [] => none
  | b :: rest =>
    if isLetter b then
      let tail := rest.takeWhile fun c => isLetter c || isDigit c
      some (.word (b :: tail), rest.drop tail.length)
    else if isDigit b then
      let tail := rest.takeWhile isNumberByte
      some (.number (b :: tail), rest.drop tail.length)
    else if b = 34 || b = 39 then
      (readQuoted b rest).map fun (text, after) => (.quoted text, after)
    else if isSymbol b then some (.symbol b, rest)
    else none

/-- Whether a lexeme ends something. -/
def Lexeme.closes : Lexeme → Bool
  | .symbol b => isClosing b
  | _ => false

/-- Read tokens, at most `limit` steps, from `line` on.  `previous` is the line of
the token before, and `comments` are the comments since. -/
def tokensFrom : (limit : Nat) → (previous : Option Nat) → (line : Nat) →
    (comments : List Comment) → Text → Option (List Token)
  | 0, _, _, _, _ => none
  | _ + 1, _, _, _, [] => some []
  | limit + 1, previous, line, comments, 47 :: 47 :: rest =>
    let text := rest.takeWhile (· != Text.newline)
    let after := rest.drop text.length
    let comment : Comment :=
      { text, isLine := true, endsLine := !after.isEmpty, startLine := line, endLine := line }
    tokensFrom limit previous line (comments ++ [comment]) after
  | limit + 1, previous, line, comments, 47 :: 42 :: rest =>
    match readBlock rest with
    | none => none
    | some (text, after) =>
      let last := line + newlines text
      let comment : Comment := { text, isLine := false, startLine := line, endLine := last }
      tokensFrom limit previous last (comments ++ [comment]) after
  | limit + 1, previous, line, comments, b :: rest =>
    if b = Text.newline then tokensFrom limit previous (line + 1) comments rest
    else if isBlank b then tokensFrom limit previous line comments rest
    else
      match readLexeme (b :: rest) with
      | none => none
      | some (lexeme, after) =>
        let comment := Comment.leading previous line lexeme.closes comments
        (tokensFrom limit (some line) line [] after).map ({ lexeme, comment } :: ·)

/-- A text without the mark for the byte order that it may start with. -/
def dropByteOrderMark : Text → Text
  | 0xEF :: 0xBB :: 0xBF :: rest => rest
  | text => text

/-- The tokens of a schema file; `none` if there is something else in it. -/
def tokens? (text : Text) : Option (List Token) :=
  let text := dropByteOrderMark text
  tokensFrom (text.length + 1) none 0 [] text

end Protoclass.Schema
