import Protoclass.Schema.Source

/-!
# The grammar of schema files

A reader takes tokens from the front of a list, or fails.  Every statement takes
at least one token, so that the number of tokens bounds the recursion.
-/

namespace Protoclass.Schema

/-- A reader of tokens. -/
abbrev Reader := StateT (List Token) Option

namespace Reader

/-! ## Tokens -/

/-- The next token. -/
def next : Reader Token
  | [] => none
  | token :: rest => some (token, rest)

/-- What the next token is, without taking it. -/
def peek : Reader (Option Lexeme)
  | tokens => some (tokens.head?.map (·.lexeme), tokens)

/-- What the next tokens are, without taking them. -/
def lexemes (count : Nat) : Reader (List Lexeme)
  | tokens => some ((tokens.take count).map (·.lexeme), tokens)

/-- The comment before the next token. -/
def comment : Reader Text
  | tokens => some ((tokens.head?.map (·.comment)).getD [], tokens)

/-- Take the next token if it is a given one. -/
def accept (lexeme : Lexeme) : Reader Bool := do
  if (← peek) = some lexeme then
    let _ ← next
    return true
  else return false

/-- Take a given token. -/
def expect (lexeme : Lexeme) : Reader Unit := do
  guard (← accept lexeme)

/-- Take a given symbol. -/
def symbol (byte : UInt8) : Reader Unit := expect (.symbol byte)

/-- The next token, a word. -/
def word : Reader Text := do
  match (← next).lexeme with
  | .word text => return text
  | _ => failure

/-- Any number of readings, up to `limit`, until `stop` is taken. -/
def untilSymbol {α : Type} (stop : UInt8) (read : Reader α) : (limit : Nat) → Reader (List α)
  | 0 => failure
  | limit + 1 => do
    if ← accept (.symbol stop) then return []
    else return (← read) :: (← untilSymbol stop read limit)

/-- One reading or more, up to `limit`, with a symbol between them. -/
def separated {α : Type} (divider : UInt8) (read : Reader α) : (limit : Nat) → Reader (List α)
  | 0 => failure
  | limit + 1 => do
    let first ← read
    if ← accept (.symbol divider) then return first :: (← separated divider read limit)
    else return [first]

/-- The number of tokens left, which no loop over them exceeds. -/
def remaining : Reader Nat
  | tokens => some (tokens.length, tokens)

/-- Text in quotes; pieces that follow each other are one text. -/
def quoted : Reader Text := do
  let rec pieces : List Token → Text × List Token
    | { lexeme := .quoted text, .. } :: rest => (text ++ (pieces rest).1, (pieces rest).2)
    | tokens => ([], tokens)
  match (← next).lexeme with
  | .quoted text =>
    let (more, rest) := pieces (← get)
    set rest
    return text ++ more
  | _ => failure

/-! ## Names and numbers -/

/-- The value of digits in a base, if they all belong to it. -/
def digits? (base : Nat) (text : Text) : Option Nat :=
  if text.isEmpty then none
  else text.foldlM (fun value b => do
    let digit ← hexDigit? b
    if digit < base then some (value * base + digit) else none) 0

/-- The value of a whole number: decimal, octal after `0`, hexadecimal after
`0x`. -/
def natural? : Text → Option Nat
  | 48 :: 120 :: rest => digits? 16 rest
  | 48 :: 88 :: rest => digits? 16 rest
  | 48 :: b :: rest => digits? 8 (b :: rest)
  | text => digits? 10 text

/-- A whole number. -/
def natural : Reader Nat := do
  match (← next).lexeme with
  | .number text => natural? text
  | _ => failure

/-- A whole number that may have a minus sign. -/
def integer : Reader Int := do
  if ← accept (.symbol 45) then return -(← natural : Int)
  else return (← natural : Int)

/-- Words with dots between them. -/
def path : Reader Text := do
  return Text.join "." (← separated Text.dot word (← remaining))

/-- The name of a type, which may start with a dot. -/
def typeName : Reader Text := do
  if ← accept (.symbol Text.dot) then return Text.dot :: (← path)
  else path

/-! ## What is passed over -/

/-- The tokens after the symbol that ends what is passed over, at `depth` brackets
inside it. -/
def skipTokens (stop : UInt8) : (depth : Nat) → List Token → Option (List Token)
  | _, [] => none
  | depth, token :: rest =>
    match token.lexeme with
    | .symbol b =>
      if depth = 0 && b = stop then some rest
      else if b ∈ ("\x7b[(" : Text) then skipTokens stop (depth + 1) rest
      else if b ∈ ("\x7d])" : Text) then
        if depth = 0 then none else skipTokens stop (depth - 1) rest
      else skipTokens stop depth rest
    | _ => skipTokens stop depth rest

/-- Pass over one token or more and the symbol after them. -/
def skip (stop : UInt8) : Reader Unit := do
  guard ((← peek) != some (.symbol stop))
  set (← skipTokens stop 0 (← get))

/-- Pass over the options in brackets that may stand here. -/
def skipOptions : Reader Unit := do
  if ← accept (.symbol 91) then skip 93

/-- A semicolon. -/
def semicolon : Reader Unit := symbol 59

/-! ## Declarations -/

/-- The end of a reserved range. -/
def rangeEnd (start : Int) : Reader Int := do
  if ← accept (.word "to") then
    if ← accept (.word "max") then return 2147483647 else integer
  else return start

/-- What is reserved, after the word for it. -/
def reserved (comment : Text) : Reader Reserved := do
  let limit ← remaining
  let reserved ← match ← peek with
    | some (.quoted _) => do
      pure { names := ← separated 44 quoted limit, comment : Reserved }
    | _ => do
      let range : Reader (Int × Int) := do
        let start ← integer
        return (start, ← rangeEnd start)
      pure { ranges := ← separated 44 range limit, comment : Reserved }
  semicolon
  return reserved

/-- A label, if one stands here before a type. -/
def label : Reader (Option Label) := do
  match ← get with
  | ⟨.word text, _⟩ :: rest =>
    let found : Option Label :=
      ([("optional", .optional), ("required", .required), ("repeated", .repeated)] :
        List (Text × Label)).lookup text
    if found.isSome then set rest
    return found
  | _ => return none

/-- The type of a field. -/
def fieldType : Reader TypeSource := do
  match ← get with
  | ⟨.word text, _⟩ :: ⟨.symbol 60, _⟩ :: rest =>
    guard (text = ("map" : Text))
    set rest
    let key ← word
    symbol 44
    let value ← typeName
    symbol 62
    return .map key value
  | _ => return .named (← typeName)

/-- A field. -/
def field : Reader FieldSource := do
  let comment ← comment
  let label ← label
  let type ← fieldType
  let name ← word
  symbol 61
  let number ← natural
  skipOptions
  semicolon
  return { name, number, label, type, comment }

/-- A value of an enum, after its name. -/
def value (name comment : Text) : Reader ValueSource := do
  symbol 61
  let number ← integer
  skipOptions
  semicolon
  return { name, number, comment }

/-- What stands in an enum. -/
inductive EnumMember where
  | value (value : ValueSource)
  | reserved (reserved : Reserved)
  | sharesNumbers
  | other

/-- What stands in an enum, which is read up to its end. -/
def enumMember : Reader EnumMember := do
  let comment ← comment
  if ← accept (.symbol 59) then return .other
  match ← lexemes 3 with
  | .word text :: next :: _ =>
    let isValue := next = .symbol 61
    if text = ("option" : Text) && !isValue then
      let shares := (← lexemes 5) = [.word "option", .word "allow_alias",
        .symbol 61, .word "true", .symbol 59]
      skip 59
      return if shares then .sharesNumbers else .other
    else if text = ("reserved" : Text) && !isValue then
      let _ ← word
      return .reserved (← reserved comment)
    else
      return .value (← value (← word) comment)
  | _ => failure

/-- An enum, after the word for it. -/
def enum (comment : Text) : Reader EnumSource := do
  let name ← word
  symbol 123
  let members ← untilSymbol 125 enumMember (← remaining)
  return {
    name, comment
    values := members.filterMap fun
      | .value value => some value
      | _ => none
    reserved := members.filterMap fun
      | .reserved reserved => some reserved
      | _ => none
    sharesNumbers := members.any fun
      | .sharesNumbers => true
      | _ => false }

/-- A field of a oneof, or an option. -/
def oneofField : Reader (Option FieldSource) := do
  match ← get with
  | ⟨.word text, _⟩ :: _ =>
    if text = ("option" : Text) then
      skip 59
      return none
    else return some (← field)
  | _ => return some (← field)

/-- A oneof, after the word for it. -/
def oneof (comment : Text) : Reader OneofSource := do
  let name ← word
  symbol 123
  let fields ← untilSymbol 125 oneofField (← remaining)
  return { name, comment, fields := fields.filterMap id }

/-- What stands in a message, at most `limit` messages deep. -/
def member : (limit : Nat) → Reader (Option Member)
  | 0 => failure
  | limit + 1 => do
    let comment ← comment
    if ← accept (.symbol 59) then return none
    match ← lexemes 3 with
    | .word text :: .word name :: .symbol mark :: _ =>
      if mark = 123 && text = ("message" : Text) then
        set ((← get).drop 3)
        return some (.message name comment
          ((← untilSymbol 125 (member limit) (← remaining)).filterMap id))
      else if mark = 123 && text = ("enum" : Text) then
        let _ ← word
        return some (.enum (← enum comment))
      else if mark = 123 && text = ("oneof" : Text) then
        let _ ← word
        return some (.oneof (← oneof comment))
      else if text = ("option" : Text) && mark = 61 then other
      else if text = ("reserved" : Text) && mark != 61 then failure
      else return some (.field (← field))
    | .word text :: next :: _ =>
      if text = ("reserved" : Text) && next matches .number _ | .quoted _ then
        let _ ← word
        return some (.reserved (← reserved comment))
      else if text = ("option" : Text) && next = .symbol 40 then other
      else if text = ("extensions" : Text) && next matches .number _ then other
      else return some (.field (← field))
    | _ => return some (.field (← field))
where
  /-- What leaves no trace in the descriptors. -/
  other : Reader (Option Member) := do
    skip 59
    return none

/-- The type that a method takes or gives, in parentheses. -/
def methodType : Reader Text := do
  symbol 40
  match ← get with
  | ⟨.word text, _⟩ :: ⟨next, _⟩ :: _ =>
    if text = ("stream" : Text) && next != .symbol Text.dot && next != .symbol 41 then
      let _ ← word
  | _ => pure ()
  let type ← typeName
  symbol 41
  return type

/-- A method of a service, or what leaves no trace. -/
def method : Reader (Option MethodSource) := do
  let comment ← comment
  if ← accept (.symbol 59) then return none
  let kind ← word
  if kind = ("option" : Text) then
    skip 59
    return none
  guard (kind = ("rpc" : Text))
  let name ← word
  let inputType ← methodType
  expect (.word "returns")
  let outputType ← methodType
  if ← accept (.symbol 123) then
    let _ ← untilSymbol 125 options (← remaining)
  else semicolon
  return some { name, inputType, outputType, comment }
where
  /-- An option of a method. -/
  options : Reader Unit := do
    if !(← accept (.symbol 59)) then
      expect (.word "option")
      skip 59

/-- A service, after the word for it. -/
def service (comment : Text) : Reader ServiceSource := do
  let name ← word
  symbol 123
  let methods ← untilSymbol 125 method (← remaining)
  return { name, comment, methods := methods.filterMap id }

/-- A dependency, after the word for it. -/
def dependency (comment : Text) : Reader Statement := do
  let isPublic ← accept (.word "public")
  let _ ← if isPublic then pure false else accept (.word "weak")
  let path ← quoted
  semicolon
  return .dependency path comment isPublic

/-- What stands in a file. -/
def statement : Reader (Option Statement) := do
  let comment ← comment
  if ← accept (.symbol 59) then return none
  let kind ← word
  if kind = ("package" : Text) then
    let name ← path
    semicolon
    return some (.package name comment)
  else if kind = ("import" : Text) then return some (← dependency comment)
  else if kind = ("message" : Text) then
    let name ← word
    symbol 123
    let limit ← remaining
    return some (.message name comment ((← untilSymbol 125 (member limit) limit).filterMap id))
  else if kind = ("enum" : Text) then return some (.enum (← enum comment))
  else if kind = ("service" : Text) then return some (.service (← service comment))
  else if kind = ("option" : Text) then
    skip 59
    return none
  else failure

/-- The statements up to the end of a file, at most `limit`. -/
def statements : (limit : Nat) → Reader (List (Option Statement))
  | 0 => failure
  | limit + 1 => do
    if (← peek).isNone then return []
    else return (← statement) :: (← statements limit)

/-- The version of the language that a file may start with: whether it is the
third, and the comment before it. -/
def version : Reader (Bool × Option Text) := do
  let comment ← comment
  if ← accept (.word "syntax") then
    symbol 61
    let version ← quoted
    semicolon
    guard (version = ("proto2" : Text) || version = ("proto3" : Text))
    return (version = ("proto3" : Text), some comment)
  else return (false, none)

/-- A file. -/
def file : Reader FileSource := do
  let (isProto3, comment) ← version
  let statements ← statements ((← remaining) + 1)
  return { isProto3, comment, statements := statements.filterMap id }

end Reader

/-- Read a schema file. -/
def FileSource.parse? (text : Text) : Option FileSource := do
  let tokens ← tokens? text
  let (file, _) ← Reader.file.run tokens
  return file

end Protoclass.Schema
