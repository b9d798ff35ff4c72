import Protoclass.Wire.Schema
import Protoclass.Wire.Varint

/-!
# Records

A message is a sequence of records, each a field number and a value in one of
five wire forms.  Reading follows the schema: a field that is a message is read
as one, and a packed list of integers as its integers.  Other text is kept as
it is; fixed-width values and groups are checked and passed over.

A field may occur with a wire form that its schema does not expect.  Such a
record is read by its form and means nothing.
-/

namespace Protoclass.Wire

/-- One record of a message. -/
inductive Record where
  | varint (number value : Nat)
  | packed (number : Nat) (values : List Nat)
  | text (number : Nat) (bytes : Text)
  | message (number : Nat) (records : List Record)
  /-- A fixed-width value or a group, which no field of a request uses. -/
  | skipped (number : Nat)
  deriving Repr, Inhabited

/-! ## Fields of a message

Of a field that is not repeated the last occurrence counts; occurrences of a
message that is not repeated are merged, which is to put their records one
after another. -/

namespace Record

/-- The texts of a field, in order. -/
def texts (number : Nat) (records : List Record) : List Text :=
  records.filterMap fun
    | .text n bytes => if n = number then some bytes else none
    | _ => none

/-- The last text of a field. -/
def text? (number : Nat) (records : List Record) : Option Text :=
  (texts number records).getLast?

/-- The numbers of a field, packed or not, in order. -/
def numbers (number : Nat) (records : List Record) : List Nat :=
  records.flatMap fun
    | .varint n value => if n = number then [value] else []
    | .packed n values => if n = number then values else []
    | _ => []

/-- The last number of a field that is not packed. -/
def number? (number : Nat) (records : List Record) : Option Nat :=
  (records.filterMap fun
    | .varint n value => if n = number then some value else none
    | _ => none).getLast?

/-- The messages of a field, in order. -/
def messages (number : Nat) (records : List Record) : List (List Record) :=
  records.filterMap fun
    | .message n inner => if n = number then some inner else none
    | _ => none

/-- The messages of a field, merged into one. -/
def merged (number : Nat) (records : List Record) : List Record :=
  (messages number records).flatten

end Record

/-- Whether the records of a message hold every field that it must have: a part
of an option's name has a text and a flag. -/
def MessageType.isComplete (type : MessageType) (records : List Record) : Bool :=
  match type with
  | .namePart => (Record.text? 1 records).isSome && (Record.number? 2 records).isSome
  | _ => true

/-! ## Reading -/

/-- The greatest number of a field. -/
def maxFieldNumber : Nat := 536870911

/-- The greatest number of a field inside a group that is passed over. -/
def maxGroupNumber : Nat := 2147483647

/-- How many messages may lie in one another, the outermost one counted. -/
def maxNesting : Nat := 10000

/-- How many groups may be open at a time. -/
def maxOpenGroups : Nat := 10001

/-- A record's number and wire form, and what follows. -/
def readTag (maxNumber : Nat) (bytes : Text) : Option (Nat × Nat × Text) := do
  let (tag, rest) ← readVarint bytes
  if tag / 8 = 0 ∨ maxNumber < tag / 8 then none
  else some (tag / 8, tag % 8, rest)

/-- What follows the first `n` bytes, if there are so many. -/
def dropExactly (n : Nat) (bytes : Text) : Option Text :=
  if n ≤ bytes.length then some (bytes.drop n) else none

/-- A length, that many bytes, and what follows them. -/
def readBytes (bytes : Text) : Option (Text × Text) := do
  let (n, rest) ← readVarint bytes
  if n ≤ rest.length then some (rest.take n, rest.drop n) else none

/-- What follows a value in a wire form, if it is not a group. -/
def skipValue (form : Nat) (bytes : Text) : Option Text :=
  match form with
  | 0 => (readVarint bytes).map Prod.snd
  | 1 => dropExactly 8 bytes
  | 2 => (readBytes bytes).map Prod.snd
  | 5 => dropExactly 4 bytes
  | _ => none

/-- What follows the groups that are open, innermost first. -/
def skipGroups : (fuel : Nat) → (groups : List Nat) → Text → Option Text
  | _, [], bytes => some bytes
  | 0, _ :: _, _ => none
  | fuel + 1, group :: outer, bytes => do
    let (number, form, rest) ← readTag maxGroupNumber bytes
    if form = 3 then
      if outer.length + 2 ≤ maxOpenGroups then skipGroups fuel (number :: group :: outer) rest
      else none
    else if form = 4 then
      if number = group then skipGroups fuel outer rest else none
    else skipGroups fuel (group :: outer) (← skipValue form rest)

/-- The record of a field from the text that it holds; `inner` reads the messages
inside. -/
def readText (inner : MessageType → Text → Option (List Record)) (type : MessageType)
    (number : Nat) (body : Text) : Option Record :=
  match type.part? number with
  | none => some (.text number body)
  | some .integers => (readVarints body.length body).map (.packed number)
  | some (.message part) => do
    let records ← inner part body
    if part.isComplete records then some (.message number records) else none

/-- The record of a field from its value in a wire form, and what follows; `inner`
reads the messages inside. -/
def readValue (inner : MessageType → Text → Option (List Record)) (type : MessageType)
    (number form : Nat) (bytes : Text) : Option (Record × Text) :=
  match form with
  | 0 => (readVarint bytes).map fun (value, rest) => (.varint number value, rest)
  | 2 => do
    let (body, rest) ← readBytes bytes
    let record ← readText inner type number body
    return (record, rest)
  | 3 => (skipGroups bytes.length [number] bytes).map fun rest => (.skipped number, rest)
  | form => (skipValue form bytes).map fun rest => (.skipped number, rest)

/-- The records of a message in which messages lie at most `depth` deep; `fuel` is at
least the number of bytes. -/
def readRecordsFrom : (depth fuel : Nat) → MessageType → Text → Option (List Record)
  | _, _, _, [] => some []
  | _, 0, _, _ :: _ => none
  | depth, fuel + 1, type, bytes => do
    let (number, form, rest) ← readTag maxFieldNumber bytes
    let inner := match depth with
      | 0 => fun _ _ => none
      | depth + 1 => readRecordsFrom depth fuel
    let (record, rest) ← readValue inner type number form rest
    (readRecordsFrom depth fuel type rest).map (record :: ·)

/-- The records of a message of a given type. -/
def readRecords (type : MessageType) (bytes : Text) : Option (List Record) :=
  readRecordsFrom (maxNesting - 1) bytes.length type bytes

/-! ## Writing -/

/-- The start of a record. -/
def tag (number form : Nat) : Text :=
  varint (8 * number + form)

/-- A field that holds a number. -/
def numberField (number value : Nat) : Text :=
  tag number 0 ++ varint value

/-- A field that holds a text, or a message by its bytes. -/
def textField (number : Nat) (bytes : Text) : Text :=
  tag number 2 ++ varint bytes.length ++ bytes

end Protoclass.Wire
