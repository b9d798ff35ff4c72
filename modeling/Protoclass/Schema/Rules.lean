import Protoclass.Schema.Source

/-!
# Rules that a schema file keeps

What the grammar lets pass but the language forbids, as far as it can be seen
without looking up names: numbers, labels, reserved names and numbers, and names
that would be the same in JSON.
-/

namespace Protoclass.Schema

/-- Why schema files cannot be compiled. -/
inductive Error where
  | notFound (path : Text)
  /-- A file needs itself, directly or not. -/
  | cycle (path : Text)
  | malformed (path : Text)
  | forbidden (path rule : Text)
  /-- A name is declared twice. -/
  | conflict (name : Text)
  /-- A name does not stand for a type of the kind that is needed. -/
  | unresolved (path name : Text)
  deriving DecidableEq, Repr

/-- The text of an error. -/
def Error.message : Error → Text
  | .notFound path => path ++ ": file not found"
  | .cycle path => path ++ ": cycle found in imports"
  | .malformed path => path ++ ": syntax error"
  | .forbidden path rule => path ++ ": " ++ rule
  | .conflict name => "symbol \"" ++ name ++ "\" already defined"
  | .unresolved path name => path ++ ": unknown type " ++ name

/-! ## Names in JSON -/

/-- An ASCII letter in upper case. -/
def upperByte (b : UInt8) : UInt8 := if 97 ≤ b && b ≤ 122 then b - 32 else b

/-- An ASCII letter in lower case. -/
def lowerByte (b : UInt8) : UInt8 := if 65 ≤ b && b ≤ 90 then b + 32 else b

/-- A name without underscores, with a capital letter after each. -/
def jsonName : Text → Text
  | [] => []
  | 95 :: rest =>
    match jsonName rest with
    | [] => []
    | b :: tail => upperByte b :: tail
  | b :: rest => b :: jsonName rest

/-- A text whose first letter is a capital. -/
def initCap : Text → Text
  | [] => []
  | b :: rest => upperByte b :: rest

/-- The name of the message that describes the entries of a map field. -/
def entryName (field : Text) : Text := initCap (jsonName field) ++ "Entry"

/-- What follows `lead` in a name, where case and underscores do not count. -/
def afterLoosely? : (lead name : Text) → Option Text
  | [], name => some name
  | 95 :: lead, name => afterLoosely? lead name
  | _ :: _, [] => none
  | a :: lead, b :: name =>
    if b = 95 then afterLoosely? (a :: lead) name
    else if lowerByte a = lowerByte b then afterLoosely? lead name
    else none

/-- The letters of a name: a capital first and after each underscore, the others
small. -/
def capitalized : (capital : Bool) → Text → Text
  | _, [] => []
  | capital, b :: rest =>
    if b = 95 then capitalized true rest
    else (if capital then upperByte b else lowerByte b) :: capitalized false rest

/-- The name of an enum value by which it must differ from others: without the
name of the enum, as far as something is left. -/
def ValueSource.bareName (enumName : Text) (value : ValueSource) : Text :=
  let rest := ((afterLoosely? enumName value.name).getD value.name).dropWhile (· = 95)
  capitalized true (if rest.isEmpty then value.name else rest)

/-! ## Rules -/

/-- Whether no element of a list stands twice in it. -/
def allDiffer {α : Type} [DecidableEq α] (elements : List α) : Bool := decide elements.Nodup

/-- Whether a number is reserved. -/
def Reserved.hasNumber (reserved : Reserved) (number : Int) : Bool :=
  reserved.ranges.any fun (first, last) => first ≤ number && number ≤ last

/-- Whether a field's number may be used at all. -/
def isFieldNumber (number : Nat) : Bool :=
  1 ≤ number && number ≤ 536870911 && !(19000 ≤ number && number ≤ 19999)

/-- The types that the keys of a map may have. -/
def keyTypes : List Text :=
  ["int32", "int64", "uint32", "uint64", "sint32", "sint64", "fixed32", "fixed64", "sfixed32",
    "sfixed64", "bool", "string"]

/-- Whether the label of a field of its own agrees with the version. -/
def FieldSource.hasLabel (isProto3 : Bool) (field : FieldSource) : Bool :=
  match field.type, field.label with
  | .map _ _, label => label.isNone
  | .named _, none => isProto3
  | .named _, some label => !isProto3 || label != .required

/-- Whether a field may stand in a oneof: it has no label and is no map. -/
def FieldSource.isPlain (field : FieldSource) : Bool :=
  field.label.isNone && field.type matches .named _

/-- Whether the keys of a map field, if it is one, may be used as keys. -/
def FieldSource.hasKey (field : FieldSource) : Bool :=
  match field.type with
  | .map key _ => key ∈ keyTypes
  | .named _ => true

/-- The rule that an enum breaks, if it breaks one. -/
def EnumSource.broken? (isProto3 : Bool) (enum : EnumSource) : Option Text :=
  let numbers := enum.values.map (·.number)
  let bareNames := (enum.values.map fun value => (value.bareName enum.name, value.number)).eraseDups
  if enum.values.isEmpty then some "enums must define at least one value"
  else if isProto3 && numbers.head? != some 0 then
    some "the first value of an enum must be zero"
  else if numbers.any fun n => n < -2147483648 || 2147483647 < n then some "enum value out of range"
  else if !enum.sharesNumbers && !allDiffer numbers then some "enum values share a number"
  else if enum.sharesNumbers && allDiffer numbers then some "no enum values share a number"
  else if enum.values.any fun value => enum.reserved.any fun reserved =>
      reserved.hasNumber value.number || value.name ∈ reserved.names then
    some "an enum value is reserved"
  else if isProto3 && !allDiffer (bareNames.map Prod.fst) then
    some "enum values differ only in case"
  else none

/-- The rule that the fields of a message break, if they break one. -/
def Member.brokenByFields? (isProto3 : Bool) (members : List Member) : Option Text :=
  let fields := Member.fieldsOf members
  let reserved := Member.reservedOf members
  if fields.any fun f => !isFieldNumber f.number then some "field number out of range"
  else if !allDiffer (fields.map (·.number)) then some "fields share a number"
  else if fields.any fun f => reserved.any fun r => r.hasNumber f.number || f.name ∈ r.names then
    some "a field is reserved"
  else if isProto3 && !allDiffer (fields.map fun f => jsonName f.name) then
    some "fields share a name in JSON"
  else if fields.any fun f => !f.hasKey then some "invalid key type of a map"
  else none

mutual

/-- The rule that a member of a message breaks, if it breaks one. -/
def Member.broken? (isProto3 : Bool) : Member → Option Text
  | .field f => if f.hasLabel isProto3 then none else some "invalid label of a field"
  | .oneof o =>
    if o.fields.isEmpty then some "oneof must contain at least one field"
    else if o.fields.all (·.isPlain) then none
    else some "a field of a oneof has a label"
  | .enum e => e.broken? isProto3
  | .reserved _ => none
  | .message _ _ members =>
    match Member.brokenByFields? isProto3 members with
    | some rule => some rule
    | none => Member.anyBroken? isProto3 members

/-- The first rule that one of the members breaks. -/
def Member.anyBroken? (isProto3 : Bool) : List Member → Option Text
  | [] => none
  | member :: rest =>
    match member.broken? isProto3 with
    | some rule => some rule
    | none => Member.anyBroken? isProto3 rest

end

/-- The rule that a statement breaks, if it breaks one. -/
def Statement.broken? (isProto3 : Bool) : Statement → Option Text
  | .message name comment members => (Member.message name comment members).broken? isProto3
  | .enum e => e.broken? isProto3
  | _ => none

/-- The rule that a file breaks, if it breaks one. -/
def FileSource.broken? (file : FileSource) : Option Text :=
  if 1 < file.statements.countP (· matches .package _ _) then some "more than one package"
  else if !allDiffer file.dependencies then some "a file is imported twice"
  else file.statements.findSome? (·.broken? file.isProto3)

end Protoclass.Schema
