import Protoclass.Fault
import Protoclass.FieldShape
import Protoclass.TypeIndex

/-!
# Type hints and defaults

The type hint of a field and the expression it defaults to.  Type references
are made relative to the package they stand in; references under the reserved
root lose the root, because the packages under it are imported by their last
name.
-/

namespace Protoclass.TypeHint

/-- The package root whose packages are imported by their last name. -/
def reservedRoot : Text := "trac"

/-- A type reference as it is written in a module of `package`. -/
def typeName (package reference : Text) : Text :=
  let name := Text.dropLead reference "."
  let relative := if package.isEmpty then name else Text.dropLead name (package ++ ".")
  Text.dropLead relative (reservedRoot ++ ".")

/-- The type hint of a primitive type code. -/
def primitive? : Int → Option Text
  | 1 | 2 => some "float"
  | 3 | 4 | 5 | 6 | 7 | 13 | 15 | 16 | 17 | 18 => some "int"
  | 8 => some "bool"
  | 9 => some "str"
  | 12 => some "bytes"
  | _ => none

/-- The hint of a field's values, whatever its cardinality. -/
def baseType (package : Text) (field : FieldDescriptor) : Except Fault Text :=
  match Category.ofTypeCode field.typeCode with
  | .message | .enum => .ok (typeName package field.typeName)
  | .primitive =>
    match primitive? field.typeCode with
    | some hint => .ok hint
    | none =>
      .error {
        kind := .unknownFieldType
        subject := field.name
        details := "type code = " ++ Text.ofInt field.typeCode }

/-- The hint of a map field with a given entry message. -/
def mapType (package : Text) (field : FieldDescriptor) (entry : MessageDescriptor) :
    Except Fault Text :=
  match entry.fields with
  | key :: value :: _ => do
    let keyHint ← baseType package key
    let valueHint ← baseType package value
    return "_tp.Dict[" ++ keyHint ++ ", " ++ valueHint ++ "]"
  | _ =>
    .error {
      kind := .unknownTypeReference
      subject := field.typeName
      details := "map entry must declare key and value fields" }

/-- The type hint of a field of a given shape. -/
def hint (package : Text) (field : FieldDescriptor) (shape : FieldShape) : Except Fault Text :=
  match shape.cardinality with
  | .map entry => mapType package field entry
  | .list => do return "_tp.List[" ++ (← baseType package field) ++ "]"
  | .oneof | .optional => do return "_tp.Optional[" ++ (← baseType package field) ++ "]"
  | .singular => baseType package field

/-- The default of an enum field: the first value its enum declares. -/
def enumDefault (package : Text) (field : FieldDescriptor) (types : TypeIndex) :
    Except Fault Text :=
  match types.lookup field.typeName with
  | some (.enum e) =>
    match e.values with
    | first :: _ => .ok (typeName package field.typeName ++ "." ++ first.name)
    | [] =>
      .error {
        kind := .unknownTypeReference
        subject := field.typeName
        details := "enum declares no values" }
  | _ =>
    .error {
      kind := .unknownTypeReference
      subject := field.typeName
      details := "field " ++ field.name }

/-- The expression a field of a given shape defaults to: a fresh collection, the
first value of an enum, or `None`. -/
def defaultValue (package : Text) (field : FieldDescriptor) (shape : FieldShape)
    (types : TypeIndex) : Except Fault Text :=
  match shape.cardinality with
  | .map _ => .ok "_dc.field(default_factory=dict)"
  | .list => .ok "_dc.field(default_factory=list)"
  | .oneof | .optional => .ok "None"
  | .singular =>
    match shape.category with
    | .enum => enumDefault package field types
    | .message | .primitive => .ok "None"

end Protoclass.TypeHint
