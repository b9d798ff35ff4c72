import Protoclass.Descriptor.Basic

/-!
# The shape of a field

What a code generator needs to know of a field: what its values are, and how
many of them it holds.  A repeated field is a map only when its element type is
a map-entry message declared directly in the message that has the field.
-/

namespace Protoclass

/-- What a field's values are. -/
inductive Category where
  | primitive
  | message
  | enum
  deriving DecidableEq, Repr

/-- How many values a field holds, and whether it may hold none. -/
inductive Cardinality where
  /-- Exactly one value. -/
  | singular
  /-- Any number of values. -/
  | list
  /-- Values by key, described by a map-entry message. -/
  | map (entry : MessageDescriptor)
  /-- One value or none, in a oneof. -/
  | oneof
  /-- One value or none, as declared. -/
  | optional
  deriving Repr

/-- A field as a code generator sees it. -/
structure FieldShape where
  category : Category
  cardinality : Cardinality
  deriving Repr

/-- What values a type code stands for. -/
def Category.ofTypeCode (code : Int) : Category :=
  if code = FieldDescriptor.messageCode then .message
  else if code = FieldDescriptor.enumCode then .enum
  else .primitive

/-- Whether the field may hold nothing. -/
def Cardinality.isNullable : Cardinality → Bool
  | .oneof | .optional => true
  | _ => false

/-- Whether the field holds a collection. -/
def Cardinality.isRepeated : Cardinality → Bool
  | .list | .map _ => true
  | _ => false

namespace FieldShape

/-- The map-entry message that a field's type refers to, when it is declared
directly in `message`, whose full name is `messageName`. -/
def mapEntry? (field : FieldDescriptor) (message : MessageDescriptor) (messageName : Text) :
    Option MessageDescriptor :=
  if field.typeCode = FieldDescriptor.messageCode then
    message.nested.find? fun nested =>
      Text.dropLead field.typeName "." = messageName ++ "." ++ nested.name && nested.mapEntry
  else none

/-- The cardinality of a field of `message`, whose full name is
`messageName`. -/
def cardinalityOf (field : FieldDescriptor) (message : MessageDescriptor) (messageName : Text) :
    Cardinality :=
  if field.label = FieldDescriptor.repeatedLabel then
    match mapEntry? field message messageName with
    | some entry => .map entry
    | none => .list
  else if field.proto3Optional then .optional
  else if field.oneofIndex.isSome then .oneof
  else .singular

/-- The shape of a field of `message`, whose full name is `messageName`. -/
def of (field : FieldDescriptor) (message : MessageDescriptor) (messageName : Text) :
    FieldShape where
  category := .ofTypeCode field.typeCode
  cardinality := cardinalityOf field message messageName

end FieldShape

end Protoclass
