import Protoclass.Fault

/-!
# Field numbers of descriptors

A path in a file's source information names the parts of a descriptor by their
field numbers in the schema of descriptors.  `fields` lists that schema for the
four messages whose parts carry comments; the numbers that the generator walks
by are constants, each of which is the one `number` finds.
-/

namespace Protoclass

/-- A message of the schema of descriptors. -/
inductive DescriptorType where
  | file
  | message
  | enum
  | service
  deriving DecidableEq, Repr

namespace DescriptorType

/-- The message's own name. -/
def name : DescriptorType → Text
  | .file => "FileDescriptorProto"
  | .message => "DescriptorProto"
  | .enum => "EnumDescriptorProto"
  | .service => "ServiceDescriptorProto"

/-- The message of a given name. -/
def ofName? (text : Text) : Option DescriptorType :=
  [.file, .message, .enum, .service].find? fun type => type.name = text

/-- The fields of a message, with their numbers. -/
def fields : DescriptorType → List (Text × Int)
  | .file =>
    [("name", 1), ("package", 2), ("dependency", 3), ("message_type", 4), ("enum_type", 5),
     ("service", 6), ("extension", 7), ("options", 8), ("source_code_info", 9),
     ("public_dependency", 10), ("weak_dependency", 11), ("syntax", 12), ("edition", 14)]
  | .message =>
    [("name", 1), ("field", 2), ("nested_type", 3), ("enum_type", 4), ("extension_range", 5),
     ("extension", 6), ("options", 7), ("oneof_decl", 8), ("reserved_range", 9),
     ("reserved_name", 10)]
  | .enum =>
    [("name", 1), ("value", 2), ("options", 3), ("reserved_range", 4), ("reserved_name", 5)]
  | .service =>
    [("name", 1), ("method", 2), ("options", 3)]

/-- The number of a message's field. -/
def number (type : DescriptorType) (field : Text) : Except Fault Int :=
  match type.fields.lookup field with
  | some n => .ok n
  | none => .error { kind := .missingDescriptorField, subject := type.name ++ "." ++ field }

end DescriptorType

namespace FieldNumber

/-- The messages of a file. -/
def fileMessage : Int := 4

/-- The enums of a file. -/
def fileEnum : Int := 5

/-- The services of a file. -/
def fileService : Int := 6

/-- The fields of a message. -/
def messageField : Int := 2

/-- The messages declared in a message. -/
def messageNested : Int := 3

/-- The enums declared in a message. -/
def messageEnum : Int := 4

/-- The values of an enum. -/
def enumValue : Int := 2

/-- The methods of a service. -/
def serviceMethod : Int := 2

open DescriptorType in
/-- The constants are the numbers of the fields they are named for. -/
theorem numbers_eq :
    number .file "message_type" = .ok fileMessage ∧
    number .file "enum_type" = .ok fileEnum ∧
    number .file "service" = .ok fileService ∧
    number .message "field" = .ok messageField ∧
    number .message "nested_type" = .ok messageNested ∧
    number .message "enum_type" = .ok messageEnum ∧
    number .enum "value" = .ok enumValue ∧
    number .service "method" = .ok serviceMethod :=
  ⟨rfl, rfl, rfl, rfl, rfl, rfl, rfl, rfl⟩

end FieldNumber

end Protoclass
