import Protoclass.Text.Basic

/-!
# Faults of a schema

What makes code generation give up: a kind, the type or field it is about, and
details.  The wording is in `Fault.message` alone.
-/

namespace Protoclass

/-- Why code cannot be generated. -/
inductive Fault.Kind where
  /-- An enum is declared inside a message. -/
  | nestedEnum
  /-- A field has a type code that stands for no type. -/
  | unknownFieldType
  /-- A type that is referred to is not declared, or not fit for the use. -/
  | unknownTypeReference
  /-- The schema of descriptors has no field of some name. -/
  | missingDescriptorField
  deriving DecidableEq, Repr

/-- The text of a kind. -/
def Fault.Kind.message : Fault.Kind → Text
  | .nestedEnum => "nested enums are not supported"
  | .unknownFieldType => "unknown type in protobuf field descriptor"
  | .unknownTypeReference => "unknown type reference"
  | .missingDescriptorField => "field not found in descriptor schema"

/-- A reason to give up, and what it is about. -/
structure Fault where
  kind : Fault.Kind
  subject : Text := []
  details : Text := []
  deriving DecidableEq, Repr

/-- The kind, then the subject after a colon, then the details in
parentheses; what is empty is left out. -/
def Fault.message (fault : Fault) : Text :=
  fault.kind.message
    ++ (if fault.subject.isEmpty then [] else ": " ++ fault.subject : Text)
    ++ (if fault.details.isEmpty then [] else " (" ++ fault.details ++ ")" : Text)

end Protoclass
