import Protoclass.Location
import Protoclass.Wire.Record

/-!
# Descriptors from records

The descriptors of a request, field by field, from the records of their
messages.  Integers and codes keep their low 32 bits; a truth value is any
number but zero.
-/

namespace Protoclass

open Wire (Record)

/-- A number of a record as a signed 32-bit integer. -/
def int32OfNumber (n : Nat) : Int := low32 n

/-- A field's last text, or nothing. -/
def textOrEmpty (number : Nat) (records : List Record) : Text :=
  (Record.text? number records).getD []

/-- A field's last number as a 32-bit integer, or a default. -/
def int32Or (unset : Int) (number : Nat) (records : List Record) : Int :=
  ((Record.number? number records).map int32OfNumber).getD unset

/-- Whether a field's last number is there and not zero. -/
def isFlagged (number : Nat) (records : List Record) : Bool :=
  (Record.number? number records).getD 0 != 0

/-- A value of an enum. -/
def EnumValue.ofRecords (records : List Record) : EnumValue where
  name := textOrEmpty 1 records
  number := int32Or 0 2 records

/-- An enum. -/
def EnumDescriptor.ofRecords (records : List Record) : EnumDescriptor where
  name := textOrEmpty 1 records
  values := (Record.messages 2 records).map EnumValue.ofRecords

/-- A method of a service. -/
def MethodDescriptor.ofRecords (records : List Record) : MethodDescriptor where
  name := textOrEmpty 1 records
  inputType := textOrEmpty 2 records
  outputType := textOrEmpty 3 records

/-- A service. -/
def ServiceDescriptor.ofRecords (records : List Record) : ServiceDescriptor where
  name := textOrEmpty 1 records
  methods := (Record.messages 2 records).map MethodDescriptor.ofRecords

/-- A field of a message. -/
def FieldDescriptor.ofRecords (records : List Record) : FieldDescriptor where
  name := textOrEmpty 1 records
  number := int32Or 0 3 records
  label := int32Or 1 4 records
  typeCode := int32Or 1 5 records
  typeName := textOrEmpty 6 records
  oneofIndex := (Record.number? 9 records).map int32OfNumber
  proto3Optional := isFlagged 17 records

mutual

/-- The message of a record that holds one. -/
def MessageDescriptor.ofRecord : Record → Option MessageDescriptor
  | .message _ records => some {
      name := textOrEmpty 1 records
      fields := (Record.messages 2 records).map FieldDescriptor.ofRecords
      nested := MessageDescriptor.ofRecordsAt 3 records
      enums := (Record.messages 4 records).map EnumDescriptor.ofRecords
      mapEntry := isFlagged 7 (Record.merged 7 records) }
  | .varint _ _ | .packed _ _ | .text _ _ | .skipped _ => none

/-- The messages that the records of a given number hold, in order. -/
def MessageDescriptor.ofRecordsAt (number : Nat) : List Record → List MessageDescriptor
  | [] => []
  | .message n inner :: rest =>
    if n = number then
      (MessageDescriptor.ofRecord (.message n inner)).toList
        ++ MessageDescriptor.ofRecordsAt number rest
    else MessageDescriptor.ofRecordsAt number rest
  | _ :: rest => MessageDescriptor.ofRecordsAt number rest

end

/-- A source location. -/
def SourceLocation.ofRecords (records : List Record) : SourceLocation where
  path := (Record.numbers 1 records).map int32OfNumber
  comment := textOrEmpty 3 records

/-- A file. -/
def FileDescriptor.ofRecords (records : List Record) : FileDescriptor where
  name := textOrEmpty 1 records
  package := textOrEmpty 2 records
  dependencies := Record.texts 3 records
  messages := MessageDescriptor.ofRecordsAt 4 records
  enums := (Record.messages 5 records).map EnumDescriptor.ofRecords
  services := (Record.messages 6 records).map ServiceDescriptor.ofRecords
  locations := (Record.messages 1 (Record.merged 9 records)).map SourceLocation.ofRecords

end Protoclass
