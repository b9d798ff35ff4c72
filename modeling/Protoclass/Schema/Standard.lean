import Protoclass.Schema.Source

/-!
# Schema files that are always there

The files of the package `google.protobuf` that every compiler of schemas knows.
They are given as they would be read, without comments.
-/

namespace Protoclass.Schema.Standard

/-- A field with one value. -/
def single (type name : Text) (number : Nat) : FieldSource :=
  { name, number, type := .named type }

/-- A field with any number of values. -/
def many (type name : Text) (number : Nat) : FieldSource :=
  { single type name number with label := some .repeated }

/-- A message of fields. -/
def record (name : Text) (fields : List FieldSource) : Statement :=
  .message name [] (fields.map .field)

/-- An enum whose values are numbered from zero. -/
def enumeration (name : Text) (values : List Text) : EnumSource :=
  { name, values := values.mapIdx fun i value => { name := value, number := i } }

/-- A file of the package that needs others of it. -/
def file (dependencies : List Text) (statements : List Statement) : FileSource :=
  { isProto3 := true
    statements := .package "google.protobuf" []
      :: dependencies.map (fun path => .dependency path [] false) ++ statements }

/-- A point in time or a stretch of it. -/
def moment (name : Text) : FileSource :=
  file [] [record name [single "int64" "seconds" 1, single "int32" "nanos" 2]]

/-- The file of values without a fixed shape. -/
def struct : FileSource :=
  file [] [
    record "Struct" [{ name := "fields", number := 1, type := .map "string" "Value" }],
    .message "Value" [] [.oneof {
      name := "kind"
      fields := [
        single "NullValue" "null_value" 1, single "double" "number_value" 2,
        single "string" "string_value" 3, single "bool" "bool_value" 4,
        single "Struct" "struct_value" 5, single "ListValue" "list_value" 6] }],
    .enum (enumeration "NullValue" ["NULL_VALUE"]),
    record "ListValue" [many "Value" "values" 1]]

/-- The file of types as data. -/
def type : FileSource :=
  file ["google/protobuf/any.proto", "google/protobuf/source_context.proto"] [
    record "Type" [
      single "string" "name" 1, many "Field" "fields" 2, many "string" "oneofs" 3,
      many "Option" "options" 4, single "SourceContext" "source_context" 5,
      single "Syntax" "syntax" 6, single "string" "edition" 7],
    .message "Field" [] ([
      .enum (enumeration "Kind" [
        "TYPE_UNKNOWN", "TYPE_DOUBLE", "TYPE_FLOAT", "TYPE_INT64", "TYPE_UINT64", "TYPE_INT32",
        "TYPE_FIXED64", "TYPE_FIXED32", "TYPE_BOOL", "TYPE_STRING", "TYPE_GROUP", "TYPE_MESSAGE",
        "TYPE_BYTES", "TYPE_UINT32", "TYPE_ENUM", "TYPE_SFIXED32", "TYPE_SFIXED64", "TYPE_SINT32",
        "TYPE_SINT64"]),
      .enum (enumeration "Cardinality" [
        "CARDINALITY_UNKNOWN", "CARDINALITY_OPTIONAL", "CARDINALITY_REQUIRED",
        "CARDINALITY_REPEATED"])]
      ++ [
        single "Kind" "kind" 1, single "Cardinality" "cardinality" 2, single "int32" "number" 3,
        single "string" "name" 4, single "string" "type_url" 6, single "int32" "oneof_index" 7,
        single "bool" "packed" 8, many "Option" "options" 9, single "string" "json_name" 10,
        single "string" "default_value" 11].map .field),
    record "Enum" [
      single "string" "name" 1, many "EnumValue" "enumvalue" 2, many "Option" "options" 3,
      single "SourceContext" "source_context" 4, single "Syntax" "syntax" 5,
      single "string" "edition" 6],
    record "EnumValue" [
      single "string" "name" 1, single "int32" "number" 2, many "Option" "options" 3],
    record "Option" [single "string" "name" 1, single "Any" "value" 2],
    .enum (enumeration "Syntax" ["SYNTAX_PROTO2", "SYNTAX_PROTO3", "SYNTAX_EDITIONS"])]

/-- The file of interfaces as data. -/
def api : FileSource :=
  file ["google/protobuf/source_context.proto", "google/protobuf/type.proto"] [
    record "Api" [
      single "string" "name" 1, many "Method" "methods" 2, many "Option" "options" 3,
      single "string" "version" 4, single "SourceContext" "source_context" 5,
      many "Mixin" "mixins" 6, single "Syntax" "syntax" 7],
    record "Method" [
      single "string" "name" 1, single "string" "request_type_url" 2,
      single "bool" "request_streaming" 3, single "string" "response_type_url" 4,
      single "bool" "response_streaming" 5, many "Option" "options" 6,
      single "Syntax" "syntax" 7],
    record "Mixin" [single "string" "name" 1, single "string" "root" 2]]

/-- The file of messages that hold one value of a plain type. -/
def wrappers : FileSource :=
  let wrapper (name type : Text) := record name [single type "value" 1]
  file [] [
    wrapper "DoubleValue" "double", wrapper "FloatValue" "float", wrapper "Int64Value" "int64",
    wrapper "UInt64Value" "uint64", wrapper "Int32Value" "int32", wrapper "UInt32Value" "uint32",
    wrapper "BoolValue" "bool", wrapper "StringValue" "string", wrapper "BytesValue" "bytes"]

/-- The files by path. -/
def files : List (Text × FileSource) := [
  ("google/protobuf/any.proto",
    file [] [record "Any" [single "string" "type_url" 1, single "bytes" "value" 2]]),
  ("google/protobuf/api.proto", api),
  ("google/protobuf/duration.proto", moment "Duration"),
  ("google/protobuf/empty.proto", file [] [record "Empty" []]),
  ("google/protobuf/field_mask.proto",
    file [] [record "FieldMask" [many "string" "paths" 1]]),
  ("google/protobuf/source_context.proto",
    file [] [record "SourceContext" [single "string" "file_name" 1]]),
  ("google/protobuf/struct.proto", struct),
  ("google/protobuf/timestamp.proto", moment "Timestamp"),
  ("google/protobuf/type.proto", type),
  ("google/protobuf/wrappers.proto", wrappers)]

end Protoclass.Schema.Standard
