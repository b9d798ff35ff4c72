import Protoclass.Schema.Token

/-!
# Schema files as they are written

The declarations of a schema file in the order in which they stand, each with the
comment that leads it.  Types are still names.  Options are left out: none of them
reaches the descriptors, but for the one that lets values of an enum share a
number.
-/

namespace Protoclass.Schema

/-- The word before a field that says how many values it holds. -/
inductive Label where
  | optional
  | required
  | repeated
  deriving DecidableEq, Repr

/-- The type of a field: a name, or a map from one name to another. -/
inductive TypeSource where
  | named (name : Text)
  | map (key value : Text)
  deriving DecidableEq, Repr

/-- A field of a message. -/
structure FieldSource where
  name : Text
  number : Nat
  label : Option Label := none
  type : TypeSource
  comment : Text := []
  deriving DecidableEq, Repr

/-- Fields of which at most one is set. -/
structure OneofSource where
  name : Text
  fields : List FieldSource
  comment : Text := []
  deriving DecidableEq, Repr

/-- A value of an enum. -/
structure ValueSource where
  name : Text
  number : Int
  comment : Text := []
  deriving DecidableEq, Repr

/-- What may not be used: numbers, each range with its two ends, or names. -/
structure Reserved where
  ranges : List (Int × Int) := []
  names : List Text := []
  comment : Text := []
  deriving DecidableEq, Repr

/-- An enum. -/
structure EnumSource where
  name : Text
  values : List ValueSource
  reserved : List Reserved := []
  /-- Values may share a number. -/
  sharesNumbers : Bool := false
  comment : Text := []
  deriving DecidableEq, Repr

/-- What stands in a message. -/
inductive Member where
  | field (field : FieldSource)
  | oneof (oneof : OneofSource)
  | enum (enum : EnumSource)
  | reserved (reserved : Reserved)
  | message (name comment : Text) (members : List Member)
  deriving Repr

/-- A method of a service. -/
structure MethodSource where
  name : Text
  inputType : Text
  outputType : Text
  comment : Text := []
  deriving DecidableEq, Repr

/-- A service. -/
structure ServiceSource where
  name : Text
  methods : List MethodSource
  comment : Text := []
  deriving DecidableEq, Repr

/-- What stands in a file. -/
inductive Statement where
  | package (name comment : Text)
  /-- The file needs another one.  If that is public, so do those that need this. -/
  | dependency (path comment : Text) (isPublic : Bool)
  | message (name comment : Text) (members : List Member)
  | enum (enum : EnumSource)
  | service (service : ServiceSource)
  deriving Repr

/-- A schema file. -/
structure FileSource where
  /-- The third version of the language: fields need no label. -/
  isProto3 : Bool := false
  /-- The comment before the version, if the file says which it is. -/
  comment : Option Text := none
  statements : List Statement := []
  deriving Repr

namespace FileSource

/-- The package of a file, or nothing. -/
def package (file : FileSource) : Text :=
  (file.statements.findSome? fun
    | .package name _ => some name
    | _ => none).getD []

/-- The files that a file needs. -/
def dependencies (file : FileSource) : List Text :=
  file.statements.filterMap fun
    | .dependency path _ _ => some path
    | _ => none

/-- The files that a file needs and hands on to those that need it. -/
def publicDependencies (file : FileSource) : List Text :=
  file.statements.filterMap fun
    | .dependency path _ true => some path
    | _ => none

end FileSource

namespace Member

/-- The fields among members, those of oneofs included. -/
def fieldsOf (members : List Member) : List FieldSource :=
  members.flatMap fun
    | .field f => [f]
    | .oneof o => o.fields
    | _ => []

/-- What members reserve. -/
def reservedOf (members : List Member) : List Reserved :=
  members.filterMap fun
    | .reserved r => some r
    | _ => none

end Member

end Protoclass.Schema
