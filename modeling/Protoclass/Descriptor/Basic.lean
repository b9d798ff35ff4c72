import Protoclass.Text.Basic

/-!
# Descriptors

A compiled schema: files that declare enums, messages and services.  Only what
the generator reads is kept.  A field that a descriptor leaves out has its
default here, so that nothing downstream asks whether it was set; the one
exception is a field's place in a oneof, where being set is what counts.
-/

namespace Protoclass

/-- A value of an enum. -/
structure EnumValue where
  name : Text := []
  number : Int := 0
  deriving DecidableEq, Repr, Inhabited

/-- An enum: named numbers, the first of which is its default. -/
structure EnumDescriptor where
  name : Text := []
  values : List EnumValue := []
  deriving DecidableEq, Repr, Inhabited

/-- A method of a service. -/
structure MethodDescriptor where
  name : Text := []
  inputType : Text := []
  outputType : Text := []
  deriving DecidableEq, Repr, Inhabited

/-- A service: named methods from one message type to another. -/
structure ServiceDescriptor where
  name : Text := []
  methods : List MethodDescriptor := []
  deriving DecidableEq, Repr, Inhabited

/-- A field of a message.  Label and type are codes, of which any may occur. -/
structure FieldDescriptor where
  name : Text := []
  number : Int := 0
  label : Int := 1
  typeCode : Int := 1
  typeName : Text := []
  oneofIndex : Option Int := none
  proto3Optional : Bool := false
  deriving DecidableEq, Repr, Inhabited

namespace FieldDescriptor

/-- The label of a field that holds any number of values. -/
def repeatedLabel : Int := 3

/-- The type code of a field that holds a message. -/
def messageCode : Int := 11

/-- The type code of a field that holds an enum value. -/
def enumCode : Int := 14

end FieldDescriptor

/-- A message: fields, and the messages and enums declared inside it. -/
structure MessageDescriptor where
  name : Text := []
  fields : List FieldDescriptor := []
  nested : List MessageDescriptor := []
  enums : List EnumDescriptor := []
  /-- Whether the message only describes the key and value of a map field. -/
  mapEntry : Bool := false
  deriving Repr, Inhabited

/-- A place in a file and the comment that stands before it.  The path leads
from the file to a declaration: field numbers and indices in turn. -/
structure SourceLocation where
  path : List Int := []
  comment : Text := []
  deriving DecidableEq, Repr, Inhabited

/-- One file of a compiled schema. -/
structure FileDescriptor where
  name : Text := []
  package : Text := []
  dependencies : List Text := []
  messages : List MessageDescriptor := []
  enums : List EnumDescriptor := []
  services : List ServiceDescriptor := []
  locations : List SourceLocation := []
  deriving Repr, Inhabited

/-! ## Declarations -/

/-- What a name of a schema can stand for. -/
inductive Declaration where
  | enum (e : EnumDescriptor)
  | message (m : MessageDescriptor)
  | service (s : ServiceDescriptor)
  deriving Repr, Inhabited

namespace Declaration

/-- The simple name of a declaration. -/
def name : Declaration → Text
  | .enum e => e.name
  | .message m => m.name
  | .service s => s.name

/-- The number of values, fields or methods. -/
def size : Declaration → Nat
  | .enum e => e.values.length
  | .message m => m.fields.length
  | .service s => s.methods.length

end Declaration

/-- The kind of a declaration. -/
inductive DeclarationKind where
  | enum
  | message
  | service
  deriving DecidableEq, Repr

namespace DeclarationKind

/-- The kind with a given code. -/
def ofCode? : Int → Option DeclarationKind
  | 1 => some .enum
  | 2 => some .message
  | 3 => some .service
  | _ => none

/-- The word for a kind. -/
def word : DeclarationKind → Text
  | .enum => "enum"
  | .message => "message"
  | .service => "service"

/-- The word for a code: that of its kind, if it has one. -/
def wordOfCode (code : Int) : Text :=
  match ofCode? code with
  | some kind => kind.word
  | none => "unknown"

end DeclarationKind

/-- The kind of a declaration. -/
def Declaration.kind : Declaration → DeclarationKind
  | .enum _ => .enum
  | .message _ => .message
  | .service _ => .service

/-- A code that stands for no kind of declaration. -/
structure UnsupportedKind where
  code : Int
  deriving DecidableEq, Repr

/-- The text of the error. -/
def UnsupportedKind.message (error : UnsupportedKind) : Text :=
  "unsupported declaration kind: " ++ DeclarationKind.wordOfCode error.code

/-- Of three descriptors, the one that a kind code selects. -/
def Declaration.select (code : Int) (e : EnumDescriptor) (m : MessageDescriptor)
    (s : ServiceDescriptor) : Except UnsupportedKind Declaration :=
  match DeclarationKind.ofCode? code with
  | some .enum => .ok (.enum e)
  | some .message => .ok (.message m)
  | some .service => .ok (.service s)
  | none => .error ⟨code⟩

/-! ## Qualified names -/

/-- A name inside a package: the package, a dot and the name, or the name
alone when the package has no name. -/
def qualify (package name : Text) : Text :=
  if package.isEmpty then name else package ++ "." ++ name

end Protoclass
