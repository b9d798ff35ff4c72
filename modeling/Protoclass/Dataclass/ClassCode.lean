import Protoclass.Dataclass.Docstring
import Protoclass.Dataclass.TypeHint
import Protoclass.Descriptor.Number
import Protoclass.Document.Writer
import Protoclass.Location
import Protoclass.Log

/-!
# Classes from declarations

An enum becomes an enumeration class, a message a dataclass with a member for
each field, and a service a class with a method stub for each of its methods.
Messages declared inside a message become classes inside its class; enums may
not be declared there, because a member's default is evaluated while the class
body runs.

A declaration is visited with a cursor, so that each class, member, value and
method finds the comment that stands before it.
-/

namespace Protoclass

/-- What all declarations of a file are written with: the file's package, and
the types that it can refer to. -/
structure ClassCode where
  package : Text
  types : TypeIndex

namespace ClassCode

/-- One level of indentation. -/
def unit : Text := "    "

/-- The class statement and docstring of a class at a depth, and a writer for
its body. -/
def openClass (depth : Int) (comment : Text) (head : List Text) : Writer Nat :=
  let opened := head.foldl Writer.line (Writer.start unit depth)
  (opened.newline.raw (Docstring.statement comment (depth + 1))).indent

/-- The line of an enum value, with its comment behind it. -/
def writeValue (depth : Int) (w : Writer Nat) (entry : EnumValue × Text) : Writer Nat :=
  let comment := Docstring.inline entry.2 depth
  let named := w.write (entry.1.name ++ " = " ++ Text.ofInt entry.1.number ++ ",")
  let documented := if comment.isEmpty then named else named.write (" " ++ comment)
  documented.newline.newline

/-- The class of an enum, whose values come with their comments. -/
def enumClass (depth : Int) (comment name : Text) (values : List (EnumValue × Text)) : Text :=
  let w := openClass depth comment ["class " ++ name ++ "(_enum.Enum):"]
  if values.isEmpty then (w.line "pass").newline.text
  else (values.foldl (writeValue (depth + 1)) w).text

/-- Emit an enum.  `scope` names the messages around it, and has to be
empty. -/
def emitEnum (cursor : Cursor) (scope fullName : Text) (e : EnumDescriptor) :
    Logged Fault Text :=
  if scope.isEmpty then do
    Logged.debug "generating enum" [("enum", .text fullName)]
    let values := Cursor.under cursor.scope FieldNumber.enumValue (cursor.depth + 1)
    return enumClass cursor.depth cursor.comment e.name (values.documented e.values)
  else do
    let name := scope ++ "." ++ e.name
    Logged.error "nested enums are not supported" [("enum", .text name)]
    Logged.fail { kind := .nestedEnum, subject := name }

/-- The member of a field: a name, a type hint and a default, and the comment
below. -/
def member (code : ClassCode) (depth : Int) (message : MessageDescriptor) (fullName : Text)
    (entry : FieldDescriptor × Text) : Except Fault Text := do
  let field := entry.1
  let shape := FieldShape.of field message fullName
  let hint ← TypeHint.hint code.package field shape
  let value ← TypeHint.defaultValue code.package field shape code.types
  let w := (Writer.start unit depth).line (field.name ++ ": " ++ hint ++ " = " ++ value)
  return (w.newline.raw (Docstring.statement entry.2 depth)).text

/-- The members of a message, whose fields come with their comments, or `pass`
when it has none. -/
def members (code : ClassCode) (depth : Int) (message : MessageDescriptor) (fullName : Text)
    (fields : List (FieldDescriptor × Text)) : Except Fault Text :=
  if fields.isEmpty then .ok (Docstring.indent depth ++ "pass\n\n")
  else do
    let texts ← fields.mapM (member code depth message fullName)
    return texts.flatten

/-- The name of a message after those of the messages around it. -/
def innerScope (scope name : Text) : Text :=
  if scope.isEmpty then name else scope ++ "." ++ name

mutual

/-- Emit a message.  `scope` names the messages around it. -/
def emitMessage (code : ClassCode) (cursor : Cursor) (scope fullName : Text) :
    MessageDescriptor → Logged Fault Text
  | ⟨name, fields, nested, enums, mapEntry⟩ => do
    Logged.debug "generating message"
      [("message", .text fullName), ("depth", .int cursor.depth)]
    let message : MessageDescriptor := ⟨name, fields, nested, enums, mapEntry⟩
    let table := cursor.scope
    let depth := cursor.depth + 1
    let inner := innerScope scope name
    let head :=
      (openClass cursor.depth cursor.comment ["@_dc.dataclass", "class " ++ name ++ ":"]).text
    let enumTexts ← enums.zipIdx.mapM fun (e, i) =>
      emitEnum ((Cursor.under table FieldNumber.messageEnum depth).step i) inner
        (fullName ++ "." ++ e.name) e
    let nestedTexts ← emitNested code (Cursor.under table FieldNumber.messageNested depth)
      inner fullName 0 nested
    let documented := (Cursor.under table FieldNumber.messageField depth).documented fields
    let body ← Logged.lift (members code depth message fullName documented)
    return head ++ enumTexts.flatten ++ nestedTexts ++ body

/-- Emit the messages declared in a message, from the one of index `i` on.
Map entries are left out: they only describe the key and value of a field. -/
def emitNested (code : ClassCode) (cursor : Cursor) (scope fullName : Text) (i : Nat) :
    List MessageDescriptor → Logged Fault Text
  | [] => pure []
  | m :: rest => do
    let text ←
      if m.mapEntry then pure []
      else emitMessage code (cursor.step i) scope (fullName ++ "." ++ m.name) m
    let more ← emitNested code cursor scope fullName (i + 1) rest
    return text ++ more

end

/-- The stub of a method: its signature, its comment and `pass`. -/
def writeMethod (code : ClassCode) (depth : Int) (w : Writer Nat)
    (entry : MethodDescriptor × Text) : Writer Nat :=
  let signature : Text :=
    "def " ++ entry.1.name ++ "(self, request: "
      ++ TypeHint.typeName code.package entry.1.inputType ++ ") -> "
      ++ TypeHint.typeName code.package entry.1.outputType ++ ":"
  let opened := (w.line signature).newline.raw (Docstring.statement entry.2 (depth + 1))
  ((opened.indent.line "pass").newline).dedent

/-- The class of a service, whose methods come with their comments. -/
def serviceClass (code : ClassCode) (depth : Int) (comment name : Text)
    (methods : List (MethodDescriptor × Text)) : Text :=
  let w := openClass depth comment ["class " ++ name ++ ":"]
  let opened := if methods.isEmpty then (w.line "pass").newline else w
  (methods.foldl (writeMethod code (depth + 1)) opened).text

/-- Emit a service. -/
def emitService (code : ClassCode) (cursor : Cursor) (fullName : Text)
    (s : ServiceDescriptor) : Logged Fault Text := do
  Logged.debug "generating service" [("service", .text fullName)]
  let methods := Cursor.under cursor.scope FieldNumber.serviceMethod (cursor.depth + 1)
  return serviceClass code cursor.depth cursor.comment s.name (methods.documented s.methods)

/-- Emit a declaration. -/
def emit (code : ClassCode) (cursor : Cursor) (scope fullName : Text) :
    Declaration → Logged Fault Text
  | .enum e => emitEnum cursor scope fullName e
  | .message m => emitMessage code cursor scope fullName m
  | .service s => emitService code cursor fullName s

end ClassCode

/-- The code of a file: its enums, its messages and its services, each kind
followed by an empty line. -/
def FileDescriptor.emit (types : TypeIndex) (file : FileDescriptor) : Logged Fault Text := do
  Logged.debug "generating file" [("file", .text file.name)]
  let code : ClassCode := { package := file.package, types }
  let enums ← file.enums.zipIdx.mapM fun (e, i) =>
    code.emit ((Cursor.under file.locations FieldNumber.fileEnum 0).step i) []
      (qualify file.package e.name) (.enum e)
  let messages ← file.messages.zipIdx.mapM fun (m, i) =>
    code.emit ((Cursor.under file.locations FieldNumber.fileMessage 0).step i) []
      (qualify file.package m.name) (.message m)
  let services ← file.services.zipIdx.mapM fun (s, i) =>
    code.emit ((Cursor.under file.locations FieldNumber.fileService 0).step i) []
      (qualify file.package s.name) (.service s)
  return Text.join "\n" enums ++ "\n" ++ Text.join "\n" messages ++ "\n"
    ++ Text.join "\n" services ++ "\n"

end Protoclass
