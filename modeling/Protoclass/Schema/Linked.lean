import Protoclass.Schema.Symbols

/-!
# Schema files with their types looked up

A file becomes a descriptor once every name of a type in it is replaced by the
full name of what it means.  Locations follow the file: a declaration comes before
what is inside it, and after what stands before it.
-/

namespace Protoclass.Schema

/-- The file that is linked, and the symbols that can be seen from it. -/
structure View where
  path : Text
  isProto3 : Bool
  symbols : List Symbol

/-! ## Types -/

/-- The codes of the types that need no declaration. -/
def scalarCodes : List (Text × Int) :=
  [("double", 1), ("float", 2), ("int64", 3), ("uint64", 4), ("int32", 5), ("fixed64", 6),
    ("fixed32", 7), ("bool", 8), ("string", 9), ("bytes", 12), ("uint32", 13), ("sfixed32", 15),
    ("sfixed64", 16), ("sint32", 17), ("sint64", 18)]

namespace View

/-- The code and the full name of a type. -/
def typeOf (view : View) (scopes : List Scope) (name : Text) : Except Error (Int × Text) :=
  match scalarCodes.lookup name with
  | some code => .ok (code, [])
  | none =>
    match findType view.symbols scopes name with
    | some ⟨name, .message⟩ => .ok (FieldDescriptor.messageCode, Text.dot :: name)
    | some ⟨name, .enum⟩ => .ok (FieldDescriptor.enumCode, Text.dot :: name)
    | _ => .error (.unresolved view.path name)

/-- The full name of a message. -/
def messageOf (view : View) (scopes : List Scope) (name : Text) : Except Error Text :=
  match findType view.symbols scopes name with
  | some ⟨name, .message⟩ => .ok (Text.dot :: name)
  | _ => .error (.unresolved view.path name)

/-! ## Messages -/

/-- The code of a label. -/
def labelCode : Option Label → Int
  | none | some .optional => 1
  | some .required => 2
  | some .repeated => FieldDescriptor.repeatedLabel

/-- Whether a field is in a oneof of its own, since its presence is told. -/
def isTracked (view : View) (field : FieldSource) : Bool :=
  view.isProto3 && field.label = some .optional

/-- The descriptor of a field of the message `full`. -/
def field (view : View) (full : Text) (scopes : List Scope) (oneofIndex : Option Nat)
    (source : FieldSource) : Except Error FieldDescriptor := do
  let oneofIndex := oneofIndex.map Int.ofNat
  match source.type with
  | .map _ _ =>
    return {
      name := source.name, number := source.number, label := FieldDescriptor.repeatedLabel
      typeCode := FieldDescriptor.messageCode
      typeName := Text.dot :: qualify full (entryName source.name)
      oneofIndex }
  | .named name =>
    let (typeCode, typeName) ← view.typeOf scopes name
    return {
      name := source.name, number := source.number, label := labelCode source.label
      typeCode, typeName, oneofIndex, proto3Optional := view.isTracked source }

/-- The descriptors of the fields among members.  `oneofs` and `tracked` count the
oneofs so far, and those of single fields, which come after all the others. -/
def fields (view : View) (full : Text) (scopes : List Scope) :
    (oneofs tracked : Nat) → List Member → Except Error (List FieldDescriptor)
  | _, _, [] => .ok []
  | oneofs, tracked, .field source :: rest => do
    let isTracked := view.isTracked source
    let field ← view.field full scopes (if isTracked then some tracked else none) source
    let next := if isTracked then tracked + 1 else tracked
    return field :: (← fields view full scopes oneofs next rest)
  | oneofs, tracked, .oneof oneof :: rest => do
    let inside ← oneof.fields.mapM (view.field full scopes (some oneofs))
    return inside ++ (← fields view full scopes (oneofs + 1) tracked rest)
  | oneofs, tracked, _ :: rest => fields view full scopes oneofs tracked rest

/-- The descriptor of an enum. -/
def enum (source : EnumSource) : EnumDescriptor :=
  { name := source.name, values := source.values.map fun v => ⟨v.name, v.number⟩ }

/-- The enums among members. -/
def enums (members : List Member) : List EnumDescriptor :=
  members.filterMap fun
    | .enum source => some (enum source)
    | _ => none

/-- The message that describes the entries of a map field, if the field is one. -/
def entry? (view : View) (scopes : List Scope) (source : FieldSource) :
    Except Error (Option MessageDescriptor) := do
  match source.type with
  | .named _ => return none
  | .map key value =>
    let (keyCode, keyName) ← view.typeOf scopes key
    let (valueCode, valueName) ← view.typeOf scopes value
    return some {
      name := entryName source.name, mapEntry := true
      fields := [
        { name := "key", number := 1, typeCode := keyCode, typeName := keyName },
        { name := "value", number := 2, typeCode := valueCode, typeName := valueName }] }

mutual

/-- The messages that a member of the message `full` declares. -/
def nested (view : View) (full : Text) (scopes : List Scope) :
    Member → Except Error (List MessageDescriptor)
  | .field source => do return (← view.entry? scopes source).toList
  | .message name _ members => do
    let inner := qualify full name
    let within : List Scope := [inner] :: scopes
    let oneofs := members.countP fun
      | .oneof _ => true
      | _ => false
    return [{
      name
      fields := ← view.fields inner within 0 oneofs members
      nested := ← view.nestedOf inner within members
      enums := enums members }]
  | _ => .ok []

/-- The messages that the members of the message `full` declare. -/
def nestedOf (view : View) (full : Text) (scopes : List Scope) :
    List Member → Except Error (List MessageDescriptor)
  | [] => .ok []
  | member :: rest => do
    return (← view.nested full scopes member) ++ (← view.nestedOf full scopes rest)

end

/-- The descriptor of a service. -/
def service (view : View) (scopes : List Scope) (source : ServiceSource) :
    Except Error ServiceDescriptor := do
  let methods ← source.methods.mapM fun method => do
    return {
      name := method.name
      inputType := ← view.messageOf scopes method.inputType
      outputType := ← view.messageOf scopes method.outputType : MethodDescriptor }
  return { name := source.name, methods }

end View

/-! ## Locations -/

/-- How many declarations of each kind came before. -/
structure Counts where
  fields : Nat := 0
  messages : Nat := 0
  enums : Nat := 0
  oneofs : Nat := 0
  services : Nat := 0
  dependencies : Nat := 0

/-- The place below `path` of the declaration `index` of a kind. -/
def below (path : List Int) (kind : Int) (index : Nat) : List Int := path ++ [kind, index]

/-- The locations of declarations of one kind. -/
def listed (path : List Int) (kind : Int) (start : Nat) (comments : List Text) :
    List SourceLocation :=
  comments.mapIdx fun i comment => { path := below path kind (start + i), comment }

/-- The locations of an enum. -/
def EnumSource.locations (path : List Int) (enum : EnumSource) : List SourceLocation :=
  ({ path, comment := enum.comment } : SourceLocation)
    :: listed path 2 0 (enum.values.map (·.comment))

/-- The location of what a message reserves. -/
def Reserved.location (path : List Int) (reserved : Reserved) : SourceLocation :=
  { path := path ++ [if reserved.names.isEmpty then 9 else 10], comment := reserved.comment }

mutual

/-- The locations of a member of the message at `path`, after as many others. -/
def Member.locations (path : List Int) (before : Counts) : Member → List SourceLocation
  | .field f => [{ path := below path 2 before.fields, comment := f.comment }]
  | .oneof o =>
    ({ path := below path 8 before.oneofs, comment := o.comment } : SourceLocation)
      :: listed path 2 before.fields (o.fields.map (·.comment))
  | .enum e => e.locations (below path 4 before.enums)
  | .reserved r => [r.location path]
  | .message _ comment members =>
    let place := below path 3 before.messages
    { path := place, comment } :: Member.locationsOf place {} members

/-- The locations of the members of the message at `path`, after as many others. -/
def Member.locationsOf (path : List Int) (before : Counts) : List Member → List SourceLocation
  | [] => []
  | member :: rest =>
    let after := match member with
      | .field f => { before with
        fields := before.fields + 1
        messages := before.messages + if f.type matches .map _ _ then 1 else 0 }
      | .oneof o => { before with
        fields := before.fields + o.fields.length
        oneofs := before.oneofs + 1 }
      | .enum _ => { before with enums := before.enums + 1 }
      | .reserved _ => before
      | .message _ _ _ => { before with messages := before.messages + 1 }
    member.locations path before ++ Member.locationsOf path after rest

end

/-- The locations of statements, after as many others. -/
def Statement.locationsOf (before : Counts) : List Statement → List SourceLocation
  | [] => []
  | .package _ comment :: rest => { path := [2], comment } :: Statement.locationsOf before rest
  | .dependency _ comment _ :: rest =>
    { path := below [] 3 before.dependencies, comment }
      :: Statement.locationsOf { before with dependencies := before.dependencies + 1 } rest
  | .message _ comment members :: rest =>
    let place := below [] 4 before.messages
    { path := place, comment } :: Member.locationsOf place {} members
      ++ Statement.locationsOf { before with messages := before.messages + 1 } rest
  | .enum e :: rest =>
    e.locations (below [] 5 before.enums)
      ++ Statement.locationsOf { before with enums := before.enums + 1 } rest
  | .service s :: rest =>
    let place := below [] 6 before.services
    { path := place, comment := s.comment } :: listed place 2 0 (s.methods.map (·.comment))
      ++ Statement.locationsOf { before with services := before.services + 1 } rest

/-- The locations of a file. -/
def FileSource.locations (file : FileSource) : List SourceLocation :=
  (file.comment.toList.map fun comment => { path := [12], comment })
    ++ Statement.locationsOf {} file.statements

/-! ## Files -/

/-- The descriptor of a file, of which `symbols` can be seen. -/
def FileSource.link (path : Text) (symbols : List Symbol) (file : FileSource) :
    Except Error FileDescriptor := do
  let view : View := { path, isProto3 := file.isProto3, symbols }
  let scopes := [packageScope file.package]
  let messages ← view.nestedOf file.package scopes (file.statements.filterMap fun
    | .message name comment members => some (.message name comment members)
    | _ => none)
  let services ← (file.statements.filterMap fun
    | .service s => some s
    | _ => none).mapM (view.service scopes)
  return {
    name := path, package := file.package, dependencies := file.dependencies
    messages, services
    enums := file.statements.filterMap fun
      | .enum e => some (View.enum e)
      | _ => none
    locations := file.locations }

end Protoclass.Schema
