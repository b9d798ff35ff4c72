import Protoclass.Descriptor.Basic
import Protoclass.Schema.Rules

/-!
# Names that schema files declare

Every declaration has a full name, that of its surroundings before its own; the
values of an enum are named like siblings of the enum.  A name is looked up from
inside its surroundings outward: the scope in which the first part of the name
means something decides what the whole name means.  Only a name of one part that
means something other than a type is looked up further out.
-/

namespace Protoclass.Schema

/-- What a symbol stands for. -/
inductive SymbolKind where
  | package
  | message
  | enum
  | service
  /-- A field, a oneof, an enum value or a method. -/
  | leaf
  deriving DecidableEq, Repr

namespace SymbolKind

/-- Whether other names can start with the name of such a symbol. -/
def isScope : SymbolKind → Bool
  | .leaf => false
  | _ => true

/-- Whether such a symbol can be the type of a field. -/
def isType : SymbolKind → Bool
  | .message | .enum => true
  | _ => false

end SymbolKind

/-- A full name and what it stands for. -/
structure Symbol where
  name : Text
  kind : SymbolKind
  deriving DecidableEq, Repr

/-! ## Declared symbols -/

/-- The name of a package and those of the packages around it, from the inside
out. -/
def packageNames (package : Text) : List Text :=
  let parts := Text.splitOn Text.dot package
  (List.range parts.length).map fun i => Text.join "." (parts.take (parts.length - i))

/-- The symbols of an enum. -/
def EnumSource.symbols (scope : Text) (enum : EnumSource) : List Symbol :=
  ⟨qualify scope enum.name, .enum⟩
    :: enum.values.map fun value => ⟨qualify scope value.name, .leaf⟩

/-- The symbols of a field: its own, and those of the entries of a map. -/
def FieldSource.symbols (scope : Text) (field : FieldSource) : List Symbol :=
  let own : Symbol := ⟨qualify scope field.name, .leaf⟩
  match field.type with
  | .named _ => [own]
  | .map _ _ =>
    let entry := qualify scope (entryName field.name)
    [own, ⟨entry, .message⟩, ⟨qualify entry "key", .leaf⟩, ⟨qualify entry "value", .leaf⟩]

mutual

/-- The symbols of a member of the message `scope`. -/
def Member.symbols (scope : Text) : Member → List Symbol
  | .field f => f.symbols scope
  | .oneof o => ⟨qualify scope o.name, .leaf⟩ :: o.fields.flatMap (·.symbols scope)
  | .enum e => e.symbols scope
  | .reserved _ => []
  | .message name _ members =>
    ⟨qualify scope name, .message⟩ :: Member.symbolsOf (qualify scope name) members

/-- The symbols of the members of the message `scope`. -/
def Member.symbolsOf (scope : Text) : List Member → List Symbol
  | [] => []
  | member :: rest => member.symbols scope ++ Member.symbolsOf scope rest

end

/-- The symbols of a statement in the package `scope`. -/
def Statement.symbols (scope : Text) : Statement → List Symbol
  | .package name _ => (packageNames name).map fun name => ⟨name, .package⟩
  | .dependency _ _ _ => []
  | .message name comment members => (Member.message name comment members).symbols scope
  | .enum e => e.symbols scope
  | .service s =>
    let name := qualify scope s.name
    ⟨name, .service⟩ :: s.methods.map fun method => ⟨qualify name method.name, .leaf⟩

/-- The symbols of a file. -/
def FileSource.symbols (file : FileSource) : List Symbol :=
  file.statements.flatMap (·.symbols file.package)

/-- A name that two of the neighbours in a list have, if they are not both
packages. -/
def sharedName? : List Symbol → Option Text
  | a :: b :: rest =>
    if a.name = b.name && !(a.kind = .package && b.kind = .package) then some a.name
    else sharedName? (b :: rest)
  | _ => none

/-- A name that is declared twice, if there is one. -/
def conflict? (symbols : List Symbol) : Option Text :=
  sharedName? (symbols.mergeSort fun a b => Text.le a.name b.name)

/-! ## Looking names up -/

/-- A scope: the names of surroundings in which to look, in order.  A message is
the only one of its scope; a package shares one with those around it. -/
abbrev Scope := List Text

/-- The scope of a package and those around it. -/
def packageScope (package : Text) : Scope :=
  (if package.isEmpty then [] else packageNames package) ++ [[]]

/-- What a name of the parts `first` and `rest` means inside `surroundings`: `none`
if its first part means nothing there, and `some none` if only the first part
does. -/
def findIn (symbols : List Symbol) (first : Text) (rest : List Text) (surroundings : Text) :
    Option (Option Symbol) :=
  match symbols.find? (·.name = qualify surroundings first) with
  | none => none
  | some found =>
    if rest.isEmpty then some (some found)
    else if !found.kind.isScope then none
    else
      let name := qualify surroundings (Text.join "." (first :: rest))
      some (symbols.find? (·.name = name))

/-- What a name means, looked up from the first scope to the last. -/
def findFrom (symbols : List Symbol) (first : Text) (rest : List Text) :
    List Scope → Option Symbol
  | [] => none
  | scope :: outer =>
    match scope.findSome? (findIn symbols first rest) with
    | none => findFrom symbols first rest outer
    | some found =>
      if rest.isEmpty && found.any (!·.kind.isType) then findFrom symbols first rest outer
      else found

/-- The type that a name means.  After a dot, the name is a full one. -/
def findType (symbols : List Symbol) (scopes : List Scope) (name : Text) : Option Symbol :=
  let found : Option Symbol := match name with
    | Text.dot :: name => symbols.find? (·.name = name)
    | _ =>
      match Text.splitOn Text.dot name with
      | [] => none
      | first :: rest => findFrom symbols first rest scopes
  found.filter (·.kind.isType)

end Protoclass.Schema
