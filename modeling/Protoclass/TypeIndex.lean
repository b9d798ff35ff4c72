import Protoclass.Descriptor.Basic

/-!
# The index of declared types

Every declaration of a set of files has a fully-qualified name: the package,
the enclosing messages and its own name, joined with dots.  `declarations`
lists them, file by file, a message after what is declared inside it.  The
index of a list keeps the last declaration of each name.
-/

namespace Protoclass

mutual

/-- A message's declarations under names that start with `scope`: those of its
nested messages, its enums, and the message itself. -/
def messageDeclarations (scope : Text) : MessageDescriptor → List (Text × Declaration)
  | ⟨name, fields, nested, enums, mapEntry⟩ =>
    messagesDeclarations (scope ++ name ++ ".") nested
      ++ enums.map (fun e => (scope ++ name ++ "." ++ e.name, .enum e))
      ++ [(scope ++ name, .message ⟨name, fields, nested, enums, mapEntry⟩)]

/-- The declarations of several messages, in order. -/
def messagesDeclarations (scope : Text) : List MessageDescriptor → List (Text × Declaration)
  | [] => []
  | m :: rest => messageDeclarations scope m ++ messagesDeclarations scope rest

end

/-- A file's declarations: its messages, its enums and its services. -/
def FileDescriptor.declarations (file : FileDescriptor) : List (Text × Declaration) :=
  let scope : Text := if file.package.isEmpty then [] else file.package ++ "."
  messagesDeclarations scope file.messages
    ++ file.enums.map (fun e => (scope ++ e.name, .enum e))
    ++ file.services.map (fun s => (scope ++ s.name, .service s))

/-- The declarations of several files, in order. -/
def declarations (files : List FileDescriptor) : List (Text × Declaration) :=
  files.flatMap FileDescriptor.declarations

/-- Declarations by fully-qualified name, each name once. -/
structure TypeIndex where
  entries : List (Text × Declaration) := []

namespace TypeIndex

/-- Enter a declaration, in place of an earlier one of the same name. -/
def insert (index : TypeIndex) (name : Text) (declaration : Declaration) : TypeIndex :=
  ⟨(name, declaration) :: index.entries.filter fun entry => entry.1 ≠ name⟩

/-- The declaration entered under `name`. -/
def get? (index : TypeIndex) (name : Text) : Option Declaration :=
  index.entries.lookup name

/-- The index of a list of declarations, later ones replacing earlier ones. -/
def ofDeclarations (listed : List (Text × Declaration)) : TypeIndex :=
  listed.foldl (fun index entry => index.insert entry.1 entry.2) {}

/-- The index of a set of files. -/
def ofFiles (files : List FileDescriptor) : TypeIndex :=
  ofDeclarations (declarations files)

/-- The declaration that a type reference means; a leading dot is ignored. -/
def lookup (index : TypeIndex) (reference : Text) : Option Declaration :=
  index.get? (Text.dropLead reference ".")

/-- The number of names. -/
def size (index : TypeIndex) : Nat :=
  index.entries.length

end TypeIndex

end Protoclass
