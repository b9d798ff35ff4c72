import Protoclass.Dataclass.ClassCode

/-!
# Emission by absolute paths

A second emitter, which carries the absolute path of each node and asks for the
comment at exactly that path.  The path of a node is that of its parent, the
number of the field that lists it there, and its index in the list; map entries
are counted, although they are not emitted.

`nodePaths` lists the paths that the emitter can ask for, and `Alike` compares
two emissions of a file under different comments: whether they fail, and how,
does not depend on comments at all.
-/

namespace Protoclass.PathEmitter

/-- The comment at each absolute path. -/
abbrev Comments := List Int → Text

/-- The children that `field` lists in the node at `path`, each with its
comment. -/
def documentedAt {α : Type} (comments : Comments) (path : List Int) (field : Int)
    (children : List α) : List (α × Text) :=
  children.zipIdx.map fun (child, i) => (child, comments (path ++ [field, (i : Int)]))

/-- Emit the enum at `path`, whose values are field 2. -/
def enumAt (comments : Comments) (path : List Int) (depth : Int) (scope : Text)
    (e : EnumDescriptor) : Except Fault Text :=
  if scope.isEmpty then
    .ok (ClassCode.enumClass depth (comments path) e.name (documentedAt comments path 2 e.values))
  else .error { kind := .nestedEnum, subject := scope ++ "." ++ e.name }

mutual

/-- Emit the message at `path`.  Its fields are field 2, the messages in it
field 3 and the enums in it field 4. -/
def messageAt (code : ClassCode) (comments : Comments) (path : List Int) (depth : Int)
    (scope fullName : Text) : MessageDescriptor → Except Fault Text
  | ⟨name, fields, nested, enums, mapEntry⟩ => do
    let inner := ClassCode.innerScope scope name
    let head := (ClassCode.openClass depth (comments path)
      ["@_dc.dataclass", "class " ++ name ++ ":"]).text
    let enumTexts ← enums.zipIdx.mapM fun (e, i) =>
      enumAt comments (path ++ [4, (i : Int)]) (depth + 1) inner e
    let nestedTexts ← nestedAt code comments path (depth + 1) inner fullName 0 nested
    let body ← ClassCode.members code (depth + 1) ⟨name, fields, nested, enums, mapEntry⟩
      fullName (documentedAt comments path 2 fields)
    return head ++ enumTexts.flatten ++ nestedTexts ++ body

/-- Emit the messages in the message at `path`, from the one of index `i` on,
without map entries. -/
def nestedAt (code : ClassCode) (comments : Comments) (path : List Int) (depth : Int)
    (scope fullName : Text) (i : Nat) : List MessageDescriptor → Except Fault Text
  | [] => .ok []
  | m :: rest => do
    let here := path ++ [3, (i : Int)]
    let text ←
      if m.mapEntry then .ok []
      else messageAt code comments here depth scope (fullName ++ "." ++ m.name) m
    let more ← nestedAt code comments path depth scope fullName (i + 1) rest
    return text ++ more

end

/-- Emit the service at `path`, whose methods are field 2. -/
def serviceAt (code : ClassCode) (comments : Comments) (path : List Int) (depth : Int)
    (s : ServiceDescriptor) : Text :=
  ClassCode.serviceClass code depth (comments path) s.name (documentedAt comments path 2 s.methods)

/-- Emit a file.  Its messages are field 4, its enums field 5 and its services
field 6. -/
def fileAt (types : TypeIndex) (comments : Comments) (file : FileDescriptor) :
    Except Fault Text := do
  let code : ClassCode := { package := file.package, types }
  let enums ← file.enums.zipIdx.mapM fun (e, i) => enumAt comments [5, (i : Int)] 0 [] e
  let messages ← file.messages.zipIdx.mapM fun (m, i) =>
    messageAt code comments [4, (i : Int)] 0 [] (qualify file.package m.name) m
  let services := file.services.zipIdx.map fun (s, i) =>
    serviceAt code comments [6, (i : Int)] 0 s
  return Text.join "\n" enums ++ "\n" ++ Text.join "\n" messages ++ "\n"
    ++ Text.join "\n" services ++ "\n"

/-! ## Nodes -/

/-- The paths of the children that `field` lists in the node at `path`. -/
def childPaths {α : Type} (path : List Int) (field : Int) (children : List α) :
    List (List Int) :=
  children.zipIdx.map fun (_, i) => path ++ [field, (i : Int)]

/-- The paths of an enum and its values. -/
def enumPaths (path : List Int) (e : EnumDescriptor) : List (List Int) :=
  path :: childPaths path 2 e.values

mutual

/-- The paths of a message and of what is emitted inside it. -/
def messagePaths (path : List Int) : MessageDescriptor → List (List Int)
  | ⟨_, fields, nested, enums, _⟩ =>
    path :: (childPaths path 2 fields
      ++ enums.zipIdx.flatMap (fun (e, i) => enumPaths (path ++ [4, (i : Int)]) e)
      ++ nestedPaths path 0 nested)

/-- The paths of the messages that are emitted inside a message, from the one
of index `i` on, and of what is inside them. -/
def nestedPaths (path : List Int) (i : Nat) : List MessageDescriptor → List (List Int)
  | [] => []
  | m :: rest =>
    (if m.mapEntry then [] else messagePaths (path ++ [3, (i : Int)]) m)
      ++ nestedPaths path (i + 1) rest

end

/-- The paths of a service and its methods. -/
def servicePaths (path : List Int) (s : ServiceDescriptor) : List (List Int) :=
  path :: childPaths path 2 s.methods

/-- The paths of the nodes of a file that are emitted. -/
def nodePaths (file : FileDescriptor) : List (List Int) :=
  file.enums.zipIdx.flatMap (fun (e, i) => enumPaths [5, (i : Int)] e)
    ++ file.messages.zipIdx.flatMap (fun (m, i) => messagePaths [4, (i : Int)] m)
    ++ file.services.zipIdx.flatMap (fun (s, i) => servicePaths [6, (i : Int)] s)

end Protoclass.PathEmitter
