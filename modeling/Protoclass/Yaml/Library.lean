import Protoclass.Yaml.Printer
import Protoclass.Yaml.Record

/-!
# YAML libraries

What is asked of a library that writes and reads YAML: it prints a record, and it
finds the first document of a text, whose nodes it reads as texts, truth values,
lists and records.  What a record is used for does not depend on the library.

`Library.standard` is the one of this project.
-/

namespace Protoclass.Yaml

/-- What writes and reads YAML.  A node that does not fit where it stands is read as
`none`, and one that means nothing as `some none`. -/
structure Library where
  /-- The parts of documents. -/
  Node : Type
  /-- A record as a text. -/
  print : List (Text × Value) → Text
  /-- The root of the first document of a text; `some none` if the text has none, and
  `none` if it is not well formed. -/
  root? : Text → Option (Option Node)
  text? : Node → Option (Option Text)
  bool? : Node → Option (Option Bool)
  texts? : Node → Option (Option (List Text))
  /-- The fields of a record. -/
  record? : Node → Option (Option (List (Text × Node)))

/-- The value of a field by its name, as `read` reads it; `unset` if it is missing
or means nothing.  It may not be there twice. -/
def field {α β : Type} (fields : List (Text × β)) (name : Text) (read : β → Option (Option α))
    (unset : α) : Option α :=
  match fields.filter fun field => field.1 = name with
  | [] => some unset
  | [(_, node)] => (read node).map fun value => value.getD unset
  | _ => none

/-- The library of this project, in which a node is read as a part of its
document. -/
def Library.standard : Library where
  Node := Document × Yaml.Node
  print := render
  root? text := (Document.parse? text).map fun found =>
    found.map fun document => (document, document.root)
  text? node := node.1.text? node.2
  bool? node := node.1.bool? node.2
  texts? node := node.1.texts? node.2
  record? node := (node.1.record? node.2).map fun found =>
    found.map fun fields => fields.map fun field => (field.1, node.1, field.2)

end Protoclass.Yaml
