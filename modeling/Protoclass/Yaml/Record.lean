import Protoclass.Yaml.Resolve

/-!
# Records in a YAML document

A mapping is read as a record: its fields are looked up by name, and fields of
other names are left alone.  A key may not stand twice in a mapping.  The key
`<<` brings in the fields of other mappings that are not there yet.

A node that means nothing leaves a field as it is.
-/

namespace Protoclass.Yaml

/-- A mapping's fields. -/
abbrev Record := List (Text × Node)

namespace Document

/-- The node that a node stands for. -/
def target (document : Document) : Node → Node
  | .alias name number => (document.anchored.lookup number).getD (.alias name number)
  | node => node

/-- What a node gives to a place where a scalar is wanted. -/
def scalar? (document : Document) (node : Node) : Option Content :=
  match document.target node with
  | .scalar tag style text => content? tag style text
  | _ => none

/-- A text; `none` in it if the node means nothing. -/
def text? (document : Document) (node : Node) : Option (Option Text) :=
  (document.scalar? node).map fun
    | .null => none
    | .bool _ written => some written
    | .text text _ => some text

/-- A truth value; `none` in it if the node means nothing. -/
def bool? (document : Document) (node : Node) : Option (Option Bool) :=
  match document.scalar? node with
  | some .null => some none
  | some (.bool value _) => some (some value)
  | some (.text text true) => (text.chars?.bind oldBool?).map some
  | _ => none

/-- A list of texts; items that mean nothing are left out. -/
def texts? (document : Document) (node : Node) : Option (Option (List Text)) :=
  match document.target node with
  | .sequence items => (items.mapM document.text?).map fun found => some (found.filterMap id)
  | .scalar tag style text => if content? tag style text = some .null then some none else none
  | _ => none

/-! ## Fields -/

/-- Whether two keys count as the same. -/
def sameKey : Node → Node → Bool
  | .scalar _ _ a, .scalar _ _ b => a = b
  | .alias a _, .alias b _ => a = b
  | .sequence _, .sequence _ => true
  | .mapping _, .mapping _ => true
  | _, _ => false

/-- Whether no key stands twice. -/
def hasDistinctKeys : List (Node × Node) → Bool
  | [] => true
  | (key, _) :: rest => !(rest.any fun entry => sameKey key entry.1) && hasDistinctKeys rest

/-- Whether a key brings in other mappings. -/
def isMerge : Node → Bool
  | .scalar tag style text =>
    text = ['<', '<'] &&
      match tag.filter (· != ['!']) with
      | none => style = .plain
      | some tag => tag = "!!merge".toList
  | _ => false

/-- The fields that a mapping has itself; keys that mean nothing are left out. -/
def ownFields (document : Document) (entries : List (Node × Node)) : Option Record := do
  let named ← (entries.filter fun entry => !isMerge entry.1).mapM fun (key, value) =>
    (document.text? key).map fun name => name.map fun name => (name, value)
  return named.filterMap id

/-- Fields, and those of `more` whose names are not there yet. -/
def addFields (fields more : Record) : Record :=
  more.foldl (fun fields entry =>
    if fields.any fun field => field.1 = entry.1 then fields else fields ++ [entry]) fields

/-- The mappings that a node brings in: itself, or each of its items. -/
def merged? (document : Document) (node : Node) : Option (List (List (Node × Node))) :=
  match document.target node with
  | .mapping entries => some [entries]
  | .sequence items =>
    match node with
    | .alias _ _ => none
    | _ => items.mapM fun item =>
      match document.target item with
      | .mapping entries => some entries
      | _ => none
  | _ => none

/-- The fields of a mapping, with those brought in after its own, in at most
`limit` steps. -/
def fieldsIn (document : Document) : (limit : Nat) → List (Node × Node) → Option Record
  | 0, _ => none
  | limit + 1, entries =>
    if hasDistinctKeys entries then do
      let own ← document.ownFields entries
      match entries.find? fun entry => isMerge entry.1 with
      | none => return own
      | some (_, node) =>
        let mappings ← document.merged? node
        let more ← mappings.mapM (document.fieldsIn limit)
        return more.foldl addFields own
    else none

/-- The fields of a node that has to be a record; `none` in it if the node means
nothing. -/
def record? (document : Document) (node : Node) : Option (Option Record) :=
  match document.target node with
  | .mapping entries => (document.fieldsIn (document.size + 1) entries).map some
  | .scalar tag style text => if content? tag style text = some .null then some none else none
  | _ => none

end Document

end Protoclass.Yaml
