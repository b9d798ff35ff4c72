import Protoclass.Text.Utf8
import Protoclass.Yaml.Token

/-!
# YAML nodes

The tokens of a text make a document: a node, whose parts are nodes again, and
the nodes that have an anchor.  An alias names the node that had the anchor last
when the alias was read, which may be a node that the alias is part of.

Only the first document of a text is read.
-/

namespace Protoclass.Yaml

/-- A node. -/
inductive Node where
  | scalar (tag : Option (List Char)) (style : Style) (text : List Char)
  | sequence (items : List Node)
  | mapping (entries : List (Node × Node))
  /-- A stand-in for the anchored node of a given number. -/
  | alias (name : List Char) (number : Nat)
  deriving Repr, Inhabited

/-- The scalar that stands where nothing is written. -/
def Node.empty : Node := .scalar none .plain []

/-- A document. -/
structure Document where
  root : Node
  /-- The nodes with an anchor, by their numbers. -/
  anchored : List (Nat × Node) := []
  /-- The number of tokens that it was read from. -/
  size : Nat := 0

/-- What reading knows between two tokens. -/
structure Feed where
  tokens : List Token
  /-- The meanings of the handles of tags. -/
  handles : List (List Char × List Char) := []
  /-- The numbers of anchored nodes by their names, newest first. -/
  names : List (List Char × Nat) := []
  anchored : List (Nat × Node) := []

namespace Feed

/-- Pass over one token. -/
def skip (feed : Feed) : Feed := { feed with tokens := feed.tokens.drop 1 }

/-- Give the next number to a name. -/
def openAnchor (feed : Feed) (name : List Char) : Nat × Feed :=
  (feed.names.length, { feed with names := (name, feed.names.length) :: feed.names })

/-- Keep the node of a number. -/
def closeAnchor (feed : Feed) (number : Nat) (node : Node) : Feed :=
  { feed with anchored := (number, node) :: feed.anchored }

/-- What is written before a node's content: an anchor and a tag. -/
structure Properties where
  anchor : Option (List Char) := none
  tag : Option (List Char) := none

/-- What the tags of the standard start with. -/
def standardTags : List Char := "tag:yaml.org,2002:".toList

/-- A tag in its short form. -/
def shortTag (tag : List Char) : List Char :=
  if standardTags.isPrefixOf tag then '!' :: '!' :: tag.drop standardTags.length else tag

/-- The tag that a handle and a suffix mean. -/
def tagOf (feed : Feed) (handle suffix : List Char) : Option (List Char) :=
  if handle.isEmpty then some (shortTag suffix)
  else (feed.handles.lookup handle).map fun meaning => shortTag (meaning ++ suffix)

/-- Read an anchor and a tag, in either order. -/
def properties (feed : Feed) : Option (Properties × Feed) :=
  match feed.tokens with
  | .anchor name :: .tag handle suffix :: rest =>
    (feed.tagOf handle suffix).map fun tag =>
      ({ anchor := some name, tag := some tag }, { feed with tokens := rest })
  | .anchor name :: rest => some ({ anchor := some name }, { feed with tokens := rest })
  | .tag handle suffix :: .anchor name :: rest =>
    (feed.tagOf handle suffix).map fun tag =>
      ({ anchor := some name, tag := some tag }, { feed with tokens := rest })
  | .tag handle suffix :: rest =>
    (feed.tagOf handle suffix).map fun tag =>
      ({ tag := some tag }, { feed with tokens := rest })
  | _ => some ({}, feed)

/-- Whether nothing is written between `-` and a token. -/
def endsEntry : Token → Bool
  | .blockEntry | .blockEnd => true
  | _ => false

/-- Whether nothing is written between `-`, at the indentation of the mapping
around it, and a token. -/
def endsLooseEntry : Token → Bool
  | .blockEntry | .key | .value | .blockEnd => true
  | _ => false

/-- Whether nothing is written between a key or value mark and a token. -/
def endsPart : Token → Bool
  | .key | .value | .blockEnd => true
  | _ => false

/-- Whether no key is written before a token inside curly brackets. -/
def endsFlowKey : Token → Bool
  | .value | .flowEntry | .flowMappingEnd => true
  | _ => false

/-- Whether no key is written before a token inside square brackets. -/
def endsPairKey : Token → Bool
  | .value | .flowEntry | .flowSequenceEnd => true
  | _ => false

mutual

/-- Read a node.  `block` says that it may be written by indentation, `loose`
that its entries may stand at the indentation of the mapping around it. -/
def node : (limit : Nat) → (block loose : Bool) → Feed → Option (Node × Feed)
  | 0, _, _, _ => none
  | limit + 1, block, loose, feed =>
    match feed.tokens with
    | [] => none
    | .alias name :: _ =>
      (feed.names.lookup name).map fun number => (.alias name number, feed.skip)
    | _ =>
      match feed.properties with
      | none => none
      | some (properties, feed) =>
        match properties.anchor with
        | none => content limit block loose properties feed
        | some name =>
          let (number, feed) := feed.openAnchor name
          (content limit block loose properties feed).map fun (node, feed) =>
            (node, feed.closeAnchor number node)

/-- Read what follows a node's properties. -/
def content : (limit : Nat) → (block loose : Bool) → Properties → Feed → Option (Node × Feed)
  | 0, _, _, _, _ => none
  | limit + 1, block, loose, properties, feed =>
    match feed.tokens with
    | [] => none
    | .scalar style text :: _ => some (.scalar properties.tag style text, feed.skip)
    | token :: _ =>
      if token = .blockEntry && loose then
        (looseEntries limit feed).map fun (items, feed) => (.sequence items, feed)
      else if token = .flowSequenceStart then
        (flowItems limit true feed.skip).map fun (items, feed) => (.sequence items, feed)
      else if token = .flowMappingStart then
        (flowPairs limit true feed.skip).map fun (pairs, feed) => (.mapping pairs, feed)
      else if token = .blockSequenceStart && block then
        (entries limit feed.skip).map fun (items, feed) => (.sequence items, feed)
      else if token = .blockMappingStart && block then
        (pairs limit feed.skip).map fun (pairs, feed) => (.mapping pairs, feed)
      else if properties.anchor.isSome || properties.tag.isSome then
        some (.scalar properties.tag .plain [], feed)
      else none

/-- Read a node, or the empty one if the next token `ends` it. -/
def nodeUnless : (limit : Nat) → (ends : Token → Bool) → (block loose : Bool) → Feed →
    Option (Node × Feed)
  | 0, _, _, _, _ => none
  | limit + 1, ends, block, loose, feed =>
    match feed.tokens with
    | [] => none
    | token :: _ => if ends token then some (.empty, feed) else node limit block loose feed

/-- Read the entries of a sequence to its end. -/
def entries : (limit : Nat) → Feed → Option (List Node × Feed)
  | 0, _ => none
  | limit + 1, feed =>
    match feed.tokens with
    | .blockEntry :: _ =>
      match nodeUnless limit endsEntry true false feed.skip with
      | none => none
      | some (item, feed) =>
        (entries limit feed).map fun (items, feed) => (item :: items, feed)
    | .blockEnd :: _ => some ([], feed.skip)
    | _ => none

/-- Read the entries of a sequence that stands at the indentation of the mapping
around it. -/
def looseEntries : (limit : Nat) → Feed → Option (List Node × Feed)
  | 0, _ => none
  | limit + 1, feed =>
    match feed.tokens with
    | [] => none
    | .blockEntry :: _ =>
      match nodeUnless limit endsLooseEntry true false feed.skip with
      | none => none
      | some (item, feed) =>
        (looseEntries limit feed).map fun (items, feed) => (item :: items, feed)
    | _ => some ([], feed)

/-- Read the pairs of a mapping to its end. -/
def pairs : (limit : Nat) → Feed → Option (List (Node × Node) × Feed)
  | 0, _ => none
  | limit + 1, feed =>
    match feed.tokens with
    | .key :: _ =>
      match nodeUnless limit endsPart true true feed.skip with
      | none => none
      | some (key, feed) =>
        match pairValue limit endsPart true true feed with
        | none => none
        | some (value, feed) =>
          (pairs limit feed).map fun (more, feed) => ((key, value) :: more, feed)
    | .blockEnd :: _ => some ([], feed.skip)
    | _ => none

/-- Read the value of a pair, which may be missing. -/
def pairValue : (limit : Nat) → (ends : Token → Bool) → (block loose : Bool) → Feed →
    Option (Node × Feed)
  | 0, _, _, _, _ => none
  | limit + 1, ends, block, loose, feed =>
    match feed.tokens with
    | [] => none
    | .value :: _ => nodeUnless limit ends block loose feed.skip
    | _ => some (.empty, feed)

/-- Read the items of a sequence in brackets to its end. -/
def flowItems : (limit : Nat) → (first : Bool) → Feed → Option (List Node × Feed)
  | 0, _, _ => none
  | limit + 1, first, feed =>
    match feed.tokens with
    | .flowSequenceEnd :: _ => some ([], feed.skip)
    | token :: _ =>
      if !first && token != .flowEntry then none
      else
        let feed := if first then feed else feed.skip
        match feed.tokens with
        | .flowSequenceEnd :: _ => some ([], feed.skip)
        | .key :: _ =>
          match flowPair limit feed.skip with
          | none => none
          | some (key, value, feed) =>
            (flowItems limit false feed).map fun (items, feed) =>
              (.mapping [(key, value)] :: items, feed)
        | _ =>
          match node limit false false feed with
          | none => none
          | some (item, feed) =>
            (flowItems limit false feed).map fun (items, feed) => (item :: items, feed)
    | [] => none

/-- Read a single pair inside square brackets, after its key mark.  Where no key
is written, the token that shows it is passed over. -/
def flowPair : (limit : Nat) → Feed → Option (Node × Node × Feed)
  | 0, _ => none
  | limit + 1, feed =>
    match feed.tokens with
    | [] => none
    | token :: _ =>
      match (if endsPairKey token then some (Node.empty, feed.skip)
        else node limit false false feed) with
      | none => none
      | some (key, feed) =>
        (pairValue limit (fun t => t = .flowEntry || t = .flowSequenceEnd) false false feed).map
          fun (value, feed) => (key, value, feed)

/-- Read the pairs of a mapping in brackets to its end. -/
def flowPairs : (limit : Nat) → (first : Bool) → Feed → Option (List (Node × Node) × Feed)
  | 0, _, _ => none
  | limit + 1, first, feed =>
    match feed.tokens with
    | .flowMappingEnd :: _ => some ([], feed.skip)
    | token :: _ =>
      if !first && token != .flowEntry then none
      else
        let feed := if first then feed else feed.skip
        match feed.tokens with
        | .flowMappingEnd :: _ => some ([], feed.skip)
        | .key :: _ =>
          match nodeUnless limit endsFlowKey false false feed.skip with
          | none => none
          | some (key, feed) =>
            match pairValue limit (fun t => t = .flowEntry || t = .flowMappingEnd) false false
                feed with
            | none => none
            | some (value, feed) =>
              (flowPairs limit false feed).map fun (more, feed) => ((key, value) :: more, feed)
        | _ =>
          match node limit false false feed with
          | none => none
          | some (key, feed) =>
            (flowPairs limit false feed).map fun (more, feed) => ((key, .empty) :: more, feed)
    | [] => none

end

/-- Read the directives before a document: at most one version, which has to be
1.1, and handles, each once. -/
def directives : (limit : Nat) → (version : Bool) → Feed → Option Feed
  | 0, _, _ => none
  | limit + 1, version, feed =>
    match feed.tokens with
    | .version major minor :: _ =>
      if version || major != 1 || minor != 1 then none else directives limit true feed.skip
    | .tagHandle handle meaning :: _ =>
      if (feed.handles.lookup handle).isSome then none
      else directives limit version { feed.skip with handles := (handle, meaning) :: feed.handles }
    | _ => some feed

/-- The handles that need no directive. -/
def standardHandles : List (List Char × List Char) :=
  [(['!'], ['!']), (['!', '!'], standardTags)]

/-- Whether a token shows that a document has no content. -/
def endsDocument : Token → Bool
  | .version _ _ | .tagHandle _ _ | .documentStart | .documentEnd | .streamEnd => true
  | _ => false

/-- Read the first document, if the text has one. -/
def document? (tokens : List Token) : Option (Option Document) := do
  let size := tokens.length
  let limit := 4 * size + 4
  let start : Feed := { tokens }
  let (root, feed) ←
    match tokens with
    | .streamEnd :: _ => return none
    | .version _ _ :: _ | .tagHandle _ _ :: _ | .documentStart :: _ => do
      let feed ← directives limit false start
      let feed := { feed with handles := feed.handles ++ standardHandles }
      match feed.tokens with
      | .documentStart :: _ => nodeUnless limit endsDocument true false feed.skip
      | _ => none
    | _ => node limit true false { start with handles := standardHandles }
  if feed.tokens.isEmpty then none
  else return some { root, anchored := feed.anchored, size }

end Feed

/-- The first document of a text; `some none` if the text has none, and `none` if
it is not well formed. -/
def Document.parse? (text : Text) : Option (Option Document) := do
  let chars ← text.chars?
  if chars.all isAllowed then Feed.document? (scan chars) else none

end Protoclass.Yaml
