import Protoclass.Proofs.Yaml.Records

/-!
# Reading what was scanned

The tokens of a value that lasts are read to a node (`Value.Lasts.reads`), and the
node gives the value back: a text (`text?_textNode`), a truth value, a list of
texts, and the fields of a record (`record?_record`).  So the standard library keeps
every value that lasts (`standard_faithful`).
-/

namespace Protoclass.Yaml

open Text (ofChars chars?)

/-! ## Nodes of values -/

/-- The node of a text. -/
def textNode (text : Text) : Node :=
  match text.chars? with
  | some chars => .scalar none (styleOf chars) chars
  | none => .scalar (some binaryTag) (binaryStyle (binaryText text)) (binaryText text)

/-- The node of a field's name. -/
def nameNode (name : Text) : Node := .scalar none .plain (nameChars name)

mutual

/-- The node of a value. -/
def Value.node : Value → Node
  | .text text => textNode text
  | .bool value => .scalar none .plain (boolChars value)
  | .texts items => .sequence (items.map textNode)
  | .record fields => .mapping (fieldNodes fields)

/-- The pairs of nodes of a record's fields. -/
def fieldNodes : List (Text × Value) → List (Node × Node)
  | [] => []
  | (name, value) :: rest => (nameNode name, value.node) :: fieldNodes rest

end

theorem fieldNodes_eq (fields : List (Text × Value)) :
    fieldNodes fields = fields.map fun field => (nameNode field.1, field.2.node) := by
  induction fields with
  | nil => rfl
  | cons field fields ih =>
    rw [fieldNodes, List.map_cons, ih]

namespace Feed

variable {feed : Feed} {rest : List Token}

/-- What reading knows after tokens that hold no anchor: only `rest` is left. -/
def leaving (feed : Feed) (rest : List Token) : Feed := { feed with tokens := rest }

/-- Tokens are read to a node. -/
def Reads (tokens : List Token) (node : Node) : Prop :=
  ∀ ⦃feed : Feed⦄ ⦃rest : List Token⦄ ⦃limit : Nat⦄ (loose : Bool),
    feed.tokens = tokens ++ rest → feed.handles = standardHandles → 4 * tokens.length ≤ limit →
    Feed.node limit true loose feed = some (node, feed.leaving rest)

/-- A node's first token: it is not one that stands for a missing node. -/
structure Begins (tokens : List Token) : Prop where
  entry : ∀ token ∈ tokens.head?, endsEntry token = false
  part : ∀ token ∈ tokens.head?, endsPart token = false
  nonempty : tokens ≠ []

theorem node_scalar {limit : Nat} {style : Style} {text : List Char} (loose : Bool)
    (tokens : feed.tokens = .scalar style text :: rest) :
    Feed.node (limit + 2) true loose feed = some (.scalar none style text, feed.leaving rest) := by
  rw [Feed.node, tokens]
  simp only [properties, tokens]
  rw [content, tokens]
  simp only [skip, leaving, tokens, List.drop_succ_cons, List.drop_zero]

theorem tagOf_binary (standard : feed.handles = standardHandles) :
    feed.tagOf ['!', '!'] (binaryTag.drop 2) = some binaryTag := by
  rw [tagOf, standard]
  decide

theorem node_binary {limit : Nat} {style : Style} {text : List Char} (loose : Bool)
    (standard : feed.handles = standardHandles)
    (tokens : feed.tokens = .tag ['!', '!'] (binaryTag.drop 2) :: .scalar style text :: rest) :
    Feed.node (limit + 2) true loose feed
      = some (.scalar (some binaryTag) style text, feed.leaving rest) := by
  rw [Feed.node, tokens]
  simp only [properties, tokens, tagOf_binary standard, Option.map_some]
  rw [content]
  simp only [skip, leaving, List.drop_succ_cons, List.drop_zero]

/-- A scalar without a tag is read to its node. -/
theorem reads_scalar (style : Style) (text : List Char) :
    Reads [.scalar style text] (.scalar none style text) := by
  intro feed rest limit loose tokens standard enough
  have enough : 4 ≤ limit := enough
  rcases Nat.exists_eq_add_of_le' (show 2 ≤ limit by omega) with ⟨more, rfl⟩
  exact node_scalar loose tokens

/-- A text is read to its node. -/
theorem reads_text (text : Text) : Reads (textTokens text) (textNode text) := by
  intro feed rest limit loose tokens standard enough
  unfold textTokens at tokens enough
  unfold textNode
  cases utf8 : text.chars? with
  | some chars =>
    simp only [utf8] at tokens enough ⊢
    exact reads_scalar _ _ loose tokens standard enough
  | none =>
    simp only [utf8] at tokens enough ⊢
    have enough : 8 ≤ limit := enough
    rcases Nat.exists_eq_add_of_le' (show 2 ≤ limit by omega) with ⟨more, rfl⟩
    exact node_binary loose standard tokens

theorem begins_cons {token : Token} (entry : endsEntry token = false)
    (part : endsPart token = false) (tokens : List Token) : Begins (token :: tokens) := by
  constructor
  · rintro _ ⟨⟩
    exact entry
  · rintro _ ⟨⟩
    exact part
  · exact List.cons_ne_nil token tokens

theorem begins_text (text : Text) : Begins (textTokens text) := by
  unfold textTokens
  split
  · exact begins_cons rfl rfl _
  · exact begins_cons rfl rfl _

/-- A node that is not missing is read. -/
theorem Reads.nodeUnless {tokens : List Token} {node : Node} (reads : Reads tokens node)
    (nonempty : tokens ≠ []) {ends : Token → Bool}
    (present : ∀ token ∈ tokens.head?, ends token = false) {limit : Nat} (loose : Bool)
    (tokens_eq : feed.tokens = tokens ++ rest) (standard : feed.handles = standardHandles)
    (enough : 4 * tokens.length ≤ limit) :
    nodeUnless (limit + 1) ends true loose feed = some (node, feed.leaving rest) := by
  rcases List.exists_cons_of_ne_nil nonempty with ⟨token, more, rfl⟩
  have present : ends token = false := present token rfl
  rw [Feed.nodeUnless, tokens_eq]
  simp only [List.cons_append, present, Bool.false_eq_true, if_false]
  exact reads loose tokens_eq standard enough

/-- The entries of a sequence are read to its end. -/
theorem entries_eq (items : List Text) {feed : Feed} {limit : Nat}
    (tokens : feed.tokens = items.flatMap entryTokens ++ .blockEnd :: rest)
    (standard : feed.handles = standardHandles)
    (enough : 4 * (items.flatMap entryTokens).length + 4 ≤ limit) :
    entries limit feed = some (items.map textNode, feed.leaving rest) := by
  induction items generalizing feed limit with
  | nil =>
    rcases Nat.exists_eq_add_of_le' (show 1 ≤ limit by omega) with ⟨limit, rfl⟩
    rw [entries, tokens]
    simp only [List.flatMap_nil, List.nil_append, skip, leaving, tokens, List.drop_succ_cons,
      List.drop_zero, List.map_nil]
  | cons item items ih =>
    rw [List.flatMap_cons, entryTokens, List.cons_append, List.cons_append,
      List.append_assoc] at tokens
    rw [List.flatMap_cons, entryTokens, List.length_append, List.length_cons] at enough
    rcases Nat.exists_eq_add_of_le' (show 2 ≤ limit by omega) with ⟨limit, rfl⟩
    have skipped : feed.skip.tokens
        = textTokens item ++ (items.flatMap entryTokens ++ .blockEnd :: rest) := by
      rw [skip, tokens]
      rfl
    have room : 4 * (textTokens item).length ≤ limit := by omega
    have first := (reads_text item).nodeUnless (begins_text item).nonempty (begins_text item).entry
      false skipped standard room
    have others := @ih (feed.skip.leaving (items.flatMap entryTokens ++ .blockEnd :: rest))
      (limit + 1) rfl standard (by omega)
    rw [entries, tokens]
    simp only [first, others, Option.map_some]
    rfl

/-- The pairs of a mapping are read to its end. -/
theorem pairs_eq (fields : List (Text × Value))
    (reads : ∀ field ∈ fields, Reads field.2.tokens field.2.node)
    (begins : ∀ field ∈ fields, Begins field.2.tokens) {feed : Feed} {limit : Nat}
    (tokens : feed.tokens = fields.flatMap fieldTokens ++ .blockEnd :: rest)
    (standard : feed.handles = standardHandles)
    (enough : 4 * (fields.flatMap fieldTokens).length + 4 ≤ limit) :
    pairs limit feed = some (fieldNodes fields, feed.leaving rest) := by
  induction fields generalizing feed limit with
  | nil =>
    rcases Nat.exists_eq_add_of_le' (show 1 ≤ limit by omega) with ⟨limit, rfl⟩
    rw [pairs, tokens]
    simp only [List.flatMap_nil, List.nil_append, skip, leaving, tokens, List.drop_succ_cons,
      List.drop_zero, fieldNodes]
  | cons field fields ih =>
    rw [List.flatMap_cons, fieldTokens] at tokens
    rw [List.flatMap_cons, fieldTokens, List.length_append, List.length_cons, List.length_cons,
      List.length_cons] at enough
    rcases Nat.exists_eq_add_of_le' (show 7 ≤ limit by omega) with ⟨limit, rfl⟩
    have mem : field ∈ field :: fields := List.mem_cons_self
    have valueTokens : feed.skip.skip.skip.tokens
        = field.2.tokens ++ (fields.flatMap fieldTokens ++ .blockEnd :: rest) := by
      simp [skip, tokens]
    have keyTokens : feed.skip.tokens
        = [.scalar .plain (nameChars field.1)] ++ .value :: feed.skip.skip.skip.tokens := by
      simp [skip, tokens]
    have roomForKey : 4 * [Token.scalar .plain (nameChars field.1)].length ≤ limit + 5 := by
      simp only [List.length_singleton]
      omega
    have key := (reads_scalar _ _).nodeUnless (begins_cons rfl rfl _).nonempty
      (begins_cons rfl rfl _).part true keyTokens standard roomForKey
    have roomForValue : 4 * field.2.tokens.length ≤ limit + 4 := by omega
    have value := (reads field mem).nodeUnless (begins field mem).nonempty (begins field mem).part
      true valueTokens standard roomForValue
    have others := @ih (fun other mem => reads other (List.mem_cons_of_mem field mem))
      (fun other mem => begins other (List.mem_cons_of_mem field mem))
      (feed.leaving (fields.flatMap fieldTokens ++ .blockEnd :: rest)) (limit + 6) rfl standard
      (by omega)
    have pairValue_eq : pairValue (limit + 6) endsPart true true
          (feed.skip.leaving (.value :: feed.skip.skip.skip.tokens))
        = some (field.2.node, feed.leaving (fields.flatMap fieldTokens ++ .blockEnd :: rest)) := by
      rw [pairValue]
      exact value
    rw [pairs, tokens]
    simp only [List.cons_append, key, pairValue_eq, others, Option.map_some]
    rfl

theorem node_block {start : Token} (tokens : feed.tokens = start :: rest)
    (isStart : start = .blockSequenceStart ∨ start = .blockMappingStart) (limit : Nat)
    (loose : Bool) :
    Feed.node (limit + 2) true loose feed
      = if start = .blockSequenceStart then
          (entries limit feed.skip).map fun (items, feed) => (.sequence items, feed)
        else (pairs limit feed.skip).map fun (pairs, feed) => (.mapping pairs, feed) := by
  rcases isStart with rfl | rfl
  · rw [Feed.node, tokens]
    simp only [properties, tokens]
    rw [content, tokens]
    simp
  · rw [Feed.node, tokens]
    simp only [properties, tokens]
    rw [content, tokens]
    simp

end Feed

/-- A value starts with a token that shows it is there. -/
theorem Value.begins (value : Value) : Feed.Begins value.tokens := by
  cases value with
  | text text => exact Feed.begins_text text
  | bool value => exact Feed.begins_cons rfl rfl _
  | texts items => exact Feed.begins_cons rfl rfl _
  | record fields => exact Feed.begins_cons rfl rfl _

/-- A value that lasts is read to its node. -/
theorem Value.Lasts.reads {value : Value} (lasts : value.Lasts) :
    Feed.Reads value.tokens value.node := by
  induction lasts with
  | text keeps => exact Feed.reads_text _
  | bool value => exact Feed.reads_scalar _ _
  | @texts items nonempty keeps =>
    intro feed rest limit loose tokens standard enough
    rw [Value.tokens, List.length_cons, List.length_append, List.length_singleton] at enough
    rw [Value.tokens, List.cons_append, List.append_assoc, List.singleton_append] at tokens
    rcases Nat.exists_eq_add_of_le' (show 2 ≤ limit by omega) with ⟨limit, rfl⟩
    have skipped : feed.skip.tokens = items.flatMap entryTokens ++ .blockEnd :: rest := by
      rw [Feed.skip, tokens]
      rfl
    rw [Feed.node_block tokens (.inl rfl), if_pos rfl,
      Feed.entries_eq items skipped standard (by omega)]
    rfl
  | @record fields nonempty distinct names values ih =>
    intro feed rest limit loose tokens standard enough
    rw [Value.tokens, fieldsTokens_eq, List.length_cons, List.length_append,
      List.length_singleton] at enough
    rw [Value.tokens, fieldsTokens_eq, List.cons_append, List.append_assoc,
      List.singleton_append] at tokens
    rcases Nat.exists_eq_add_of_le' (show 2 ≤ limit by omega) with ⟨limit, rfl⟩
    have skipped : feed.skip.tokens = fields.flatMap fieldTokens ++ .blockEnd :: rest := by
      rw [Feed.skip, tokens]
      rfl
    rw [Feed.node_block tokens (.inr rfl), if_neg (by decide),
      Feed.pairs_eq fields ih (fun field _ => field.2.begins) skipped standard (by omega)]
    rfl

theorem exists_document? {more : List Token} {node : Node}
    (reads : Feed.Reads (.blockMappingStart :: more) node) :
    ∃ document, Feed.document? (.blockMappingStart :: more ++ [.streamEnd]) = some (some document)
      ∧ document.root = node := by
  have room : 4 * (Token.blockMappingStart :: more).length
      ≤ 4 * (.blockMappingStart :: more ++ [Token.streamEnd]).length + 4 := by
    rw [List.length_append]
    omega
  have found := @reads
    { tokens := .blockMappingStart :: more ++ [.streamEnd], handles := Feed.standardHandles }
    [.streamEnd] _ false rfl rfl room
  simp only [List.cons_append] at found ⊢
  simp only [Feed.document?, found, Option.bind_eq_bind, Option.bind_some, Feed.leaving]
  exact ⟨_, rfl, rfl⟩

/-- The text of a record is read to a document with its node. -/
theorem exists_parse?_writeFields {fields : List (Text × Value)}
    (lasts : (Value.record fields).Lasts) :
    ∃ document, Document.parse? (writeFields 0 fields) = some (some document)
      ∧ document.root = (Value.record fields).node := by
  have reads := lasts.reads
  cases lasts with
  | record nonempty distinct names values =>
    have allowed : (fieldsChars 0 fields).all isAllowed = true :=
      all_isAllowed_fieldsChars names fun field mem =>
        Value.Lasts.all_isAllowed (values field mem) 0
    have written : writeFields 0 fields = ofChars (fieldsChars 0 fields) :=
      ofChars_fieldsChars names fun field mem => Value.Lasts.write_eq (values field mem) 0
    rw [Document.parse?, Text.chars?_eq_some_iff.mpr written, Option.bind_eq_bind, Option.bind_some,
      if_pos allowed, scan_fieldsChars nonempty names values]
    exact exists_document? reads

/-! ## What nodes mean -/

section Meaning

variable (document : Document)

theorem content?_binary (style : Style) (text : List Char) :
    content? (some binaryTag) style text
      = (Text.Base64.decode? (ofChars text)).map fun bytes => .text bytes (style = .plain) := by
  have tagged : (some binaryTag).filter (· != ['!']) = some binaryTag := rfl
  simp only [content?, tagged, if_true]

/-- The node of a text gives the text. -/
theorem text?_textNode (text : Text) : document.text? (textNode text) = some (some text) := by
  unfold textNode
  cases utf8 : text.chars? with
  | none =>
    have bytes := decode?_binaryText text
    simp [Document.text?, Document.scalar?, Document.target, content?_binary, bytes]
  | some chars =>
    have text_eq := Text.chars?_eq_some_iff.mp utf8
    by_cases plain : styleOf chars = .plain
    · have isText := (meaning_of_styleOf plain).1
      simp [Document.text?, Document.scalar?, Document.target, content?, plain, isText, Content.of,
        text_eq]
    · simp [Document.text?, Document.scalar?, Document.target, content?, plain, text_eq]

theorem bool?_boolNode (value : Bool) :
    document.bool? (Value.bool value).node = some (some value) := by
  cases value <;> rfl

theorem texts?_textsNode (items : List Text) :
    document.texts? (Value.texts items).node = some (some items) := by
  have found : (items.map textNode).mapM document.text? = some (items.map some) := by
    induction items with
    | nil => rfl
    | cons item items ih =>
      rw [List.map_cons, List.mapM_cons, text?_textNode, ih]
      rfl
  simp [Document.texts?, Value.node, Document.target, found]

theorem text?_nameNode {name : Text} (isName : IsFieldName name) :
    document.text? (nameNode name) = some (some name) := by
  have isNode : nameNode name = textNode name := by
    rw [nameNode, textNode, isName.utf8]
    simp only [isName.key.plain]
  rw [isNode, text?_textNode]

theorem isMerge_nameNode {name : Text} (isName : IsFieldName name) :
    Document.isMerge (nameNode name) = false := by
  simp [Document.isMerge, nameNode, isName.key.own]

theorem sameKey_nameNode {a b : Text} (first : IsFieldName a) (second : IsFieldName b)
    (apart : a ≠ b) :
    Document.sameKey (nameNode a) (nameNode b) = false := by
  rw [nameNode, nameNode, Document.sameKey, decide_eq_false_iff_not]
  intro same
  have a_eq := Text.chars?_eq_some_iff.mp first.utf8
  have b_eq := Text.chars?_eq_some_iff.mp second.utf8
  rw [same, ← b_eq] at a_eq
  exact apart a_eq

/-- The fields of a record by their names. -/
def fieldRecord (fields : List (Text × Value)) : Record :=
  fields.map fun field => (field.1, field.2.node)

theorem hasDistinctKeys_fieldNodes {fields : List (Text × Value)}
    (distinct : (fields.map Prod.fst).Nodup) (names : ∀ field ∈ fields, IsFieldName field.1) :
    Document.hasDistinctKeys (fieldNodes fields) = true := by
  induction fields with
  | nil => rfl
  | cons field fields ih =>
    rw [List.map_cons, List.nodup_cons] at distinct
    rw [fieldNodes, Document.hasDistinctKeys,
      ih distinct.2 fun other mem => names other (List.mem_cons_of_mem field mem), Bool.and_true,
      Bool.not_eq_true', List.any_eq_false, fieldNodes_eq]
    intro entry mem
    rcases List.mem_map.mp mem with ⟨other, isField, rfl⟩
    have apart : field.1 ≠ other.1 := by
      intro same
      exact distinct.1 (same ▸ List.mem_map_of_mem isField)
    rw [sameKey_nameNode (names field List.mem_cons_self)
      (names other (List.mem_cons_of_mem field isField)) apart]
    exact Bool.false_ne_true

theorem ownFields_fieldNodes {fields : List (Text × Value)}
    (names : ∀ field ∈ fields, IsFieldName field.1) :
    document.ownFields (fieldNodes fields) = some (fieldRecord fields) := by
  have all : (fieldNodes fields).filter (fun entry => !Document.isMerge entry.1)
      = fieldNodes fields := by
    rw [List.filter_eq_self, fieldNodes_eq]
    intro entry mem
    rcases List.mem_map.mp mem with ⟨field, isField, rfl⟩
    rw [isMerge_nameNode (names field isField)]
    rfl
  have named : (fieldNodes fields).mapM (fun entry =>
        (document.text? entry.1).map fun name => name.map fun name => (name, entry.2))
      = some ((fieldRecord fields).map some) := by
    clear all
    induction fields with
    | nil => rfl
    | cons field fields ih =>
      rw [fieldNodes, List.mapM_cons, text?_nameNode document (names field List.mem_cons_self),
        ih fun other mem => names other (List.mem_cons_of_mem field mem)]
      rfl
  rw [Document.ownFields, all]
  simp only [Option.bind_eq_bind, named, Option.bind_some]
  simp

/-- The node of a record gives its fields. -/
theorem record?_record {fields : List (Text × Value)} (lasts : (Value.record fields).Lasts) :
    document.record? (Value.record fields).node = some (some (fieldRecord fields)) := by
  cases lasts with
  | record nonempty distinct names values =>
    have own : ((fieldNodes fields).find? fun entry => Document.isMerge entry.1) = none := by
      rw [List.find?_eq_none, fieldNodes_eq]
      intro entry mem
      rcases List.mem_map.mp mem with ⟨field, isField, rfl⟩
      rw [isMerge_nameNode (names field isField)]
      exact Bool.false_ne_true
    simp only [Document.record?, Value.node, Document.target]
    rw [Document.fieldsIn, if_pos (hasDistinctKeys_fieldNodes distinct names),
      ownFields_fieldNodes document names]
    simp only [Option.bind_eq_bind, Option.bind_some, own]
    rfl

end Meaning

/-! ## The standard library -/

section Standard

variable (document : Document)

theorem holdsAll_entries {fields : List (Text × Value)}
    (each : ∀ field ∈ fields, Library.standard.Holds (document, field.2.node) field.2) :
    Library.standard.HoldsAll
      ((fieldRecord fields).map fun field => (field.1, document, field.2)) fields := by
  induction fields with
  | nil => exact .nil
  | cons field fields ih =>
    rw [List.forall_mem_cons] at each
    exact .cons field.1 each.1 (ih each.2)

/-- The node of a value that lasts is read as the value. -/
theorem Value.Lasts.holds {value : Value} (lasts : value.Lasts) :
    Library.standard.Holds (document, value.node) value := by
  induction lasts with
  | text keeps => exact .text (text?_textNode document _)
  | bool value => exact .bool (bool?_boolNode document value)
  | texts nonempty keeps => exact .texts (texts?_textsNode document _)
  | @record fields nonempty distinct names values ih =>
    have read := record?_record document (.record nonempty distinct names values)
    apply Library.Holds.record _ (holdsAll_entries document ih)
    simp only [Library.standard, read, Option.map_some]

/-- What the standard library prints of values that last, it reads as these values. -/
theorem standard_faithful :
    Library.standard.Faithful IsFieldName fun room text => losesStart room text = false := by
  rintro fields (rfl | lasts)
  · exact ⟨_, rfl, .record rfl .nil⟩
  · have nonempty : fields ≠ [] := by
      cases lasts with
      | record nonempty => exact nonempty
    rcases exists_parse?_writeFields lasts with ⟨document, parsed, root⟩
    refine ⟨(document, document.root), ?_, root ▸ Value.Lasts.holds document lasts⟩
    simp only [Library.standard, render, List.isEmpty_iff, nonempty, if_false, parsed,
      Option.map_some]

end Standard

end Protoclass.Yaml
