import Protoclass.Proofs.Layout.Classes

/-!
# The block structure of emitted code

What is emitted for a declaration is the text of an outline: the class of the
declaration, with the classes of its nested messages inside.  Comments of any
text stand at the depth of what they document, and no class is without a
statement of its own.  The induction goes over the message and the messages
nested in it, in step with the cursor.
-/

namespace Protoclass.ClassCode

open Docstring (AtDepth indent)
open Outline (Prints bodyLines own?)
open Text (newline ofLines)

/-! ## Outlines of declarations -/

/-- The class of an enum that the cursor points at. -/
def enumOutlineAt (cursor : Cursor) (e : EnumDescriptor) : Outline :=
  enumOutline cursor.depth cursor.comment e.name
    ((Cursor.under cursor.scope FieldNumber.enumValue (cursor.depth + 1)).documented e.values)

/-- The class of a service that the cursor points at. -/
def serviceOutlineAt (code : ClassCode) (cursor : Cursor) (s : ServiceDescriptor) : Outline :=
  serviceOutline code cursor.depth cursor.comment s.name
    ((Cursor.under cursor.scope FieldNumber.serviceMethod (cursor.depth + 1)).documented s.methods)

/-- The members of a message, or `pass`. -/
def AreMembers (code : ClassCode) (depth : Int) (message : MessageDescriptor) (fullName : Text)
    (fields : List (FieldDescriptor × Text)) (outlines : List Outline) : Prop :=
  ∃ parts, List.Forall₂ (IsMember code depth message fullName) fields parts ∧
    outlines = orPass parts

mutual

/-- The class of a message that the cursor points at: below the docstring, the
classes of its enums and messages and then its members. -/
inductive IsMessage (code : ClassCode) :
    Cursor → (fullName : Text) → MessageDescriptor → Outline → Prop
  | intro {cursor : Cursor} {fullName : Text} {m : MessageDescriptor}
      {nested members : List Outline}
      (areNested : AreNested code
        (Cursor.under cursor.scope FieldNumber.messageNested (cursor.depth + 1)) fullName 0
        m.nested nested)
      (areMembers : AreMembers code (cursor.depth + 1) m fullName
        ((Cursor.under cursor.scope FieldNumber.messageField (cursor.depth + 1)).documented
          m.fields) members) :
      IsMessage code cursor fullName m
        (.block ["@_dc.dataclass", "class " ++ m.name ++ ":"]
          (docLines cursor.comment (cursor.depth + 1))
          (m.enums.zipIdx.map (fun (e, i) => enumOutlineAt ((Cursor.under cursor.scope
            FieldNumber.messageEnum (cursor.depth + 1)).step i) e) ++ nested ++ members))

/-- The classes of nested messages from index `i` on; map entries have none. -/
inductive AreNested (code : ClassCode) :
    Cursor → (fullName : Text) → (i : Nat) → List MessageDescriptor → List Outline → Prop
  | nil {cursor : Cursor} {fullName : Text} {i : Nat} : AreNested code cursor fullName i [] []
  | mapEntry {cursor : Cursor} {fullName : Text} {i : Nat} {m : MessageDescriptor}
      {rest : List MessageDescriptor} {outlines : List Outline} (isEntry : m.mapEntry = true)
      (areRest : AreNested code cursor fullName (i + 1) rest outlines) :
      AreNested code cursor fullName i (m :: rest) outlines
  | message {cursor : Cursor} {fullName : Text} {i : Nat} {m : MessageDescriptor}
      {rest : List MessageDescriptor} {outline : Outline} {outlines : List Outline}
      (isOwn : m.mapEntry = false)
      (isMessage : IsMessage code (cursor.step i) (fullName ++ "." ++ m.name) m outline)
      (areRest : AreNested code cursor fullName (i + 1) rest outlines) :
      AreNested code cursor fullName i (m :: rest) (outline :: outlines)

end

/-- The class of a declaration that the cursor points at. -/
inductive IsClass (code : ClassCode) (cursor : Cursor) (fullName : Text) :
    Declaration → Outline → Prop
  | enum (e : EnumDescriptor) : IsClass code cursor fullName (.enum e) (enumOutlineAt cursor e)
  | message {m : MessageDescriptor} {outline : Outline}
      (isMessage : IsMessage code cursor fullName m outline) :
      IsClass code cursor fullName (.message m) outline
  | service (s : ServiceDescriptor) :
      IsClass code cursor fullName (.service s) (serviceOutlineAt code cursor s)

/-! ## Emission prints outlines -/

variable {code : ClassCode} {depth : Int}

theorem forall_mem_documented {α : Type} {cursor : Cursor} {children : List α} {holds : α → Prop}
    (each : ∀ child ∈ children, holds child) :
    ∀ entry ∈ cursor.documented children, holds entry.1 := by
  intro entry member
  obtain ⟨⟨child, i⟩, among, rfl⟩ := List.mem_map.mp member
  exact each child (List.fst_mem_of_mem_zipIdx among)

/-- Texts that are made one by one and each print a part print all of them. -/
theorem prints_mapM {α : Type} {make : α → Except Fault Text} {part : α → Outline} {xs : List α}
    {texts : List Text} (mapped : xs.mapM make = .ok texts)
    (each : ∀ x ∈ xs, ∀ text, make x = .ok text → Prints depth [part x] text) :
    Prints depth (xs.map part) texts.flatten := by
  have made := Result.forall₂_of_mapM_eq_ok mapped
  clear mapped
  induction made with
  | nil => exact Outline.prints_nil depth
  | cons first _ ih =>
    rw [List.forall_mem_cons] at each
    exact (each.1 _ first).append (ih each.2)

theorem prints_emitEnum {cursor : Cursor} {scope fullName text : Text} {e : EnumDescriptor}
    (emitted : (emitEnum cursor scope fullName e).result = .ok text)
    (nonneg : 0 ≤ cursor.depth) (oneLine : ∀ word ∈ e.words, newline ∉ word) :
    Prints cursor.depth [enumOutlineAt cursor e] text := by
  rw [EnumDescriptor.words, List.forall_mem_cons, List.forall_mem_map] at oneLine
  rw [emitEnum] at emitted
  split at emitted
  · simp only [Logged.result_bind, Logged.result_debug, Logged.result_pure, Result.ok_bind]
      at emitted
    cases emitted
    exact prints_enumClass nonneg _ oneLine.1 (forall_mem_documented oneLine.2)
  · contradiction

theorem prints_emitService {cursor : Cursor} {fullName text : Text} {s : ServiceDescriptor}
    (emitted : (emitService code cursor fullName s).result = .ok text)
    (nonneg : 0 ≤ cursor.depth) (oneLine : ∀ word ∈ s.words, newline ∉ word) :
    Prints cursor.depth [serviceOutlineAt code cursor s] text := by
  rw [ServiceDescriptor.words, List.forall_mem_cons, List.forall_mem_flatMap] at oneLine
  rw [emitService] at emitted
  simp only [Logged.result_bind, Logged.result_debug, Logged.result_pure, Result.ok_bind] at emitted
  cases emitted
  exact prints_serviceClass nonneg _ oneLine.1 (forall_mem_documented oneLine.2)

theorem exists_forall₂_isMember {message : MessageDescriptor} {fullName : Text}
    {fields : List (FieldDescriptor × Text)} {texts : List Text}
    (each : List.Forall₂ (fun entry text => member code depth message fullName entry = .ok text)
      fields texts) :
    ∃ parts, List.Forall₂ (IsMember code depth message fullName) fields parts ∧
      texts.flatten = ofLines (bodyLines depth parts) := by
  induction each with
  | nil => exact ⟨[], .nil, rfl⟩
  | cons first _ ih =>
    obtain ⟨part, isMember, text_eq⟩ := exists_isMember first
    obtain ⟨parts, areMembers, texts_eq⟩ := ih
    refine ⟨part :: parts, .cons isMember areMembers, ?_⟩
    rw [List.flatten_cons, text_eq, texts_eq, bodyLines, Text.ofLines_append]

theorem exists_areMembers {message : MessageDescriptor} {fullName text : Text}
    {fields : List (FieldDescriptor × Text)}
    (made : members code depth message fullName fields = .ok text) :
    ∃ outlines, AreMembers code depth message fullName fields outlines ∧
      text = ofLines (bodyLines depth outlines) := by
  rw [members] at made
  split at made
  case isTrue nothing =>
    cases made
    obtain rfl := List.isEmpty_iff.mp nothing
    refine ⟨[Outline.pass], ⟨[], .nil, rfl⟩, ?_⟩
    rw [Outline.bodyLines_singleton, Outline.pass, Outline.lines, Text.ofLines_cons,
      List.append_assoc]
    rfl
  case isFalse something =>
    obtain ⟨texts, mapped, made⟩ := Result.bind_eq_ok_iff.mp made
    cases made
    obtain ⟨parts, areMembers, texts_eq⟩ :=
      exists_forall₂_isMember (Result.forall₂_of_mapM_eq_ok mapped)
    have nonempty : orPass parts = parts := by
      cases areMembers with
      | nil => exact absurd rfl something
      | cons _ _ => rfl
    exact ⟨parts, ⟨parts, areMembers, nonempty.symm⟩, texts_eq⟩

theorem AreMembers.own {message : MessageDescriptor} {fullName : Text}
    {fields : List (FieldDescriptor × Text)} {outlines : List Outline}
    (areMembers : AreMembers code depth message fullName fields outlines)
    (ofFields : ∀ entry ∈ fields, ∀ word ∈ entry.1.words, newline ∉ word)
    (ofDefaults : ∀ entry ∈ fields, ∀ name ∈ entry.1.defaultName? code.types, newline ∉ name)
    (ofEntries : ∀ inner ∈ message.nested, ∀ field ∈ inner.fields, newline ∉ field.typeName) :
    outlines ≠ [] ∧ ∀ part ∈ outlines, Own depth part := by
  obtain ⟨parts, each, rfl⟩ := areMembers
  apply own_orPass
  induction each with
  | nil => simp
  | cons first _ ih =>
    rw [List.forall_mem_cons] at ofFields ofDefaults
    exact List.forall_mem_cons.mpr
      ⟨first.own ofFields.1 ofDefaults.1 ofEntries, ih ofFields.2 ofDefaults.2⟩

theorem prints_emitEnums (cursor : Cursor) {scope : Text} (fullName : EnumDescriptor → Text)
    {enums : List EnumDescriptor} {texts : List Text}
    (emitted : (enums.zipIdx.mapM fun (e, i) =>
      (emitEnum (cursor.step i) scope (fullName e) e).result) = .ok texts)
    (nonneg : 0 ≤ cursor.depth) (oneLine : ∀ e ∈ enums, ∀ word ∈ e.words, newline ∉ word) :
    Prints cursor.depth (enums.zipIdx.map fun (e, i) => enumOutlineAt (cursor.step i) e)
      texts.flatten := by
  apply prints_mapM emitted
  rintro ⟨e, i⟩ member text made
  -- The goal is about the depth of `cursor`, which is also that of its step.
  have printed := prints_emitEnum made nonneg (oneLine e (List.fst_mem_of_mem_zipIdx member))
  exact printed

mutual

theorem prints_emitMessage (code : ClassCode) :
    (m : MessageDescriptor) → (cursor : Cursor) → (scope fullName text : Text) →
    0 ≤ cursor.depth → (∀ word ∈ m.words, newline ∉ word) →
    (∀ name ∈ m.defaultNames code.types, newline ∉ name) →
    (emitMessage code cursor scope fullName m).result = .ok text →
    ∃ outline, IsMessage code cursor fullName m outline ∧ Prints cursor.depth [outline] text
  | ⟨name, fields, nested, enums, mapEntry⟩, cursor, scope, fullName, text, nonneg, oneLine,
      defaults, emitted => by
    rw [emitMessage] at emitted
    simp only [Logged.result_bind, Logged.result_debug, Logged.result_mapM, Logged.result_lift,
      Logged.result_pure, Result.ok_bind] at emitted
    obtain ⟨enumTexts, enumsEmitted, emitted⟩ := Result.bind_eq_ok_iff.mp emitted
    obtain ⟨nestedText, nestedEmitted, emitted⟩ := Result.bind_eq_ok_iff.mp emitted
    obtain ⟨membersText, membersMade, emitted⟩ := Result.bind_eq_ok_iff.mp emitted
    cases emitted
    rw [MessageDescriptor.words] at oneLine
    rw [MessageDescriptor.defaultNames, List.forall_mem_append] at defaults
    simp only [List.forall_mem_cons, List.forall_mem_append, List.forall_mem_flatMap] at oneLine
    obtain ⟨ofName, ⟨ofFields, ofNested⟩, ofEnums⟩ := oneLine
    obtain ⟨ofDefaults, ofInnerDefaults⟩ := defaults
    have deeper : 0 ≤ cursor.depth + 1 := by omega
    have enumsPrinted := prints_emitEnums _ (fun e => fullName ++ "." ++ e.name) enumsEmitted
      deeper ofEnums
    obtain ⟨nestedOutlines, areNested, nestedPrinted⟩ :=
      prints_emitNested code nested _ _ fullName nestedText 0 deeper ofNested ofInnerDefaults
        nestedEmitted
    obtain ⟨memberOutlines, areMembers, members_eq⟩ := exists_areMembers membersMade
    -- The hint of a map field is made from the fields of its entry message.
    have ofEntries : ∀ inner ∈ nested, ∀ field ∈ inner.fields, newline ∉ field.typeName := by
      intro inner among field member
      exact ofNested _ (MessageDescriptor.mem_allWords.mpr
        ⟨inner, among, MessageDescriptor.typeName_mem_words member⟩)
    have ofDefault : ∀ field ∈ fields, ∀ name ∈ field.defaultName? code.types, newline ∉ name :=
      fun field member name isDefault =>
        ofDefaults name (List.mem_filterMap.mpr ⟨field, member, isDefault⟩)
    obtain ⟨nonempty, own⟩ := areMembers.own (forall_mem_documented ofFields)
      (forall_mem_documented ofDefault) ofEntries
    have printed := prints_messageClass nonneg cursor.comment ofName
      (enumsPrinted.append nestedPrinted) nonempty own
    rw [← List.append_assoc, ← members_eq] at printed
    exact ⟨_, .intro areNested areMembers, printed⟩

theorem prints_emitNested (code : ClassCode) :
    (nested : List MessageDescriptor) → (cursor : Cursor) → (scope fullName text : Text) →
    (i : Nat) → 0 ≤ cursor.depth →
    (∀ word ∈ MessageDescriptor.allWords nested, newline ∉ word) →
    (∀ name ∈ MessageDescriptor.allDefaultNames code.types nested, newline ∉ name) →
    (emitNested code cursor scope fullName i nested).result = .ok text →
    ∃ outlines, AreNested code cursor fullName i nested outlines ∧
      Prints cursor.depth outlines text
  | [], cursor, _, _, _, _, _, _, _, emitted => by
    rw [emitNested] at emitted
    cases emitted
    exact ⟨[], .nil, Outline.prints_nil cursor.depth⟩
  | m :: rest, cursor, scope, fullName, text, i, nonneg, oneLine, defaults, emitted => by
    rw [MessageDescriptor.allWords, List.forall_mem_append] at oneLine
    rw [MessageDescriptor.allDefaultNames, List.forall_mem_append] at defaults
    rw [emitNested] at emitted
    cases isEntry : m.mapEntry with
    | true =>
      simp only [isEntry, if_true, Logged.result_bind, Logged.result_pure, Result.ok_bind]
        at emitted
      obtain ⟨moreText, moreEmitted, emitted⟩ := Result.bind_eq_ok_iff.mp emitted
      cases emitted
      obtain ⟨outlines, areRest, printed⟩ :=
        prints_emitNested code rest cursor scope fullName moreText (i + 1) nonneg oneLine.2
          defaults.2 moreEmitted
      exact ⟨outlines, .mapEntry isEntry areRest, printed⟩
    | false =>
      simp only [isEntry, Bool.false_eq_true, if_false, Logged.result_bind, Logged.result_pure]
        at emitted
      obtain ⟨firstText, firstEmitted, emitted⟩ := Result.bind_eq_ok_iff.mp emitted
      obtain ⟨moreText, moreEmitted, emitted⟩ := Result.bind_eq_ok_iff.mp emitted
      cases emitted
      rw [if_neg (by simp [isEntry])] at defaults
      obtain ⟨outline, isMessage, firstPrinted⟩ :=
        prints_emitMessage code m (cursor.step i) scope _ firstText nonneg oneLine.1 defaults.1
          firstEmitted
      obtain ⟨outlines, areRest, morePrinted⟩ :=
        prints_emitNested code rest cursor scope fullName moreText (i + 1) nonneg oneLine.2
          defaults.2 moreEmitted
      exact ⟨outline :: outlines, .message isEntry isMessage areRest,
        firstPrinted.append morePrinted⟩

end

theorem prints_emit {cursor : Cursor} {scope fullName text : Text} {decl : Declaration}
    (nonneg : 0 ≤ cursor.depth) (oneLine : ∀ word ∈ decl.words, newline ∉ word)
    (defaults : ∀ name ∈ decl.defaultNames code.types, newline ∉ name)
    (emitted : (code.emit cursor scope fullName decl).result = .ok text) :
    ∃ outline, IsClass code cursor fullName decl outline ∧ Prints cursor.depth [outline] text := by
  cases decl with
  | enum e =>
    exact ⟨_, .enum e, prints_emitEnum emitted nonneg oneLine⟩
  | message m =>
    obtain ⟨outline, isMessage, printed⟩ :=
      prints_emitMessage code m cursor scope fullName text nonneg oneLine defaults emitted
    exact ⟨outline, .message isMessage, printed⟩
  | service s =>
    exact ⟨_, .service s, prints_emitService emitted nonneg oneLine⟩

/-- The lines of the class statement of a declaration. -/
def classHead : Declaration → List Text
  | .enum e => ["class " ++ e.name ++ "(_enum.Enum):"]
  | .message m => ["@_dc.dataclass", "class " ++ m.name ++ ":"]
  | .service s => ["class " ++ s.name ++ ":"]

theorem IsClass.eq_block {cursor : Cursor} {fullName : Text} {decl : Declaration}
    {outline : Outline} (isClass : IsClass code cursor fullName decl outline) :
    ∃ doc body, outline = .block (classHead decl) doc body := by
  cases isClass with
  | enum e => exact ⟨_, _, rfl⟩
  | message isMessage =>
    cases isMessage
    exact ⟨_, _, rfl⟩
  | service s => exact ⟨_, _, rfl⟩

/-- What is emitted for a declaration whose names and references have no line end, nor
the enum values that its defaults name, is, line by line, the outline of its class,
whatever its comments hold.  Every part of the outline stands in the text at its own
depth: no line of it has a smaller margin; below the head of a class every line is one
level deeper, and a statement of its own is among them. -/
theorem emit_block_structure (code : ClassCode) (cursor : Cursor) (scope fullName : Text)
    (decl : Declaration) (text : Text) (nonneg : 0 ≤ cursor.depth)
    (oneLine : ∀ word ∈ decl.words, newline ∉ word)
    (defaults : ∀ name ∈ decl.defaultNames code.types, newline ∉ name)
    (emitted : (code.emit cursor scope fullName decl).result = .ok text) :
    ∃ doc body, IsClass code cursor fullName decl (.block (classHead decl) doc body) ∧
      text.splitOn newline = (classHead decl).map (indent cursor.depth ++ ·)
        ++ (doc ++ bodyLines (cursor.depth + 1) body) ++ [[]] ∧
      ∀ depth part, Outline.Inside cursor.depth (.block (classHead decl) doc body) depth part →
        part.lines depth <:+: text.splitOn newline ∧
        (∀ line ∈ part.lines depth, AtDepth depth line) ∧ part.Laid depth := by
  obtain ⟨outline, isClass, printed⟩ := prints_emit nonneg oneLine defaults emitted
  obtain ⟨doc, body, rfl⟩ := isClass.eq_block
  have sound := printed.sound _ (List.mem_singleton_self _)
  have split := printed.splitOn
  rw [Outline.bodyLines_singleton] at split
  refine ⟨doc, body, isClass, ?_, ?_⟩
  · rw [split, Outline.lines]
  · intro depth part inside
    have soundPart := sound.inside inside
    refine ⟨?_, soundPart.atDepth, soundPart.laid⟩
    rw [split]
    exact inside.infix_lines.trans (List.prefix_append _ _).isInfix

/-- A message with a comment of two lines, a map entry, a message inside and an
enum field.  Of the enum only the first value is printed. -/
theorem emit_block_structure_nested :
    let color : EnumDescriptor :=
      { name := "Color", values := [{ name := "RED" }, { name := "DARK\nRED" }] }
    let code : ClassCode :=
      { package := "p", types := .ofDeclarations [("p.Color", .enum color)] }
    let outer : MessageDescriptor :=
      { name := "Outer"
        fields := [{ name := "color", typeCode := 14, typeName := ".p.Color" }]
        nested := [{ name := "Entry", mapEntry := true }, { name := "Inner" }] }
    let cursor : Cursor := (Cursor.under [⟨[4, 0], " See\n@see p.Other"⟩] 4 0).step 0
    let decl : Declaration := .message outer
    let text : Text := "@_dc.dataclass\nclass Outer:\n\n    \"\"\"\n    See\n    .. seealso::\n"
      ++ "        :class:`Other <p.Other>`\n    \"\"\"\n\n    @_dc.dataclass\n"
      ++ "    class Inner:\n\n        pass\n\n    color: Color = Color.RED\n\n"
    (∀ word ∈ decl.words, newline ∉ word) ∧ decl.defaultNames code.types = [Text.ofString "RED"] ∧
      (code.emit cursor [] "p.Outer" decl).result = .ok text ∧
      ∃ doc body, IsClass code cursor "p.Outer" decl (.block (classHead decl) doc body) ∧
        text.splitOn newline = (classHead decl).map (indent cursor.depth ++ ·)
          ++ (doc ++ bodyLines (cursor.depth + 1) body) ++ [[]] ∧
        ∀ depth part, Outline.Inside cursor.depth (.block (classHead decl) doc body) depth part →
          part.lines depth <:+: text.splitOn newline ∧
          (∀ line ∈ part.lines depth, AtDepth depth line) ∧ part.Laid depth := by
  intro color code outer cursor decl text
  have oneLine : ∀ word ∈ decl.words, newline ∉ word := by decide
  have names : decl.defaultNames code.types = [Text.ofString "RED"] := by decide +kernel
  have defaults : ∀ name ∈ decl.defaultNames code.types, newline ∉ name := by
    rw [names, List.forall_mem_singleton]
    decide
  have emitted : (code.emit cursor [] "p.Outer" decl).result = .ok text := by decide +kernel
  exact ⟨oneLine, names, emitted, emit_block_structure code cursor [] "p.Outer" decl text
    (Int.le_refl 0) oneLine defaults emitted⟩

/-- The name of an enum value is printed as it is, so with a line end in it the line
of the default breaks, and goes on without a margin. -/
theorem emit_default_with_line_end :
    let broken : EnumDescriptor := { name := "E", values := [{ name := "A\nB" }] }
    let code : ClassCode :=
      { package := "p", types := .ofDeclarations [("p.E", .enum broken)] }
    let decl : Declaration := .message
      { name := "M", fields := [{ name := "e", typeCode := 14, typeName := ".p.E" }] }
    let text : Text := "@_dc.dataclass\nclass M:\n\n    e: E = E.A\nB\n\n"
    (∀ word ∈ decl.words, newline ∉ word) ∧
      (code.emit { } [] "p.M" decl).result = .ok text ∧
      ∃ line ∈ text.splitOn newline, line ∉ classHead decl ∧ ¬ AtDepth 1 line := by
  intro broken code decl text
  refine ⟨by decide, by decide +kernel, Text.ofString "B", by decide +kernel, by decide, ?_⟩
  rintro (nothing | isIndented)
  · cases nothing
  · exact absurd isIndented (by decide)

end Protoclass.ClassCode
