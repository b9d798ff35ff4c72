import Protoclass.Dataclass.ClassCode
import Protoclass.Proofs.Layout.Outline
import Protoclass.Proofs.Layout.Words

/-!
# Outlines of classes

The outlines of enum values, members, method stubs and of the classes that hold
them, and the proof that the writer prints them.  Between two lines the writer
is determined by its depth and the lines it has written; each step of the class
code takes such a writer to such a writer.
-/

namespace Protoclass.ClassCode

open Docstring (AtDepth indent)
open Outline (Prints bodyLines own?)
open Text (newline ofLines)

/-! ## Writing whole lines -/

/-- A writer at the start of a line. -/
def ready (depth : Int) (lines : List Text) : Writer Nat where
  unit := unit
  level := depth.toNat
  linePrefix := indent depth
  text := ofLines lines

variable {depth : Int} {lines : List Text}

theorem repeated_unit (depth : Int) : Text.repeated unit depth.toNat = indent depth := by
  have levels : unit = List.replicate 4 Text.space := rfl
  rw [Text.repeated_eq, levels, List.flatten_replicate_replicate, indent, Nat.mul_comm]

theorem start_eq_ready (depth : Int) : Writer.start unit depth = ready depth [] := by
  rw [Writer.start, Writer.atLevel, repeated_unit]
  rfl

theorem write_ready {piece : Text} (nonempty : piece ≠ []) :
    (ready depth lines).write piece =
      { ready depth lines with
        text := ofLines lines ++ (indent depth ++ piece), atLineStart := false } := by
  rw [Writer.write, if_pos (by simpa [ready] using nonempty)]
  simp [ready]

theorem line_ready {piece : Text} (nonempty : piece ≠ []) :
    (ready depth lines).line piece = ready depth (lines ++ [indent depth ++ piece]) := by
  rw [Writer.line, write_ready nonempty]
  simp [Writer.newline, ready, Text.ofLines_append, Text.ofLines_cons]

theorem newline_ready : (ready depth lines).newline = ready depth (lines ++ [[]]) := by
  simp [Writer.newline, ready, Text.ofLines_append, Text.ofLines_cons]

theorem raw_ready (more : List Text) :
    (ready depth lines).raw (ofLines more) = ready depth (lines ++ more) := by
  rcases List.eq_nil_or_concat more with rfl | ⟨front, last, rfl⟩
  · rw [List.append_nil]
    rfl
  · have ended : ofLines (front ++ [last]) = ofLines front ++ last ++ "\n" := by
      simp [Text.ofLines_append, Text.ofLines_cons]
    have whole : Text.endsWith (ofLines (front ++ [last])) "\n" = true := by
      rw [Text.endsWith, Option.isSome_iff_exists]
      exact ⟨_, Text.before?_eq_some_iff.mpr ended⟩
    have nonempty : (ofLines (front ++ [last])).isEmpty = false := by
      rw [ended]
      simp
    rw [List.concat_eq_append, Writer.raw, nonempty, whole]
    simp [ready, Text.ofLines_append]

theorem indent_ready (nonneg : 0 ≤ depth) :
    (ready depth lines).indent = ready (depth + 1) lines := by
  have deeper : depth.toNat + 1 = (depth + 1).toNat := by omega
  rw [Writer.indent, Writer.atLevel, ready, ready, deeper, repeated_unit]

theorem dedent_ready (nonneg : 0 ≤ depth) :
    (ready (depth + 1) lines).dedent = ready depth lines := by
  have back : (depth + 1).toNat - 1 = depth.toNat := by omega
  have deep : 0 < (ready (depth + 1) lines).level := by
    simp only [ready]
    omega
  rw [Writer.dedent, if_pos deep, Writer.atLevel, ready, ready, back, repeated_unit]

/-- A step for each of several things writes their parts in turn. -/
theorem foldl_ready {α : Type} {step : Writer Nat → α → Writer Nat} (part : α → Outline)
    (steps : ∀ lines x, step (ready depth lines) x = ready depth (lines ++ (part x).lines depth))
    (xs : List α) (lines : List Text) :
    xs.foldl step (ready depth lines) = ready depth (lines ++ bodyLines depth (xs.map part)) := by
  induction xs generalizing lines with
  | nil => rw [List.foldl_nil, List.map_nil, bodyLines, List.append_nil]
  | cons x rest ih =>
    rw [List.foldl_cons, steps, ih, List.map_cons, bodyLines, List.append_assoc]

/-! ## Docstrings and heads -/

/-- The empty line after the head of a class, a signature or a member, and the
docstring. -/
def docLines (comment : Text) (depth : Int) : List Text :=
  [] :: Text.endedLines (Docstring.statement comment depth)

theorem atDepth_docLines (comment : Text) (depth : Int) :
    ∀ line ∈ docLines comment depth, AtDepth depth line :=
  List.forall_mem_cons.mpr
    ⟨.inl rfl, fun _ => Docstring.atDepth_of_mem_endedLines_statement⟩

theorem newline_notMem_docLines (comment : Text) (depth : Int) :
    ∀ line ∈ docLines comment depth, newline ∉ line :=
  List.forall_mem_cons.mpr
    ⟨List.not_mem_nil, fun _ member => Text.notMem_of_mem_splitOn (List.dropLast_subset _ member)⟩

theorem raw_statement_ready (comment : Text) (deeper : Int) :
    (ready depth lines).newline.raw (Docstring.statement comment deeper) =
      ready depth (lines ++ docLines comment deeper) := by
  rw [newline_ready, ← Docstring.ofLines_endedLines_statement, raw_ready, List.append_assoc]
  rfl

theorem foldl_line_ready {head : List Text} (nonempty : ∀ line ∈ head, line ≠ []) :
    head.foldl Writer.line (ready depth lines) =
      ready depth (lines ++ head.map (indent depth ++ ·)) := by
  induction head generalizing lines with
  | nil => rw [List.foldl_nil, List.map_nil, List.append_nil]
  | cons line head ih =>
    rw [List.foldl_cons, line_ready (nonempty line List.mem_cons_self),
      ih fun other member => nonempty other (List.mem_cons_of_mem line member), List.map_cons,
      List.append_assoc, List.singleton_append]

theorem openClass_eq_ready (nonneg : 0 ≤ depth) (comment : Text) {head : List Text}
    (nonempty : ∀ line ∈ head, line ≠ []) :
    openClass depth comment head =
      ready (depth + 1) (head.map (indent depth ++ ·) ++ docLines comment (depth + 1)) := by
  rw [openClass, start_eq_ready, foldl_line_ready nonempty, List.nil_append, raw_statement_ready,
    indent_ready nonneg]

/-- A part that gives a body a statement of its own and is printed at a
depth. -/
structure Own (depth : Int) (part : Outline) : Prop where
  owned : ∃ text, part.own? = some text
  oneLine : ∀ line ∈ part.lines depth, newline ∉ line
  sound : part.Sound depth

/-! ## Enum values -/

/-- What stands on the line of an enum value behind the value, and goes on in
the lines below. -/
def valueComment (depth : Int) (comment : Text) : Text :=
  if (Docstring.inline comment depth).isEmpty then [] else " " ++ Docstring.inline comment depth

def valueText (value : EnumValue) : Text :=
  value.name ++ " = " ++ Text.ofInt value.number ++ ","

/-- The outline of an enum value. -/
def valueOutline (depth : Int) (entry : EnumValue × Text) : Outline :=
  let shown := Text.splitOn newline (valueComment depth entry.2)
  .statement (valueText entry.1 ++ shown.headD []) (shown.tail ++ [[]])

theorem hanging_valueComment (depth : Int) (comment : Text) :
    Text.Hanging (indent depth) (valueComment depth comment) := by
  rw [valueComment]
  split
  · trivial
  · have blank : newline ∉ Text.ofString " " := by decide
    exact (Text.hanging_of_notMem blank).append (Docstring.hanging_inline comment depth)

/-- The writer in the line of a value, behind the value and its comment. -/
theorem writeValue_eq (w : Writer Nat) (entry : EnumValue × Text) :
    writeValue depth w entry =
      ((w.write (valueText entry.1)).write (valueComment depth entry.2)).newline.newline := by
  rw [writeValue, valueText, valueComment]
  split
  · simp [Writer.write]
  · rfl

theorem valueText_ne_nil (value : EnumValue) : valueText value ≠ [] := by
  simp [valueText, Text.ofString]

theorem writeValue_ready (lines : List Text) (entry : EnumValue × Text) :
    writeValue depth (ready depth lines) entry =
      ready depth (lines ++ (valueOutline depth entry).lines depth) := by
  obtain ⟨first, more, shown⟩ := Text.exists_splitOn_eq_cons newline (valueComment depth entry.2)
  have ended := Text.append_ofLines_splitOn (indent depth ++ valueText entry.1) shown
  rw [writeValue_eq, write_ready (valueText_ne_nil entry.1), valueOutline, Outline.lines, shown]
  have written : ofLines lines ++ (indent depth ++ valueText entry.1)
      ++ valueComment depth entry.2 ++ "\n" ++ "\n" =
        ofLines (lines ++ (indent depth ++ (valueText entry.1 ++ first)) :: (more ++ [[]])) := by
    rw [Text.ofLines_append, ← List.cons_append, Text.ofLines_append,
      ← List.append_assoc (indent depth) _ first, ← ended]
    simp [Text.ofLines_cons]
  simpa [Writer.write, Writer.newline, ready] using written

theorem own_valueOutline {entry : EnumValue × Text} (oneLine : newline ∉ entry.1.name) :
    Own depth (valueOutline depth entry) where
  owned := ⟨_, rfl⟩
  oneLine := by
    obtain ⟨first, more, shown⟩ := Text.exists_splitOn_eq_cons newline (valueComment depth entry.2)
    have pieces : ∀ piece ∈ first :: more, newline ∉ piece := by
      rw [← shown]
      exact fun _ => Text.notMem_of_mem_splitOn
    rw [valueOutline, Outline.lines, shown]
    simp only [List.forall_mem_cons, List.forall_mem_append] at pieces ⊢
    refine ⟨?_, pieces.2, List.not_mem_nil, by simp⟩
    simp only [valueText, List.headD_cons, List.mem_append, not_or]
    exact ⟨Docstring.newline_notMem_indent depth,
      ⟨⟨⟨oneLine, by decide⟩, newline_notMem_ofInt entry.1.number⟩, by decide⟩, pieces.1⟩
  sound := by
    refine .statement (List.forall_mem_append.mpr ⟨?_, by simp [AtDepth]⟩)
    intro line member
    exact .inr ((hanging_valueComment depth entry.2).lines
      (Docstring.newline_notMem_indent depth) line member)

/-! ## Method stubs -/

def signature (code : ClassCode) (method : MethodDescriptor) : Text :=
  "def " ++ method.name ++ "(self, request: " ++ TypeHint.typeName code.package method.inputType
    ++ ") -> " ++ TypeHint.typeName code.package method.outputType ++ ":"

/-- The outline of a method stub. -/
def stubOutline (code : ClassCode) (depth : Int) (entry : MethodDescriptor × Text) : Outline :=
  .stub (code.signature entry.1) (docLines entry.2 (depth + 1))

variable {code : ClassCode}

theorem writeMethod_ready (nonneg : 0 ≤ depth) (lines : List Text)
    (entry : MethodDescriptor × Text) :
    writeMethod code depth (ready depth lines) entry =
      ready depth (lines ++ (stubOutline code depth entry).lines depth) := by
  have nonempty : code.signature entry.1 ≠ [] := by simp [signature, Text.ofString]
  have opened : writeMethod code depth (ready depth lines) entry =
      ((((((ready depth lines).line (code.signature entry.1)).newline.raw
        (Docstring.statement entry.2 (depth + 1))).indent).line "pass").newline).dedent := rfl
  rw [opened, line_ready nonempty, raw_statement_ready, indent_ready nonneg,
    line_ready (by decide), newline_ready, dedent_ready nonneg, stubOutline, Outline.lines]
  simp

theorem own_stubOutline {entry : MethodDescriptor × Text}
    (oneLine : ∀ word ∈ entry.1.words, newline ∉ word) :
    Own depth (stubOutline code depth entry) where
  owned := ⟨_, rfl⟩
  oneLine := by
    obtain ⟨ofName, ofInput, ofOutput⟩ : newline ∉ entry.1.name ∧ newline ∉ entry.1.inputType ∧
        newline ∉ entry.1.outputType := by
      simpa [MethodDescriptor.words] using oneLine
    rw [stubOutline, Outline.lines]
    simp only [List.forall_mem_cons, List.forall_mem_append]
    refine ⟨?_, newline_notMem_docLines entry.2 (depth + 1), ?_, List.not_mem_nil, by simp⟩
    · simp only [signature, List.mem_append, not_or]
      exact ⟨Docstring.newline_notMem_indent depth, ⟨⟨⟨⟨⟨by decide, ofName⟩, by decide⟩,
        TypeHint.newline_notMem_typeName ofInput⟩, by decide⟩,
        TypeHint.newline_notMem_typeName ofOutput⟩, by decide⟩
    · rw [List.mem_append, not_or]
      exact ⟨Docstring.newline_notMem_indent (depth + 1), by decide⟩
  sound := .stub (atDepth_docLines entry.2 (depth + 1))

/-! ## Members -/

/-- The outline is that of a field's member: its name, the hint and the default
it has, and its docstring below. -/
def IsMember (code : ClassCode) (depth : Int) (message : MessageDescriptor) (fullName : Text)
    (entry : FieldDescriptor × Text) (outline : Outline) : Prop :=
  ∃ hint value,
    TypeHint.hint code.package entry.1 (FieldShape.of entry.1 message fullName) = .ok hint ∧
    TypeHint.defaultValue code.package entry.1 (FieldShape.of entry.1 message fullName) code.types
      = .ok value ∧
    outline = .statement (entry.1.name ++ ": " ++ hint ++ " = " ++ value) (docLines entry.2 depth)

theorem exists_isMember {message : MessageDescriptor} {fullName text : Text}
    {entry : FieldDescriptor × Text} (made : member code depth message fullName entry = .ok text) :
    ∃ outline, IsMember code depth message fullName entry outline ∧
      text = ofLines (outline.lines depth) := by
  rw [member] at made
  obtain ⟨hint, hinted, made⟩ := Result.bind_eq_ok_iff.mp made
  obtain ⟨value, valued, made⟩ := Result.bind_eq_ok_iff.mp made
  refine ⟨_, ⟨hint, value, hinted, valued, rfl⟩, ?_⟩
  have nonempty : (entry.1.name ++ ": " ++ hint ++ " = " ++ value : Text) ≠ [] := by
    simp [Text.ofString]
  dsimp only at made
  rw [start_eq_ready, line_ready nonempty, raw_statement_ready] at made
  cases made
  rw [Outline.lines]
  rfl

theorem IsMember.own {message : MessageDescriptor} {fullName : Text}
    {entry : FieldDescriptor × Text} {outline : Outline}
    (isMember : IsMember code depth message fullName entry outline)
    (ofWords : ∀ word ∈ entry.1.words, newline ∉ word)
    (ofDefault : ∀ name ∈ entry.1.defaultName? code.types, newline ∉ name)
    (ofEntries : ∀ inner ∈ message.nested, ∀ field ∈ inner.fields, newline ∉ field.typeName) :
    Own depth outline := by
  obtain ⟨hint, value, hinted, valued, rfl⟩ := isMember
  obtain ⟨ofName, ofType⟩ : newline ∉ entry.1.name ∧ newline ∉ entry.1.typeName := by
    simpa [FieldDescriptor.words] using ofWords
  have ofHint : newline ∉ hint := by
    refine TypeHint.newline_notMem_hint ofType ?_ hinted
    exact fun inner mapped => ofEntries inner (FieldShape.mem_nested_of_map mapped)
  have ofValue : newline ∉ value := TypeHint.newline_notMem_defaultValue ofType ofDefault valued
  refine ⟨⟨_, rfl⟩, ?_, .statement (atDepth_docLines entry.2 depth)⟩
  rw [Outline.lines, List.forall_mem_cons]
  refine ⟨?_, newline_notMem_docLines entry.2 depth⟩
  simp only [List.mem_append, not_or]
  exact ⟨Docstring.newline_notMem_indent depth,
    ⟨⟨⟨ofName, by decide⟩, ofHint⟩, by decide⟩, ofValue⟩

/-! ## Classes -/

/-- The parts of a body, or `pass` in a body without any. -/
def orPass (parts : List Outline) : List Outline :=
  if parts.isEmpty then [Outline.pass] else parts

theorem own_pass (depth : Int) : Own depth Outline.pass where
  owned := ⟨_, rfl⟩
  oneLine := by
    rw [Outline.pass, Outline.lines]
    simp only [List.forall_mem_cons, List.mem_append, not_or]
    exact ⟨⟨Docstring.newline_notMem_indent depth, by decide⟩, List.not_mem_nil, by simp⟩
  sound := Outline.sound_pass depth

theorem own_orPass {parts : List Outline} (own : ∀ part ∈ parts, Own depth part) :
    orPass parts ≠ [] ∧ ∀ part ∈ orPass parts, Own depth part := by
  cases parts with
  | nil => exact ⟨List.cons_ne_nil _ _, List.forall_mem_singleton.mpr (own_pass depth)⟩
  | cons part rest => exact ⟨List.cons_ne_nil _ _, own⟩

theorem exists_owned {parts : List Outline} (nonempty : parts ≠ [])
    (own : ∀ part ∈ parts, Own depth part) : ∃ part ∈ parts, ∃ text, part.own? = some text := by
  obtain ⟨part, member⟩ := List.exists_mem_of_ne_nil parts nonempty
  exact ⟨part, member, (own part member).owned⟩

theorem prints_own {parts : List Outline} (own : ∀ part ∈ parts, Own depth part) :
    Prints depth parts (ofLines (bodyLines depth parts)) := by
  refine ⟨rfl, ?_, fun part member => (own part member).sound⟩
  intro line member
  obtain ⟨part, among, inPart⟩ := Outline.mem_bodyLines.mp member
  exact (own part among).oneLine line inPart

/-- A class is printed by its head, its docstring and its body one level
deeper. -/
theorem prints_block {head : List Text} {comment : Text} {body : List Outline} {text : Text}
    (oneLine : ∀ line ∈ head, newline ∉ line)
    (owned : ∃ part ∈ body, ∃ text, part.own? = some text)
    (inner : Prints (depth + 1) body text) :
    Prints depth [.block head (docLines comment (depth + 1)) body]
      (ofLines (head.map (indent depth ++ ·) ++ docLines comment (depth + 1)) ++ text) where
  text_eq := by
    rw [Outline.bodyLines_singleton, Outline.lines, ← List.append_assoc, inner.text_eq,
      ← Text.ofLines_append]
  oneLine := by
    rw [Outline.bodyLines_singleton, Outline.lines]
    simp only [List.forall_mem_append, List.forall_mem_map]
    refine ⟨?_, newline_notMem_docLines comment (depth + 1), inner.oneLine⟩
    intro line member
    rw [List.mem_append, not_or]
    exact ⟨Docstring.newline_notMem_indent depth, oneLine line member⟩
  sound := List.forall_mem_singleton.mpr
    (.block (atDepth_docLines comment (depth + 1)) owned inner.sound)

/-- The outline of the class of an enum. -/
def enumOutline (depth : Int) (comment name : Text) (values : List (EnumValue × Text)) : Outline :=
  .block ["class " ++ name ++ "(_enum.Enum):"] (docLines comment (depth + 1))
    (orPass (values.map (valueOutline (depth + 1))))

/-- The outline of the class of a service. -/
def serviceOutline (code : ClassCode) (depth : Int) (comment name : Text)
    (methods : List (MethodDescriptor × Text)) : Outline :=
  .block ["class " ++ name ++ ":"] (docLines comment (depth + 1))
    (orPass (methods.map (stubOutline code (depth + 1))))

theorem pass_ready : ((ready depth lines).line "pass").newline =
    ready depth (lines ++ bodyLines depth [Outline.pass]) := by
  rw [line_ready (by decide), newline_ready, Outline.bodyLines_singleton, Outline.pass,
    Outline.lines, List.append_assoc, List.singleton_append]

/-- A class of one head line whose body has only statements of its own. -/
theorem prints_simpleClass {head comment text : Text} {parts : List Outline}
    (ofHead : newline ∉ head) (own : ∀ part ∈ parts, Own (depth + 1) part)
    (written : text = (ready (depth + 1) ([head].map (indent depth ++ ·)
      ++ docLines comment (depth + 1) ++ bodyLines (depth + 1) (orPass parts))).text) :
    Prints depth [.block [head] (docLines comment (depth + 1)) (orPass parts)] text := by
  obtain ⟨nonempty, ownBody⟩ := own_orPass own
  rw [written, ready, Text.ofLines_append]
  exact prints_block (List.forall_mem_singleton.mpr ofHead) (exists_owned nonempty ownBody)
    (prints_own ownBody)

theorem prints_enumClass (nonneg : 0 ≤ depth) (comment : Text) {name : Text}
    {values : List (EnumValue × Text)} (ofName : newline ∉ name)
    (ofValues : ∀ entry ∈ values, newline ∉ entry.1.name) :
    Prints depth [enumOutline depth comment name values] (enumClass depth comment name values) := by
  apply prints_simpleClass
  · simp only [List.mem_append, not_or]
    exact ⟨⟨by decide, ofName⟩, by decide⟩
  · rw [List.forall_mem_map]
    exact fun entry member => own_valueOutline (ofValues entry member)
  · have nonempty : ∀ line ∈ [("class " ++ name ++ "(_enum.Enum):" : Text)], line ≠ [] := by
      simp [Text.ofString]
    rw [enumClass, openClass_eq_ready nonneg comment nonempty]
    cases values with
    | nil => exact congrArg Writer.text pass_ready
    | cons value rest =>
      exact congrArg Writer.text (foldl_ready (valueOutline (depth + 1)) writeValue_ready _ _)

theorem prints_serviceClass (nonneg : 0 ≤ depth) (comment : Text) {name : Text}
    {methods : List (MethodDescriptor × Text)} (ofName : newline ∉ name)
    (ofMethods : ∀ entry ∈ methods, ∀ word ∈ entry.1.words, newline ∉ word) :
    Prints depth [serviceOutline code depth comment name methods]
      (serviceClass code depth comment name methods) := by
  apply prints_simpleClass
  · simp only [List.mem_append, not_or]
    exact ⟨⟨by decide, ofName⟩, by decide⟩
  · rw [List.forall_mem_map]
    exact fun entry member => own_stubOutline (ofMethods entry member)
  · have nonempty : ∀ line ∈ [("class " ++ name ++ ":" : Text)], line ≠ [] := by
      simp [Text.ofString]
    rw [serviceClass, openClass_eq_ready nonneg comment nonempty]
    cases methods with
    | nil => exact congrArg Writer.text pass_ready
    | cons method rest =>
      exact congrArg Writer.text
        (foldl_ready (stubOutline code (depth + 1)) (writeMethod_ready (by omega)) _ _)

/-- The class of a message, with the classes inside it before its members. -/
theorem prints_messageClass (nonneg : 0 ≤ depth) (comment : Text) {name text : Text}
    {classes members : List Outline} (ofName : newline ∉ name)
    (printed : Prints (depth + 1) classes text) (nonempty : members ≠ [])
    (own : ∀ part ∈ members, Own (depth + 1) part) :
    Prints depth [.block ["@_dc.dataclass", "class " ++ name ++ ":"]
        (docLines comment (depth + 1)) (classes ++ members)]
      ((openClass depth comment ["@_dc.dataclass", "class " ++ name ++ ":"]).text ++ text
        ++ ofLines (bodyLines (depth + 1) members)) := by
  have visible : ∀ line ∈ (["@_dc.dataclass", "class " ++ name ++ ":"] : List Text),
      line ≠ [] := by
    simp [Text.ofString]
  have oneLine : ∀ line ∈ (["@_dc.dataclass", "class " ++ name ++ ":"] : List Text),
      newline ∉ line := by
    simp only [List.forall_mem_cons, List.mem_append, not_or]
    exact ⟨by decide, ⟨⟨by decide, ofName⟩, by decide⟩, by simp⟩
  have owned : ∃ part ∈ classes ++ members, ∃ text, part.own? = some text := by
    obtain ⟨part, among, owned⟩ := exists_owned nonempty own
    exact ⟨part, List.mem_append_right classes among, owned⟩
  rw [openClass_eq_ready nonneg comment visible, List.append_assoc _ text]
  exact prints_block oneLine owned (printed.append (prints_own own))

end Protoclass.ClassCode
