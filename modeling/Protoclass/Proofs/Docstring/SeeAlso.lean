import Mathlib.Data.List.TakeWhile
import Protoclass.Proofs.Docstring.Margin

/-!
# References that follow one another

A comment whose lines are references to classes becomes one `seealso` block.  Each
reference is first a block of its own; merging then takes the head of each block but
the first, together with the line end before it, and leaves a comma.  A place that is
merged ends where the entry of the next block begins, so that the next place starts
there: the induction goes over the blocks.
-/

namespace Protoclass

/-- Pieces that all start alike. -/
theorem Text.join_map_append (sep front : Text) {pieces : List Text} (nonempty : pieces ≠ []) :
    Text.join sep (pieces.map (front ++ ·)) = front ++ Text.join (sep ++ front) pieces := by
  induction pieces with
  | nil => contradiction
  | cons piece pieces ih =>
    cases pieces with
    | nil => rfl
    | cons next rest =>
      have inner := ih (List.cons_ne_nil next rest)
      rw [List.map_cons, List.map_cons, join_cons_cons, ← List.map_cons, inner, join_cons_cons]
      simp only [List.append_assoc]

/-- Whole lines are lines with line ends between and one behind. -/
theorem Text.ofLines_eq_join {lines : List Text} (nonempty : lines ≠ []) :
    Text.ofLines lines = Text.join "\n" lines ++ "\n" := by
  induction lines with
  | nil => contradiction
  | cons line lines ih =>
    rw [ofLines_cons]
    cases lines with
    | nil => rfl
    | cons next rest =>
      rw [ih (List.cons_ne_nil next rest), join_cons_cons]
      simp

namespace Reference

open Text (newline dot)

/-! ## Dotted names -/

/-- A dotted name: words with dots between. -/
structure Name where
  above : List Text
  last : Text
  words : ∀ word ∈ above ++ [last], word ≠ [] ∧ ∀ b ∈ word, isWordByte b = true

namespace Name

/-- The words of a name. -/
def parts (name : Name) : List Text := name.above ++ [name.last]

/-- A name as it is written. -/
def text (name : Name) : Text := Text.join "." name.parts

theorem parts_ne_nil (name : Name) : name.parts ≠ [] := by simp [parts]

theorem isWordByte_or_dot (name : Name) {b : UInt8} (member : b ∈ name.text) :
    isWordByte b = true ∨ b = dot := by
  rcases Text.mem_join member with inDot | ⟨word, among, inWord⟩
  · exact .inr (List.mem_singleton.mp inDot)
  · exact .inl ((name.words word among).2 b inWord)

/-- A byte that is in no word, and not a dot, is not in a name. -/
theorem notMem_text (name : Name) {b : UInt8} (other : isWordByte b = false) (apart : b ≠ dot) :
    b ∉ name.text := by
  intro member
  rcases name.isWordByte_or_dot member with isWord | isDot
  · rw [isWord] at other
    contradiction
  · exact apart isDot

end Name

/-- The text has ended, or its line has. -/
def Ended (rest : Text) : Prop := ∀ b ∈ rest.head?, b = newline

theorem dottedRun_of_ended {rest : Text} (ended : Ended rest) : dottedRun rest = [] := by
  cases rest with
  | nil => rfl
  | cons b rest =>
    obtain rfl := ended b rfl
    cases rest with
    | nil => rfl
    | cons c rest => cases rest <;> rfl

theorem dottedRun_append {run rest : Text} (inside : ∀ b ∈ run, isWordByte b = true ∨ b = dot)
    (ended : Ended rest) : dottedRun (run ++ rest) = run := by
  induction run with
  | nil => exact dottedRun_of_ended ended
  | cons b run ih =>
    rw [List.forall_mem_cons] at inside
    rw [List.cons_append, dottedRun.eq_def]
    simp only [inside.1, Bool.or_eq_true, beq_iff_eq, if_true, ih inside.2]

theorem dottedName_append (name : Name) {rest : Text} (ended : Ended rest) :
    dottedName (name.text ++ rest) = name.parts := by
  have undivided : ∀ word ∈ name.parts, dot ∉ word := by
    intro word member inWord
    exact absurd ((name.words word member).2 dot inWord) (by decide)
  have split : name.text.splitOn dot = name.parts :=
    Text.splitOn_join name.parts_ne_nil undivided
  rw [dottedName, dottedRun_append (fun b => name.isWordByte_or_dot) ended, split,
    List.takeWhile_eq_self_iff]
  intro word member
  simpa using (name.words word member).1

/-! ## One reference -/

/-- A reference to a class. -/
def see (name : Name) : Text := "@see " ++ name.text

theorem afterFolded?_see (name : Name) (rest : Text) :
    Text.afterFolded? "@see " (see name ++ rest) = some (name.text ++ rest) := rfl

theorem drop_text (name : Name) (rest : Text) :
    (name.text ++ rest).drop (Text.join "." name.parts).length = rest :=
  List.drop_left

/-- A name without parentheses behind it is not that of a method. -/
theorem methodRule_see (margin : Text) (name : Name) {rest : Text} (ended : Ended rest) :
    methodRule margin (see name ++ rest) = none := by
  have uncalled : Text.after? "()" rest = none := by
    cases rest with
    | nil => rfl
    | cons b rest =>
      obtain rfl := ended b rfl
      rfl
  rw [methodRule, afterFolded?_see]
  simp only [Option.bind_eq_bind, Option.bind_some, dottedName_append name ended, drop_text,
    uncalled, Option.bind_none, ite_self]

theorem classRule_see (margin : Text) (name : Name) {rest : Text} (ended : Ended rest) :
    classRule margin (see name ++ rest) =
      some (classEntry margin name.parts, (see name).length) := by
  rw [classRule, afterFolded?_see]
  simp only [Option.bind_eq_bind, Option.bind_some, dottedName_append name ended, drop_text,
    List.isEmpty_eq_false_iff.mpr name.parts_ne_nil, Bool.false_eq_true, if_false,
    List.length_append, Nat.add_sub_cancel]

/-- A rule that applies takes what it applies to, and goes on behind it. -/
theorem replaceAll_of_applies {rule : Rule} {front rest new : Text} (nonempty : front ≠ [])
    (applies : rule (front ++ rest) = some (new, front.length)) :
    replaceAll rule (front ++ rest) = new ++ replaceAll rule rest := by
  obtain ⟨b, front, rfl⟩ := List.exists_cons_of_ne_nil nonempty
  rw [List.cons_append] at applies ⊢
  rw [replaceAll, replaceFrom, applies]
  simp only [List.length_cons, Nat.add_sub_cancel]
  rw [replaceFrom_eq_drop, List.drop_left, replaceAll]

/-! ## Lines of references -/

/-- A pattern that begins with a byte below the letters matches only behind that byte. -/
theorem afterFolded?_cons_eq_none {p b : UInt8} (caseless : p < 65) (other : b ≠ p)
    (pattern rest : Text) : Text.afterFolded? (p :: pattern) (b :: rest) = none := by
  have unlike : Text.lower b ≠ p := by
    unfold Text.lower
    grind
  have unmatched : Text.afterFoldedByte? p (b :: rest) = none := by
    have noLetter : p ≠ 115 ∧ p ≠ 107 := by grind
    simp [Text.afterFoldedByte?, unlike, noLetter]
  rw [Text.afterFolded?, unmatched]

/-- A reference starts with an at sign. -/
theorem afterFolded?_see_eq_none {b : UInt8} (other : b ≠ 64) (rest : Text) :
    Text.afterFolded? "@see " (b :: rest) = none :=
  afterFolded?_cons_eq_none (by decide) other "see " rest

theorem inert_methodRule_of_ne (margin : Text) {b : UInt8} (other : b ≠ 64) :
    Inert (methodRule margin) b := by
  intro rest
  rw [methodRule, afterFolded?_see_eq_none other]
  rfl

theorem replaceAll_methodRule_see (margin : Text) (name : Name) {rest : Text}
    (ended : Ended rest) :
    replaceAll (methodRule margin) (see name ++ rest) =
      see name ++ replaceAll (methodRule margin) rest := by
  have unapplied := methodRule_see margin name ended
  have first : see name = 64 :: (Text.ofString "see " ++ name.text) := rfl
  have inert : ∀ b ∈ Text.ofString "see " ++ name.text, Inert (methodRule margin) b := by
    intro b member
    apply inert_methodRule_of_ne
    rintro rfl
    rw [List.mem_append] at member
    rcases member with inWord | inName
    · exact absurd inWord (by decide)
    · exact name.notMem_text (by decide) (by decide) inName
  rw [first, List.cons_append] at unapplied ⊢
  rw [replaceAll, replaceFrom, unapplied, List.cons_append]
  exact congrArg (64 :: ·) (replaceAll_append inert rest)

theorem replaceAll_classRule_see (margin : Text) (name : Name) {rest : Text}
    (ended : Ended rest) :
    replaceAll (classRule margin) (see name ++ rest) =
      classEntry margin name.parts ++ replaceAll (classRule margin) rest := by
  apply replaceAll_of_applies _ (classRule_see margin name ended)
  simp [see, Text.ofString]

/-- The lines of some references behind a margin, with `shown` for each reference. -/
def lines (margin : Text) (shown : Name → Text) (names : List Name) : Text :=
  Text.join "\n" (names.map fun name => margin ++ shown name)

/-- A rule that is inert at margins and line ends acts on each reference apart. -/
theorem replaceAll_lines {margin : Text} {rule : Rule} {shown shown' : Name → Text}
    (inert : ∀ b ∈ margin, Inert rule b) (inertEnd : Inert rule newline)
    (each : ∀ name rest, Ended rest →
      replaceAll rule (shown name ++ rest) = shown' name ++ replaceAll rule rest)
    (names : List Name) :
    replaceAll rule (lines margin shown names) = lines margin shown' names := by
  induction names with
  | nil => rfl
  | cons name names ih =>
    cases names with
    | nil =>
      have alone := each name [] (by simp [Ended])
      rw [List.append_nil] at alone
      rw [lines, List.map_singleton, Text.join, replaceAll_append inert, alone, lines,
        List.map_singleton, Text.join]
      simp [replaceAll, replaceFrom]
    | cons next rest =>
      have split (shown : Name → Text) : lines margin shown (name :: next :: rest) =
          margin ++ (shown name ++ ([newline] ++ lines margin shown (next :: rest))) := by
        simp [lines, Text.join]
      rw [split, split, replaceAll_append inert, each name _ (by simp [Ended]),
        replaceAll_append (by simpa using inertEnd), ih]

/-! ## Merged blocks -/

/-- The head of a block. -/
def blockHead : Text := ".. seealso::\n"

/-- What an entry for a class starts with. -/
def role : Text := ":class:"

/-- What stands behind the role in the entry of a name. -/
def entryTail (name : Name) : Text := "`" ++ name.last ++ " <" ++ name.text ++ ">`"

/-- The entry of a name, on a line behind a margin. -/
def entry (margin : Text) (name : Name) : Text := margin ++ role ++ entryTail name

theorem classEntry_eq (margin : Text) (name : Name) :
    classEntry margin name.parts = blockHead ++ entry margin name := by
  have shown : name.parts.getLast?.getD [] = name.last := by simp [Name.parts]
  rw [classEntry, shown]
  simp only [blockHead, entry, entryTail, List.append_assoc]
  rfl

theorem newline_notMem_entryTail (name : Name) : newline ∉ entryTail name := by
  have inLast : newline ∉ name.last := by
    intro member
    exact absurd ((name.words name.last (by simp)).2 newline member) (by decide)
  simp only [entryTail, List.mem_append, not_or]
  exact ⟨⟨⟨⟨by decide, inLast⟩, by decide⟩, name.notMem_text (by decide) (by decide)⟩, by decide⟩

theorem replaceAll_mergeRule_of_oneLine {text : Text} (oneLine : newline ∉ text) :
    replaceAll mergeRule text = text := by
  induction text with
  | nil => rfl
  | cons b rest ih =>
    have unapplied : mergeRule (b :: rest) = none := by
      rw [Option.eq_none_iff_forall_ne_some]
      rintro ⟨new, taken⟩ applied
      obtain ⟨line, skipped, back, -, -, split, -⟩ := mergeRule_eq_some applied
      rw [split] at oneLine
      exact oneLine (by simp)
    have inner := ih fun member => oneLine (List.mem_cons_of_mem b member)
    rw [replaceAll, replaceFrom, unapplied]
    exact congrArg (b :: ·) inner

theorem replaceAll_mergeRule_blockHead (rest : Text) :
    replaceAll mergeRule (blockHead ++ rest) = blockHead ++ replaceAll mergeRule rest := rfl

section

variable {margin deeper : Text} (spaces : ∀ b ∈ margin, b = Text.space)
  (spaces' : ∀ b ∈ deeper, b = Text.space)

include spaces

/-- The rest of the line with an entry is merged with the block on the next line. -/
theorem mergeRule_entry (name : Name) (rest : Text) :
    mergeRule ((role ++ entryTail name ++ newline :: (margin ++ blockHead)) ++ rest) =
      some (role ++ entryTail name ++ ",\n",
        (role ++ entryTail name ++ newline :: (margin ++ blockHead)).length) := by
  have folded : Text.afterFolded? ":class:" (role ++ (entryTail name ++ newline ::
      (margin ++ (blockHead ++ rest)))) =
        some (entryTail name ++ newline :: (margin ++ (blockHead ++ rest))) := rfl
  have ended : (entryTail name ++ newline :: (margin ++ (blockHead ++ rest))).dropWhile
      (· != newline) = newline :: (margin ++ (blockHead ++ rest)) := by
    rw [List.dropWhile_append_of_pos]
    · rfl
    · intro b member
      rw [bne_iff_ne]
      rintro rfl
      exact newline_notMem_entryTail name member
  have gap : (margin ++ (blockHead ++ rest)).dropWhile isGap = blockHead ++ rest := by
    rw [List.dropWhile_append_of_pos]
    · rfl
    · intro b member
      rw [spaces b member]
      rfl
  have below : Text.after? "\n" (newline :: (margin ++ (blockHead ++ rest))) =
      some (margin ++ (blockHead ++ rest)) := rfl
  have head : Text.afterFolded? ".. seealso::\n" (blockHead ++ rest) = some rest := rfl
  simp only [mergeRule, List.append_assoc, List.cons_append, folded, ended, below, gap, head,
    Option.bind_eq_bind, Option.bind_some]
  have taken : ((role ++ entryTail name ++ newline :: (margin ++ blockHead)) ++ rest).length -
      rest.length = (role ++ entryTail name ++ newline :: (margin ++ blockHead)).length := by
    rw [List.length_append, Nat.add_sub_cancel]
  have line : ((role ++ entryTail name) ++ newline :: (margin ++ (blockHead ++ rest))).take
      (((role ++ entryTail name) ++ newline :: (margin ++ (blockHead ++ rest))).length -
        (newline :: (margin ++ (blockHead ++ rest))).length) = role ++ entryTail name := by
    rw [List.length_append, Nat.add_sub_cancel, List.take_left]
  simp only [List.append_assoc, List.cons_append] at taken line
  rw [taken, line, List.append_assoc]

include spaces'

theorem replaceAll_mergeRule_entry (name : Name) (rest : Text) :
    replaceAll mergeRule (entry deeper name ++ newline :: (margin ++ blockHead) ++ rest) =
      entry deeper name ++ ",\n" ++ replaceAll mergeRule rest := by
  have inert : ∀ b ∈ deeper, Inert mergeRule b := by
    intro b member
    rw [spaces' b member]
    exact inert_mergeRule
  have nonempty : role ++ entryTail name ++ newline :: (margin ++ blockHead) ≠ [] := by simp
  have merged := replaceAll_of_applies nonempty (mergeRule_entry spaces name rest)
  simp only [entry, List.append_assoc] at merged ⊢
  rw [replaceAll_append inert, merged]

/-- The entries of blocks that follow one another are merged into one block. -/
theorem replaceAll_mergeRule_entries {names : List Name} (nonempty : names ≠ []) :
    replaceAll mergeRule
        (Text.join (newline :: (margin ++ blockHead)) (names.map (entry deeper))) =
      Text.join ",\n" (names.map (entry deeper)) := by
  induction names with
  | nil => contradiction
  | cons name names ih =>
    cases names with
    | nil =>
      apply replaceAll_mergeRule_of_oneLine
      simp only [List.map_singleton, Text.join, entry, List.mem_append, not_or]
      refine ⟨⟨fun member => ?_, by decide⟩, newline_notMem_entryTail name⟩
      exact absurd (spaces' newline member) (by decide)
    | cons next rest =>
      have inner := ih (List.cons_ne_nil next rest)
      rw [List.map_cons, List.map_cons, Text.join_cons_cons, Text.join_cons_cons,
        replaceAll_mergeRule_entry spaces spaces', ← List.map_cons, inner]

/-- References that follow one another become one block. -/
theorem expand_lines {names : List Name} (nonempty : names ≠ []) :
    expand deeper (lines margin see names) =
      margin ++ blockHead ++ Text.join ",\n" (names.map (entry deeper)) := by
  have inert {rule : Rule} (inert : Inert rule Text.space) : ∀ b ∈ margin, Inert rule b := by
    intro b member
    rw [spaces b member]
    exact inert
  have methods : replaceAll (methodRule deeper) (lines margin see names) =
      lines margin see names :=
    replaceAll_lines (inert (inert_methodRule deeper)) (fun _ => rfl)
      (fun name _ => replaceAll_methodRule_see deeper name) names
  have classes : replaceAll (classRule deeper) (lines margin see names) =
      lines margin (fun name => classEntry deeper name.parts) names :=
    replaceAll_lines (inert (inert_classRule deeper)) (fun _ => rfl)
      (fun name _ => replaceAll_classRule_see deeper name) names
  have blocks : lines margin (fun name => classEntry deeper name.parts) names =
      margin ++ (blockHead ++
        Text.join (newline :: (margin ++ blockHead)) (names.map (entry deeper))) := by
    have nonempty' : names.map (entry deeper) ≠ [] := by simpa using nonempty
    have alike := Text.join_map_append "\n" (margin ++ blockHead) nonempty'
    rw [List.map_map] at alike
    simp only [lines, classEntry_eq, ← List.append_assoc margin]
    exact alike
  rw [expand, methods, classes, blocks, replaceAll_append (inert inert_mergeRule),
    replaceAll_mergeRule_blockHead, replaceAll_mergeRule_entries spaces spaces' nonempty,
    List.append_assoc]

end

end Reference

/-! ## Comments of references -/

namespace Docstring

open Reference (Name)

theorem dropOpening_space (rest : Text) :
    dropOpening (Text.space :: rest) = Text.space :: rest := rfl

theorem dropClosing_of_notMem {text : Text} (noSlash : Text.slash ∉ text) :
    dropClosing text = text := by
  have unmarked : Text.before? "*/" (Text.trimRight text) = none := by
    rw [Option.eq_none_iff_forall_ne_some]
    intro rest found
    obtain ⟨back, split, -⟩ := Text.exists_trimRight_append text
    have marked : Text.slash ∈ Text.ofString "*/" := by decide
    rw [← split, Text.before?_eq_some_iff.mp found] at noSlash
    exact noSlash (by simp [marked])
  rw [dropClosing, unmarked]
  rfl

/-- A line of a comment with a reference to a class. -/
def seeLine (name : Name) : Text := " @see " ++ name.text

theorem notMem_seeLine (name : Name) {b : UInt8} (other : Reference.isWordByte b = false)
    (apart : b ≠ Text.dot) (unlike : b ∉ Text.ofString " @see ") : b ∉ seeLine name := by
  rw [seeLine, List.mem_append, not_or]
  exact ⟨unlike, name.notMem_text other apart⟩

theorem stripMarkers_seeLines {names : List Name} (nonempty : names ≠ []) :
    stripMarkers (Text.ofLines (names.map seeLine)) = Text.join "\n" (names.map seeLine) := by
  have nonempty' : names.map seeLine ≠ [] := by simpa using nonempty
  have unended : Text.dropTail (Text.ofLines (names.map seeLine)) "\n" =
      Text.join "\n" (names.map seeLine) := by
    rw [Text.dropTail, Text.before?_eq_some_iff.mpr (Text.ofLines_eq_join nonempty')]
    rfl
  have opening : dropOpening (Text.join "\n" (names.map seeLine)) =
      Text.join "\n" (names.map seeLine) := by
    obtain ⟨name, rest, rfl⟩ := List.exists_cons_of_ne_nil nonempty
    cases rest <;> exact dropOpening_space _
  have noSlash : Text.slash ∉ Text.join "\n" (names.map seeLine) := by
    intro member
    rcases Text.mem_join member with inEnd | ⟨line, among, inLine⟩
    · exact absurd inEnd (by decide)
    · obtain ⟨name, -, rfl⟩ := List.mem_map.mp among
      exact notMem_seeLine name (by decide) (by decide) (by decide) inLine
  rw [stripMarkers, unended, opening, dropClosing_of_notMem noSlash]

theorem indented_seeLines (depth : Int) {names : List Name} (nonempty : names ≠ []) :
    indented depth (Text.join "\n" (names.map seeLine)) =
      Reference.lines (indent depth) Reference.see names := by
  have divided : (Text.join "\n" (names.map seeLine)).splitOn Text.newline =
      names.map seeLine := by
    apply Text.splitOn_join (by simpa using nonempty)
    intro line member
    obtain ⟨name, -, rfl⟩ := List.mem_map.mp member
    exact notMem_seeLine name (by decide) (by decide) (by decide)
  rw [indented, divided, List.map_map]
  rfl

/-- A comment whose lines are references to classes becomes one block: its head, and
an entry for each reference in order, with a comma between two of them. -/
theorem body_of_references (names : List Name) (nonempty : names ≠ []) (depth : Nat) :
    body (Text.ofLines (names.map fun name => " @see " ++ name.text)) depth =
      indent depth ++ ".. seealso::\n" ++ Text.join ",\n" (names.map fun name =>
        indent (depth + 1) ++ ":class:`" ++ name.last ++ " <" ++ name.text ++ ">`") := by
  have given : (Text.ofLines (names.map seeLine)).isEmpty = false := by
    rw [Text.ofLines_eq_join (by simpa using nonempty)]
    simp
  have expanded : Reference.expand (indent (depth + 1)) (indented depth (stripMarkers
      (Text.ofLines (names.map seeLine)))) = indent depth ++ Reference.blockHead ++
        Text.join ",\n" (names.map (Reference.entry (indent (depth + 1)))) := by
    rw [stripMarkers_seeLines nonempty, indented_seeLines depth nonempty]
    exact Reference.expand_lines (fun _ => eq_space_of_mem_indent)
      (fun _ => eq_space_of_mem_indent) nonempty
  have shown : Text.isBlank (indent depth ++ Reference.blockHead ++
      Text.join ",\n" (names.map (Reference.entry (indent (depth + 1))))) = false := by
    have inHead : Text.dot ∈ Reference.blockHead := by decide
    apply Text.isBlank_eq_false_of_mem _ (by decide : ¬Text.IsBlankByte Text.dot)
    exact List.mem_append_left _ (List.mem_append_right _ inHead)
  have entries : (fun name : Name => (indent (depth + 1) ++ ":class:`" ++ name.last ++ " <"
      ++ name.text ++ ">`" : Text)) = Reference.entry (indent (depth + 1)) := by
    funext name
    simp only [Reference.entry, Reference.entryTail, Reference.role, List.append_assoc]
    rfl
  have lines : (fun name : Name => (" @see " ++ name.text : Text)) = seeLine := rfl
  rw [entries, lines, body, given]
  simp only [expanded, shown]
  rfl

/-- Three references at depth 1, one of them to a name of one word. -/
theorem body_of_three_references :
    let word (spelled : Text) : Prop := spelled ≠ [] ∧ ∀ b ∈ spelled, Reference.isWordByte b = true
    ∃ first second third : Name,
      first.text = "trac.metadata.TypeSystem" ∧ second.text = "Other_1" ∧
        third.text = "a.see.class" ∧ [first, second, third] ≠ [] ∧
        (∀ name ∈ [first, second, third], ∀ part ∈ name.parts, word part) ∧
        body " @see trac.metadata.TypeSystem\n @see Other_1\n @see a.see.class\n" 1 =
          "    .. seealso::\n        :class:`TypeSystem <trac.metadata.TypeSystem>`,\n"
            ++ "        :class:`Other_1 <Other_1>`,\n        :class:`class <a.see.class>`" := by
  intro word
  let first : Name := ⟨["trac", "metadata"], "TypeSystem", by decide +kernel⟩
  let second : Name := ⟨[], "Other_1", by decide +kernel⟩
  let third : Name := ⟨["a", "see"], "class", by decide +kernel⟩
  have nonempty : [first, second, third] ≠ [] := List.cons_ne_nil _ _
  have comment :
      Text.ofString " @see trac.metadata.TypeSystem\n @see Other_1\n @see a.see.class\n" =
        Text.ofLines ([first, second, third].map fun name => " @see " ++ name.text) := by
    decide +kernel
  refine ⟨first, second, third, rfl, rfl, rfl, nonempty, fun name _ => name.words, ?_⟩
  rw [comment]
  refine (body_of_references [first, second, third] nonempty 1).trans ?_
  decide +kernel

end Docstring

end Protoclass
