import Protoclass.Proofs.Docstring.Margin

/-!
# Outlines of code

The code of a class is a tree: statements of one line, method stubs, and classes
inside classes.  An outline is that tree with the lines of comments as they are
written.  Its lines at a depth are determined by it; an outline is sound at a
depth when the lines of its comments keep the depth they belong to and no class
is without a statement of its own.

The main statements say that every line of a sound outline keeps its depth, and
how a text printed from parts is printed from the whole.
-/

namespace Protoclass

open Docstring (AtDepth indent)
open Text (newline ofLines)

/-- A part of the code of a class, or a class. -/
inductive Outline where
  /-- A statement of one line, and the lines below that belong to it. -/
  | statement (text : Text) (notes : List Text)
  /-- A method stub: its signature, and its docstring before `pass`. -/
  | stub (signature : Text) (doc : List Text)
  /-- A class: the lines of its head, its docstring and its body. -/
  | block (head doc : List Text) (body : List Outline)

namespace Outline

/-- The statement of a body with nothing in it. -/
def pass : Outline := .statement "pass" [[]]

/-- The line that a part brings into the body around it; a class brings none of
its own. -/
def own? : Outline → Option Text
  | .statement text _ => some text
  | .stub signature _ => some signature
  | .block .. => none

mutual

/-- The lines of an outline at a depth. -/
def lines (depth : Int) : Outline → List Text
  | .statement text notes => (indent depth ++ text) :: notes
  | .stub signature doc =>
    (indent depth ++ signature) :: (doc ++ [indent (depth + 1) ++ "pass", []])
  | .block head doc body =>
    head.map (indent depth ++ ·) ++ (doc ++ bodyLines (depth + 1) body)

/-- The lines of several parts at a depth. -/
def bodyLines (depth : Int) : List Outline → List Text
  | [] => []
  | part :: rest => part.lines depth ++ bodyLines depth rest

end

theorem bodyLines_append (depth : Int) (first second : List Outline) :
    bodyLines depth (first ++ second) = bodyLines depth first ++ bodyLines depth second := by
  induction first with
  | nil => rw [bodyLines, List.nil_append, List.nil_append]
  | cons part rest ih => rw [List.cons_append, bodyLines, bodyLines, ih, List.append_assoc]

theorem bodyLines_singleton (depth : Int) (part : Outline) :
    bodyLines depth [part] = part.lines depth := by
  rw [bodyLines, bodyLines, List.append_nil]

theorem mem_bodyLines {depth : Int} {body : List Outline} {line : Text} :
    line ∈ bodyLines depth body ↔ ∃ part ∈ body, line ∈ part.lines depth := by
  induction body with
  | nil => simp [bodyLines]
  | cons part rest ih => simp [bodyLines, ih]

theorem mem_lines_of_own? {depth : Int} {part : Outline} {text : Text}
    (own : part.own? = some text) : indent depth ++ text ∈ part.lines depth := by
  cases part with
  | statement text notes =>
    cases own
    rw [lines]
    exact List.mem_cons_self
  | stub signature doc =>
    cases own
    rw [lines]
    exact List.mem_cons_self
  | block head doc body => contradiction

/-! ## Soundness -/

/-- Comments keep their depth, and every class has a statement of its own. -/
inductive Sound : Int → Outline → Prop
  | statement {depth : Int} {text : Text} {notes : List Text}
      (notesDeep : ∀ line ∈ notes, AtDepth depth line) : Sound depth (.statement text notes)
  | stub {depth : Int} {signature : Text} {doc : List Text}
      (docDeep : ∀ line ∈ doc, AtDepth (depth + 1) line) : Sound depth (.stub signature doc)
  | block {depth : Int} {head doc : List Text} {body : List Outline}
      (docDeep : ∀ line ∈ doc, AtDepth (depth + 1) line)
      (owned : ∃ part ∈ body, ∃ text, part.own? = some text)
      (inner : ∀ part ∈ body, Sound (depth + 1) part) : Sound depth (.block head doc body)

theorem sound_pass (depth : Int) : pass.Sound depth :=
  .statement fun _ member => .inl (List.mem_singleton.mp member)

/-- Every line of a sound outline keeps the depth of the outline. -/
theorem Sound.atDepth {depth : Int} {outline : Outline} (sound : outline.Sound depth) :
    ∀ line ∈ outline.lines depth, AtDepth depth line := by
  induction sound with
  | @statement depth text notes notesDeep =>
    rw [lines]
    exact List.forall_mem_cons.mpr ⟨Docstring.atDepth_indent_append depth text, notesDeep⟩
  | @stub depth signature doc docDeep =>
    have within : depth ≤ depth + 1 := Int.le_add_one (Int.le_refl depth)
    rw [lines]
    simp only [List.forall_mem_cons, List.forall_mem_append]
    refine ⟨Docstring.atDepth_indent_append depth signature, ?_, ?_, .inl rfl, by simp⟩
    · exact fun line member => (docDeep line member).mono within
    · exact (Docstring.atDepth_indent_append (depth + 1) _).mono within
  | @block depth head doc body docDeep owned inner ih =>
    have within : depth ≤ depth + 1 := Int.le_add_one (Int.le_refl depth)
    rw [lines]
    simp only [List.forall_mem_append, List.forall_mem_map]
    refine ⟨fun line _ => Docstring.atDepth_indent_append depth line, ?_, ?_⟩
    · exact fun line member => (docDeep line member).mono within
    · intro line member
      obtain ⟨part, among, inPart⟩ := mem_bodyLines.mp member
      exact (ih part among line inPart).mono within

/-! ## Parts at their own depth -/

/-- An outline at a depth has another inside, or is it, at the other's depth. -/
inductive Inside : Int → Outline → Int → Outline → Prop
  | self {depth : Int} {outline : Outline} : Inside depth outline depth outline
  | body {depth depth' : Int} {head doc : List Text} {body : List Outline} {part inner : Outline}
      (member : part ∈ body) (inside : Inside (depth + 1) part depth' inner) :
      Inside depth (.block head doc body) depth' inner

theorem Inside.infix_lines {depth depth' : Int} {outline part : Outline}
    (inside : Inside depth outline depth' part) :
    part.lines depth' <:+: outline.lines depth := by
  induction inside with
  | self => exact List.infix_rfl
  | @body depth _ head doc body part inner member inside ih =>
    obtain ⟨before, after, rfl⟩ := List.append_of_mem member
    rw [lines, bodyLines_append, bodyLines]
    refine ih.trans ⟨head.map (indent depth ++ ·) ++ (doc ++ bodyLines (depth + 1) before),
      bodyLines (depth + 1) after, ?_⟩
    simp only [List.append_assoc]

theorem Sound.inside {depth depth' : Int} {outline part : Outline} (sound : outline.Sound depth)
    (inside : Inside depth outline depth' part) : part.Sound depth' := by
  induction inside with
  | self => exact sound
  | body member _ ih =>
    cases sound with
    | block _ _ inner => exact ih (inner _ member)

/-- What follows the head of a part keeps the depth it belongs to: for a class,
one level deeper, where a line of its own stands too. -/
def Laid (depth : Int) : Outline → Prop
  | .statement _ notes => ∀ line ∈ notes, AtDepth depth line
  | .stub _ doc => ∀ line ∈ doc, AtDepth (depth + 1) line
  | .block _ doc body =>
    (∀ line ∈ doc ++ bodyLines (depth + 1) body, AtDepth (depth + 1) line) ∧
      ∃ part ∈ body, ∃ text, part.own? = some text ∧
        indent (depth + 1) ++ text ∈ bodyLines (depth + 1) body

theorem Sound.laid {depth : Int} {outline : Outline} (sound : outline.Sound depth) :
    outline.Laid depth := by
  cases sound with
  | statement notesDeep => exact notesDeep
  | stub docDeep => exact docDeep
  | block docDeep owned inner =>
    constructor
    · refine List.forall_mem_append.mpr ⟨docDeep, ?_⟩
      intro line member
      obtain ⟨part, among, inPart⟩ := mem_bodyLines.mp member
      exact (inner part among).atDepth line inPart
    · obtain ⟨part, among, text, own⟩ := owned
      exact ⟨part, among, text, own, mem_bodyLines.mpr ⟨part, among, mem_lines_of_own? own⟩⟩

/-! ## Printing -/

/-- The text is that of the parts at a depth: their lines, each ended and none
broken, and the parts are sound. -/
structure Prints (depth : Int) (parts : List Outline) (text : Text) : Prop where
  text_eq : text = ofLines (bodyLines depth parts)
  oneLine : ∀ line ∈ bodyLines depth parts, newline ∉ line
  sound : ∀ part ∈ parts, part.Sound depth

theorem prints_nil (depth : Int) : Prints depth [] [] :=
  ⟨by rw [bodyLines]; rfl, by simp [bodyLines], by simp⟩

theorem Prints.append {depth : Int} {first second : List Outline} {front back : Text}
    (printsFirst : Prints depth first front) (printsSecond : Prints depth second back) :
    Prints depth (first ++ second) (front ++ back) where
  text_eq := by
    rw [bodyLines_append, Text.ofLines_append, printsFirst.text_eq, printsSecond.text_eq]
  oneLine := by
    rw [bodyLines_append]
    exact List.forall_mem_append.mpr ⟨printsFirst.oneLine, printsSecond.oneLine⟩
  sound := List.forall_mem_append.mpr ⟨printsFirst.sound, printsSecond.sound⟩

theorem Prints.splitOn {depth : Int} {parts : List Outline} {text : Text}
    (prints : Prints depth parts text) :
    text.splitOn newline = bodyLines depth parts ++ [[]] := by
  rw [prints.text_eq, Text.splitOn_ofLines prints.oneLine]

end Outline

end Protoclass
