import Protoclass.Dataclass.Docstring
import Protoclass.Proofs.Docstring.Expansion
import Protoclass.Proofs.Text.Blank

/-!
# Docstrings keep their depth

Whatever a comment holds, the lines of its docstring are empty or stand behind
the margin of the docstring's depth.  Each line of the comment is given that
margin, expanding references keeps it, and the quotes are written behind it.  A
comment on the line of a value begins in that line, so only the lines after its
first are behind the margin.
-/

namespace Protoclass.Docstring

open Text (Behind Hanging newline ofLines)

/-! ## The margin of a depth -/

theorem eq_space_of_mem_indent {depth : Int} {b : UInt8} (member : b ∈ indent depth) :
    b = Text.space :=
  List.eq_of_mem_replicate member

theorem newline_notMem_indent (depth : Int) : newline ∉ indent depth :=
  fun member => absurd (eq_space_of_mem_indent member) (by decide)

theorem indent_prefix_indent {depth deeper : Int} (within : depth ≤ deeper) :
    indent depth <+: indent deeper := by
  have levels : 4 * depth.toNat ≤ 4 * deeper.toNat :=
    Nat.mul_le_mul_left 4 (Int.toNat_le_toNat within)
  exact ⟨List.replicate (4 * deeper.toNat - 4 * depth.toNat) Text.space, by
    rw [indent, indent, List.replicate_append_replicate, Nat.add_sub_cancel' levels]⟩

/-- The line is empty or stands behind the margin of the depth. -/
def AtDepth (depth : Int) (line : Text) : Prop := line = [] ∨ indent depth <+: line

theorem AtDepth.mono {depth deeper : Int} (within : depth ≤ deeper) {line : Text} :
    AtDepth deeper line → AtDepth depth line
  | .inl nothing => .inl nothing
  | .inr start => .inr ((indent_prefix_indent within).trans start)

theorem atDepth_indent_append (depth : Int) (text : Text) : AtDepth depth (indent depth ++ text) :=
  .inr (List.prefix_append (indent depth) text)

/-! ## The body -/

theorem behind_indented (depth : Int) (text : Text) :
    Behind (indent depth) (indented depth text) := by
  apply Text.behind_join
  · simpa using Text.splitOn_ne_nil newline text
  · intro piece member
    obtain ⟨line, -, rfl⟩ := List.mem_map.mp member
    exact List.prefix_append (indent depth) _
  · intro piece member
    obtain ⟨line, among, rfl⟩ := List.mem_map.mp member
    rw [List.mem_append, not_or]
    refine ⟨newline_notMem_indent depth, ?_⟩
    intro inLine
    exact Text.notMem_of_mem_splitOn among ((Text.dropLead_suffix line " ").subset inLine)

theorem behind_body {raw : Text} {depth : Int} (shown : body raw depth ≠ []) :
    Behind (indent depth) (body raw depth) := by
  unfold body at shown ⊢
  split at shown
  · contradiction
  · rename_i given
    rw [if_neg given]
    dsimp only at shown ⊢
    split at shown
    · contradiction
    · rename_i visible
      rw [if_neg visible]
      exact Reference.behind_expand (fun _ => eq_space_of_mem_indent)
        (indent_prefix_indent (Int.le_add_one (Int.le_refl depth)))
        (behind_indented depth (stripMarkers raw))

/-! ## Docstrings -/

/-- A text of which something is kept is not empty. -/
theorem ne_nil_of_kept (kept : Text → Text) (nothing : kept [] = []) {text : Text}
    (shown : ¬(kept text).isEmpty) : text ≠ [] := by
  rintro rfl
  rw [nothing] at shown
  exact shown rfl

theorem newline_notMem_quotes : newline ∉ quotes := by decide

/-- A docstring statement is made of whole lines at its depth. -/
theorem exists_statement_eq_ofLines (raw : Text) (depth : Int) :
    ∃ lines, statement raw depth = ofLines lines ∧ (∀ line ∈ lines, newline ∉ line) ∧
      ∀ line ∈ lines, AtDepth depth line := by
  have mark : newline ∉ indent depth ++ quotes := by
    rw [List.mem_append, not_or]
    exact ⟨newline_notMem_indent depth, newline_notMem_quotes⟩
  have gap : Text.ofString "\n\n" = [newline, newline] := rfl
  unfold statement
  dsimp only
  split
  case isTrue => exact ⟨[], rfl, by simp, by simp⟩
  case isFalse shown =>
    split
    case isTrue =>
      have behind := behind_body (ne_nil_of_kept Text.trim rfl shown)
      refine ⟨(indent depth ++ quotes) :: (Text.splitOn newline (body raw depth) ++
        [indent depth ++ quotes, []]), ?_, ?_, ?_⟩
      · rw [Text.ofLines_cons, Text.ofLines_append, Text.ofLines_splitOn]
        simp [Text.ofLines_cons, gap]
      · simp only [List.forall_mem_cons, List.forall_mem_append]
        exact ⟨mark, fun _ => Text.notMem_of_mem_splitOn, mark, List.not_mem_nil, by simp⟩
      · simp only [List.forall_mem_cons, List.forall_mem_append]
        exact ⟨atDepth_indent_append depth quotes,
          fun line member => .inr (behind.lines (newline_notMem_indent depth) line member),
          atDepth_indent_append depth quotes, .inl rfl, by simp⟩
    case isFalse oneLine =>
      refine ⟨[indent depth ++ (quotes ++ Text.trim (body raw depth) ++ quotes), []], ?_, ?_, ?_⟩
      · simp [Text.ofLines_cons, gap]
      · simp only [List.forall_mem_cons, List.mem_append, not_or]
        refine ⟨⟨newline_notMem_indent depth, ⟨newline_notMem_quotes, ?_⟩, newline_notMem_quotes⟩,
          List.not_mem_nil, by simp⟩
        simpa using oneLine
      · simp only [List.forall_mem_cons]
        exact ⟨atDepth_indent_append depth _, .inl rfl, by simp⟩

theorem ofLines_endedLines_statement (raw : Text) (depth : Int) :
    ofLines (Text.endedLines (statement raw depth)) = statement raw depth := by
  obtain ⟨lines, made, oneLine, -⟩ := exists_statement_eq_ofLines raw depth
  rw [made, Text.endedLines_ofLines oneLine]

theorem atDepth_of_mem_endedLines_statement {raw line : Text} {depth : Int}
    (member : line ∈ Text.endedLines (statement raw depth)) : AtDepth depth line := by
  obtain ⟨lines, made, oneLine, deep⟩ := exists_statement_eq_ofLines raw depth
  rw [made, Text.endedLines_ofLines oneLine] at member
  exact deep line member

/-! ## Comments on the line of a value -/

theorem hanging_inline (raw : Text) (depth : Int) :
    Hanging (indent depth) (inline raw depth) := by
  have quoted : Hanging (indent depth) quotes := Text.hanging_of_notMem newline_notMem_quotes
  unfold inline
  dsimp only
  split
  case isTrue => trivial
  case isFalse shown =>
    split
    case isTrue =>
      have started : body raw depth ≠ [] :=
        ne_nil_of_kept (fun text => Text.trim (Text.trimLeft text)) rfl shown
      obtain ⟨blank, trimmed, -⟩ := Text.exists_append_trimLeft (body raw depth)
      have text : Hanging (indent depth) (Text.trimLeft (body raw depth)) :=
        Hanging.of_append (trimmed ▸ (behind_body started).hanging)
      have closing : Hanging (indent depth) (newline :: (indent depth ++ quotes)) :=
        .newline_cons (List.prefix_append _ _)
          ((Text.hanging_of_notMem (newline_notMem_indent depth)).append quoted)
      have whole := (quoted.append text).append closing
      simpa using whole
    case isFalse oneLine =>
      refine (quoted.append (Text.hanging_of_notMem ?_)).append quoted
      simpa using oneLine

end Protoclass.Docstring
