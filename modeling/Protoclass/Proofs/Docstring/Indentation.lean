import Protoclass.Proofs.Docstring.Remaining

/-!
# Every line of a docstring is indented

The lines of a docstring stand behind the margin of its depth, and there are some
exactly when more than white space is left of the comment.  Expanding references
neither makes a text white nor takes away that it is: no rule applies within white
space, and what a rule writes has a mark that shows.
-/

namespace Protoclass

open Text (White IsBlankByte dot newline)

/-! ## Expanding references of white space -/

namespace Reference

/-- A rule that leaves marks changes nothing, or leaves one. -/
theorem Marks.eq_self_or_mem {mark : UInt8} {rule : Rule} (marks : Marks mark rule) (text : Text) :
    replaceAll rule text = text ∨ mark ∈ replaceAll rule text := by
  induction text with
  | nil => exact .inl rfl
  | cons b text ih =>
    cases applied : rule (b :: text) with
    | none =>
      rw [replaceAll_cons_of_unapplied applied]
      rcases ih with same | marked
      · exact .inl (by rw [same])
      · exact .inr (List.mem_cons_of_mem b marked)
    | some found =>
      obtain ⟨new, taken⟩ := found
      obtain ⟨kept, more, rfl, -⟩ := marks _ _ _ applied
      right
      rw [replaceAll, replaceFrom, applied]
      simp

theorem Marks.white_of_white {mark : UInt8} {rule : Rule} (marks : Marks mark rule)
    (shown : ¬IsBlankByte mark) {text : Text} (white : White (replaceAll rule text)) :
    White text := by
  rcases marks.eq_self_or_mem text with same | marked
  · rwa [same] at white
  · exact absurd (white.isBlankByte mark marked) shown

/-- No rule applies within white space. -/
theorem expand_of_white (margin : Text) {text : Text} (white : White text) :
    expand margin text = text := by
  have shown : ¬IsBlankByte 64 ∧ ¬IsBlankByte 58 := by decide
  have kept {rule : Rule} (inert : ∀ b ∈ text, Inert rule b) : replaceAll rule text = text := by
    simpa [replaceAll, replaceFrom] using replaceAll_append inert []
  have apart (mark : UInt8) (shown : ¬IsBlankByte mark) : ∀ b ∈ text, b ≠ mark := by
    rintro b member rfl
    exact shown (white.isBlankByte b member)
  have methods : replaceAll (methodRule margin) text = text :=
    kept fun b member => inert_methodRule_of_ne margin (apart 64 shown.1 b member)
  have classes : replaceAll (classRule margin) text = text := by
    apply kept
    intro b member rest
    rw [classRule, afterFolded?_see_eq_none (apart 64 shown.1 b member)]
    rfl
  have merged : replaceAll mergeRule text = text := by
    apply kept
    intro b member rest
    have unmatched : Text.afterFolded? ":class:" (b :: rest) = none :=
      afterFolded?_cons_eq_none (by decide) (apart 58 shown.2 b member) "class:" rest
    rw [mergeRule, unmatched]
    rfl
  rw [expand, methods, classes, merged]

theorem white_expand_iff (margin text : Text) : White (expand margin text) ↔ White text := by
  constructor
  · intro white
    have classes := marks_mergeRule.white_of_white (by decide) white
    have methods := (refers_classRule margin).marks.white_of_white (by decide) classes
    exact (refers_methodRule margin).marks.white_of_white (by decide) methods
  · intro white
    rwa [expand_of_white margin white]

end Reference

/-! ## Docstrings of white space -/

namespace Docstring

section

variable (raw : Text) (depth : Int)

/-- A body is nothing where the comment is white space, and else shows something. -/
theorem body_eq_nil_or_shown :
    body raw depth = [] ∧ White (stripMarkers raw) ∨
      ¬White (body raw depth) ∧ ¬White (stripMarkers raw) := by
  cases raw with
  | nil => exact .inl ⟨rfl, Text.white_nil⟩
  | cons b rest =>
    have kept := (Reference.white_expand_iff (indent (depth + 1))
      (indented depth (stripMarkers (b :: rest)))).trans (white_indented_iff depth _)
    rw [body_cons]
    split
    case isTrue isBlank => exact .inl ⟨rfl, kept.mp ((Text.isBlank_iff_white _).mp isBlank)⟩
    case isFalse shown =>
      rw [Text.isBlank_iff_white] at shown
      exact .inr ⟨shown, mt kept.mpr shown⟩

theorem body_eq_nil_iff : body raw depth = [] ↔ White (stripMarkers raw) := by
  rcases body_eq_nil_or_shown raw depth with ⟨nothing, white⟩ | ⟨shown, shown'⟩
  · exact iff_of_true nothing white
  · exact iff_of_false (fun nothing => shown (nothing ▸ Text.white_nil)) shown'

theorem white_body_iff : White (body raw depth) ↔ White (stripMarkers raw) := by
  rcases body_eq_nil_or_shown raw depth with ⟨nothing, white⟩ | ⟨shown, shown'⟩
  · exact iff_of_true (nothing ▸ Text.white_nil) white
  · exact iff_of_false shown shown'

theorem statement_eq_nil_iff : statement raw depth = [] ↔ White (stripMarkers raw) := by
  rw [← white_body_iff raw depth, ← Text.trim_eq_nil_iff, statement]
  split
  case isTrue nothing => exact iff_of_true rfl (List.isEmpty_iff.mp nothing)
  case isFalse shown =>
    refine iff_of_false ?_ (mt List.isEmpty_iff.mpr shown)
    split <;> simp [quotes, Text.ofString]

theorem inline_eq_nil_iff : inline raw depth = [] ↔ White (stripMarkers raw) := by
  rw [← white_body_iff raw depth, ← Text.trim_eq_nil_iff, ← Text.trim_trimLeft, inline]
  split
  case isTrue nothing => exact iff_of_true rfl (List.isEmpty_iff.mp nothing)
  case isFalse shown =>
    refine iff_of_false ?_ (mt List.isEmpty_iff.mpr shown)
    split <;> simp [quotes, Text.ofString]

end

/-! ## Lines -/

/-- Whatever the comment, every line of a body that is something starts with the margin
of its depth; so does every line of a docstring statement that is not empty, and every
line but the first of a docstring on the line of a value.  Each of the three is something
exactly when more than white space is left of the comment. -/
theorem docstring_lines_behind_indent (raw : Text) (depth : Nat) :
    (body raw depth ≠ [] →
      ∀ line ∈ (body raw depth).splitOn newline, indent depth <+: line) ∧
    (∀ line ∈ (statement raw depth).splitOn newline, line ≠ [] → indent depth <+: line) ∧
    (∀ line ∈ ((inline raw depth).splitOn newline).tail, indent depth <+: line) ∧
    ∀ text ∈ [body raw depth, statement raw depth, inline raw depth],
      text = [] ↔ White (stripMarkers raw) := by
  have oneLine := newline_notMem_indent depth
  refine ⟨fun shown => (behind_body shown).lines oneLine, ?_,
    (hanging_inline raw depth).lines oneLine, ?_⟩
  · intro line member given
    obtain ⟨lines, made, ended, deep⟩ := exists_statement_eq_ofLines raw depth
    rw [made, Text.splitOn_ofLines ended, List.mem_append, List.mem_singleton] at member
    rcases member with among | rfl
    · exact (deep line among).resolve_left given
    · contradiction
  · simp only [List.forall_mem_cons]
    exact ⟨body_eq_nil_iff raw depth, statement_eq_nil_iff raw depth, inline_eq_nil_iff raw depth,
      List.forall_mem_nil _⟩

/-- Two references with empty lines between them, which become one block, and a method
in the middle of a line. -/
theorem docstring_lines_behind_indent_merged :
    let raw : Text := "* Like\n @see a.B\n\n \t\n @see c.D\nor @See e.F.g() too\n"
    body raw 1 ≠ [] ∧
      (body raw 1).splitOn newline =
        ["    Like", "    .. seealso::", "        :class:`B <a.B>`,", "        :class:`D <c.D>`",
          "    or .. seealso::", "        :meth:`F.g <e.F.g>` too"] ∧
      (∀ line ∈ (body raw 1).splitOn newline, indent 1 <+: line) ∧
      (∀ line ∈ (statement raw 1).splitOn newline, line ≠ [] → indent 1 <+: line) ∧
      (∀ line ∈ ((inline raw 1).splitOn newline).tail, indent 1 <+: line) ∧
      ¬White (stripMarkers raw) := by
  intro raw
  have shown : body raw 1 ≠ [] := by decide +kernel
  obtain ⟨ofBody, ofStatement, ofInline, given⟩ := docstring_lines_behind_indent raw 1
  exact ⟨shown, by decide +kernel, ofBody shown, ofStatement, ofInline,
    mt (given _ List.mem_cons_self).mpr shown⟩

end Docstring

end Protoclass
