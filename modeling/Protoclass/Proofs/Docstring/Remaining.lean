import Protoclass.Proofs.Docstring.References
import Protoclass.Proofs.Text.White

/-!
# References in comments

The body of a docstring holds no reference, whatever the comment that it was made from.
Where a comment has no reference to expand and no block to merge, its lines are kept, each
with the margin of its depth before it.
-/

namespace Protoclass.Docstring

open Reference (Holds IsReference IsBlockHead)
open Text (White newline ofChars)

/-! ## Comments -/

/-- Giving lines their margin makes no part of a line that does not begin with a space. -/
theorem infix_of_infix_indented {first : UInt8} {part : Text} (shown : first ≠ Text.space)
    (oneLine : newline ∉ first :: part) {depth : Int} {text : Text}
    (inside : first :: part <:+: indented depth text) : first :: part <:+: text := by
  obtain ⟨piece, member, inPiece⟩ :=
    Text.exists_infix_of_infix_join (List.cons_ne_nil first part) oneLine inside
  obtain ⟨line, among, rfl⟩ := List.mem_map.mp member
  have outside : first ∉ indent depth := fun inMargin => shown (eq_space_of_mem_indent inMargin)
  have inLine := Text.infix_of_infix_append outside inPiece
  exact (inLine.trans (Text.dropLead_suffix line " ").isInfix).trans
    (Text.infix_of_mem_splitOn among)

theorem holds_reference_of_indented {depth : Int} {text : Text}
    (holds : Holds IsReference (indented depth text)) : Holds IsReference text := by
  obtain ⟨cs, reference, inside⟩ := holds
  obtain ⟨rest, bytes⟩ := reference.exists_eq_cons
  have oneLine : newline ∉ ofChars cs := reference.notMem (by decide) (by decide) (by decide)
  rw [bytes] at inside oneLine
  have inText := infix_of_infix_indented (by decide) oneLine inside
  rw [← bytes] at inText
  exact ⟨cs, reference, inText⟩

theorem holds_blockHead_of_indented {depth : Int} {text : Text}
    (holds : Holds IsBlockHead (indented depth text)) : Holds IsBlockHead text := by
  obtain ⟨cs, spelled, inside⟩ := holds
  obtain ⟨c, others, rfl, isDot, -⟩ := List.map_eq_cons_iff.mp spelled
  obtain ⟨first, rest, bytes⟩ := List.exists_cons_of_ne_nil (String.utf8EncodeChar_ne_nil (c := c))
  have split : ofChars (c :: others) = first :: (rest ++ ofChars others) := by
    rw [ofChars, List.flatMap_cons, bytes]
    rfl
  have shown : first ≠ Text.space := by
    rintro rfl
    have isSpace := Text.eq_ofNat_of_mem_encode (by decide) (bytes ▸ List.mem_cons_self)
    rw [isSpace] at isDot
    exact absurd isDot (by decide)
  have oneLine : newline ∉ ofChars (c :: others) := by
    intro member
    have folds := List.mem_map_of_mem (f := Text.folded) (Text.mem_ofChars (by decide) member)
    rw [show (c :: others).map Text.folded = _ from spelled] at folds
    exact absurd folds (by decide)
  rw [split] at inside oneLine
  have inText := infix_of_infix_indented shown oneLine inside
  rw [← split] at inText
  exact ⟨c :: others, spelled, inText⟩

theorem white_indent (depth : Int) : White (indent depth) := by
  have units : indent depth = (List.replicate (4 * depth.toNat) [Text.space]).flatten := by
    rw [indent, List.flatten_replicate_singleton]
  rw [units]
  apply Text.white_flatten
  intro blank member
  rw [List.eq_of_mem_replicate member]
  decide

/-- Giving lines their margin neither shows nor hides anything. -/
theorem white_indented_iff (depth : Int) (text : Text) :
    White (indented depth text) ↔ White text := by
  have dropped (line : Text) : White (Text.dropLead line " ") ↔ White line := by
    have blank : White (Text.ofString " ") := ⟨[' '], by simp [Text.spaces], rfl⟩
    cases found : Text.after? " " line with
    | none => rw [Text.dropLead, found, Option.getD_none]
    | some rest =>
      rw [Text.after?_eq_some_iff.mp found, Text.dropLead_append, blank.append_iff]
  have lines : White text ↔ ∀ line ∈ text.splitOn newline, White line := by
    rw [← Text.white_join_iff, Text.ofString_newline, Text.join_splitOn]
  rw [indented, Text.white_join_iff, lines, List.forall_mem_map]
  simp only [(white_indent depth).append_iff, dropped]

theorem splitOn_indented (depth : Int) (text : Text) :
    (indented depth text).splitOn newline =
      (text.splitOn newline).map fun line => indent depth ++ Text.dropLead line " " := by
  apply Text.splitOn_join (by simpa using Text.splitOn_ne_nil newline text)
  intro piece member
  obtain ⟨line, among, rfl⟩ := List.mem_map.mp member
  rw [List.mem_append, not_or]
  refine ⟨newline_notMem_indent depth, fun inLine => ?_⟩
  exact Text.notMem_of_mem_splitOn among ((Text.dropLead_suffix line " ").subset inLine)

theorem body_cons (b : UInt8) (rest : Text) (depth : Int) :
    body (b :: rest) depth =
      if Text.isBlank (Reference.expand (indent (depth + 1))
          (indented depth (stripMarkers (b :: rest)))) then []
      else Reference.expand (indent (depth + 1)) (indented depth (stripMarkers (b :: rest))) := by
  unfold body
  rw [if_neg (by simp)]

theorem not_holds_body (raw : Text) (depth : Int) : ¬Holds IsReference (body raw depth) := by
  have nothing : ¬Holds IsReference [] := by decide
  have plain : Reference.atSign ∉ indent (depth + 1) := fun member =>
    absurd (eq_space_of_mem_indent member) (by decide)
  cases raw with
  | nil => exact nothing
  | cons b rest =>
    rw [body_cons]
    split
    · exact nothing
    · exact Reference.not_holds_expand plain _

/-- Without references and heads of blocks, a comment is given its margin, unless it is
white space. -/
theorem body_of_unreferenced {raw : Text} (unreferenced : ¬Holds IsReference (stripMarkers raw))
    (headless : ¬Holds IsBlockHead (stripMarkers raw)) (depth : Int) :
    White (stripMarkers raw) ∧ body raw depth = [] ∨
      ¬White (stripMarkers raw) ∧ body raw depth = indented depth (stripMarkers raw) := by
  cases raw with
  | nil => exact .inl ⟨Text.white_nil, rfl⟩
  | cons b rest =>
    have kept : Reference.expand (indent (depth + 1)) (indented depth (stripMarkers (b :: rest))) =
        indented depth (stripMarkers (b :: rest)) :=
      Reference.expand_eq_self _ (mt holds_reference_of_indented unreferenced)
        (mt holds_blockHead_of_indented headless)
    have blank := (Text.isBlank_iff_white _).trans
      (white_indented_iff depth (stripMarkers (b :: rest)))
    rw [body_cons, kept]
    by_cases white : White (stripMarkers (b :: rest))
    · exact .inl ⟨white, if_pos (blank.mpr white)⟩
    · exact .inr ⟨white, if_neg (mt blank.mp white)⟩

/-- No reference is left in a docstring.  A comment without references and without heads
of blocks becomes nothing when it is white space, and else its own lines, each behind the
margin and without one leading space. -/
theorem body_rewrites_references (raw : Text) (depth : Nat) :
    ¬Holds IsReference (body raw depth) ∧
      (¬Holds IsReference (stripMarkers raw) → ¬Holds IsBlockHead (stripMarkers raw) →
        (body raw depth = [] ↔ White (stripMarkers raw)) ∧
        (body raw depth ≠ [] → (body raw depth).splitOn newline =
          ((stripMarkers raw).splitOn newline).map fun line =>
            indent depth ++ Text.dropLead line " ")) := by
  refine ⟨not_holds_body raw depth, fun unreferenced headless => ?_⟩
  rcases body_of_unreferenced unreferenced headless depth with ⟨white, nothing⟩ | ⟨shown, kept⟩
  · exact ⟨iff_of_true nothing white, fun given => absurd nothing given⟩
  · have given : indented depth (stripMarkers raw) ≠ [] := by
      intro nothing
      rw [← white_indented_iff depth, nothing] at shown
      exact shown Text.white_nil
    rw [kept]
    exact ⟨iff_of_false given shown, fun _ => splitOn_indented depth (stripMarkers raw)⟩

/-- A reference is rewritten; an at sign before something else, and a line that begins with
more than one space, stay as they are. -/
theorem body_rewrites_reference_only :
    ¬Holds IsReference (body "* Like @SEE a.B, or @\u017Fee c.\n" 1) ∧
      body "* Like @SEE a.B, or @\u017Fee c.\n" 1 =
        "    Like .. seealso::\n        :class:`B <a.B>`, or "
          ++ ".. seealso::\n        :class:`c <c>`." ∧
      ¬Holds IsReference (stripMarkers " mail @see, me\n  or: .. see also::\n\n") ∧
      ¬Holds IsBlockHead (stripMarkers " mail @see, me\n  or: .. see also::\n\n") ∧
      (body " mail @see, me\n  or: .. see also::\n\n" 1 = [] ↔
        White (stripMarkers " mail @see, me\n  or: .. see also::\n\n")) ∧
      body " mail @see, me\n  or: .. see also::\n\n" 1 ≠ [] ∧
      (body " mail @see, me\n  or: .. see also::\n\n" 1).splitOn newline =
        ["    mail @see, me", "     or: .. see also::", "    "] := by
  have unreferenced :
      ¬Holds IsReference (stripMarkers " mail @see, me\n  or: .. see also::\n\n") := by
    decide +kernel
  have headless : ¬Holds IsBlockHead (stripMarkers " mail @see, me\n  or: .. see also::\n\n") := by
    decide +kernel
  have given : body " mail @see, me\n  or: .. see also::\n\n" 1 ≠ [] := by decide +kernel
  obtain ⟨nothing, lines⟩ :=
    (body_rewrites_references " mail @see, me\n  or: .. see also::\n\n" 1).2 unreferenced headless
  refine ⟨(body_rewrites_references _ 1).1, by decide +kernel, unreferenced, headless, nothing,
    given, (lines given).trans ?_⟩
  decide +kernel

end Protoclass.Docstring
