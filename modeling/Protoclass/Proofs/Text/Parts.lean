import Mathlib.Data.List.Infix
import Mathlib.Data.List.TakeWhile
import Protoclass.Proofs.Text.Lines

/-!
# Parts of texts

What a text begins with, ends with or has inside it, and what stands before a byte and
behind it.  A part that lacks a byte lies on one side of it, so that a part without the
separator of joined pieces lies in one of them.
-/

namespace Protoclass.Text

theorem endsWith_iff {text tail : Text} : text.endsWith tail ↔ tail <:+ text := by
  unfold endsWith
  rw [Option.isSome_iff_exists]
  constructor
  · rintro ⟨rest, found⟩
    exact ⟨rest, (before?_eq_some_iff.mp found).symm⟩
  · rintro ⟨rest, rfl⟩
    exact ⟨rest, before?_eq_some_iff.mpr rfl⟩

theorem hasPart_iff {part text : Text} : hasPart part text ↔ part <:+: text := by
  induction text with
  | nil => simp [hasPart]
  | cons b text ih => rw [hasPart, Bool.or_eq_true, startsWith_iff, ih, List.infix_cons_iff]

/-! ## Up to a byte -/

theorem cut_fst (sep : UInt8) (text : Text) : (cut sep text).1 = text.takeWhile (· != sep) := by
  have divided := List.takeWhile_append_dropWhile (p := (· != sep)) (l := text)
  unfold cut
  split
  next none =>
    rw [none, List.append_nil] at divided
    exact divided.symm
  next => rfl

theorem bne_of_notMem {sep : UInt8} {text : Text} (absent : sep ∉ text) :
    ∀ b ∈ text, (b != sep) = true := by
  intro b member
  rw [bne_iff_ne]
  rintro rfl
  exact absent member

theorem takeWhile_append_cons {sep : UInt8} {front : Text} (absent : sep ∉ front) (back : Text) :
    (front ++ sep :: back).takeWhile (· != sep) = front := by
  rw [List.takeWhile_append_of_pos (bne_of_notMem absent), List.takeWhile_cons_of_neg (by simp),
    List.append_nil]

theorem cut_of_notMem {sep : UInt8} {text : Text} (absent : sep ∉ text) :
    cut sep text = (text, none) := by
  rw [cut, List.dropWhile_eq_nil_iff.mpr (bne_of_notMem absent)]

theorem cut_append_cons {sep : UInt8} {front : Text} (absent : sep ∉ front) (back : Text) :
    cut sep (front ++ sep :: back) = (front, some back) := by
  have dropped : (front ++ sep :: back).dropWhile (· != sep) = sep :: back := by
    rw [List.dropWhile_append_of_pos (bne_of_notMem absent)]
    exact List.dropWhile_cons_of_neg (by simp)
  rw [cut, dropped, takeWhile_append_cons absent]

/-! ## Parts without a byte -/

theorem prefix_of_prefix_append_cons (front : Text) {part back : Text} {mark : UInt8}
    (unmarked : mark ∉ part) (starts : part <+: front ++ mark :: back) : part <+: front := by
  rcases List.prefix_or_prefix_of_prefix starts (List.prefix_append front _) with
    within | ⟨more, rfl⟩
  · exact within
  · rw [List.prefix_append_right_inj] at starts
    cases more with
    | nil => simp
    | cons b more =>
      obtain ⟨rfl, -⟩ := List.cons_prefix_cons.mp starts
      exact absurd (by simp) unmarked

/-- A part without a mark lies on one side of it. -/
theorem infix_or_infix_of_append_cons (front : Text) {part back : Text} {mark : UInt8}
    (unmarked : mark ∉ part) (inside : part <:+: front ++ mark :: back) :
    part <:+: front ∨ part <:+: back := by
  induction front with
  | nil =>
    rw [List.nil_append, List.infix_cons_iff] at inside
    rcases inside with starts | later
    · exact .inl (prefix_of_prefix_append_cons [] unmarked starts).isInfix
    · exact .inr later
  | cons b front ih =>
    rw [List.cons_append, List.infix_cons_iff] at inside
    rcases inside with starts | later
    · exact .inl (prefix_of_prefix_append_cons (b :: front) unmarked starts).isInfix
    · rcases ih later with left | right
      · exact .inl (List.infix_cons left)
      · exact .inr right

/-- A part that begins with a byte lies behind whatever is without that byte. -/
theorem infix_of_infix_append {first : UInt8} {part front back : Text} (absent : first ∉ front)
    (inside : first :: part <:+: front ++ back) : first :: part <:+: back := by
  induction front with
  | nil => exact inside
  | cons b front ih =>
    rw [List.mem_cons, not_or] at absent
    rw [List.cons_append, List.infix_cons_iff, List.cons_prefix_cons] at inside
    rcases inside with ⟨same, -⟩ | later
    · exact absurd same absent.1
    · exact ih absent.2 later

/-! ## Pieces -/

theorem infix_join_of_mem (sep : Text) {piece : Text} {pieces : List Text}
    (member : piece ∈ pieces) : piece <:+: join sep pieces := by
  fun_induction join sep pieces with
  | case1 => contradiction
  | case2 only =>
    rw [List.mem_singleton.mp member]
  | case3 first pieces _ ih =>
    rcases List.mem_cons.mp member with rfl | later
    · rw [List.append_assoc]
      exact (List.prefix_append _ _).isInfix
    · exact (ih later).trans (List.suffix_append _ _).isInfix

theorem infix_of_mem_splitOn {sep : UInt8} {text piece : Text}
    (member : piece ∈ splitOn sep text) : piece <:+: text := by
  have inside := infix_join_of_mem [sep] member
  rwa [join_splitOn] at inside

/-- A part without the separator lies in one of the pieces. -/
theorem exists_infix_of_infix_join {sep : UInt8} {part : Text} {pieces : List Text}
    (given : part ≠ []) (absent : sep ∉ part) (inside : part <:+: join [sep] pieces) :
    ∃ piece ∈ pieces, part <:+: piece := by
  fun_induction join [sep] pieces with
  | case1 => exact absurd (List.infix_nil.mp inside) given
  | case2 piece => exact ⟨piece, List.mem_cons_self, inside⟩
  | case3 piece pieces _ ih =>
    rw [List.append_assoc] at inside
    rcases infix_or_infix_of_append_cons piece absent inside with here | later
    · exact ⟨piece, List.mem_cons_self, here⟩
    · obtain ⟨other, member, found⟩ := ih later
      exact ⟨other, List.mem_cons_of_mem piece member, found⟩

theorem infix_join_iff {sep : UInt8} {part : Text} {pieces : List Text} (given : part ≠ [])
    (absent : sep ∉ part) : part <:+: join [sep] pieces ↔ ∃ piece ∈ pieces, part <:+: piece := by
  constructor
  · exact exists_infix_of_infix_join given absent
  · rintro ⟨piece, member, inside⟩
    exact inside.trans (infix_join_of_mem [sep] member)

end Protoclass.Text
