import Mathlib.Data.List.Chain
import Protoclass.Proofs.Yaml.Block
import Protoclass.Proofs.Yaml.Plain
import Protoclass.Proofs.Yaml.Quoted

/-!
# The style of a text

A text is written in a style that can hold it (`styled_styleOf`): `Styled` says for
each style what the text has to be like.
-/

namespace Protoclass.Yaml

/-! ## Characters that are written as themselves -/

theorem anyPair_eq_false_iff {p : Char → Char → Bool} {text : List Char} :
    anyPair p text = false ↔ text.IsChain fun a b => p a b = false := by
  fun_induction anyPair p text with
  | case1 a b rest ih => rw [Bool.or_eq_false_iff, ih, List.isChain_cons_cons]
  | case2 text short =>
    match text, short with
    | [], _ => simp
    | [a], _ => simp
    | a :: b :: rest, short => exact absurd rfl (short a b rest)

/-- A break that is written as itself ends a line and is kept. -/
theorem isLineEnd_of_isPrintable {c : Char} (printable : isPrintable c = true)
    (broken : isBreak c = true) : IsLineEnd c := by
  simp only [isBreak, Bool.or_eq_true, decide_eq_true_eq] at broken
  rcases broken with (((rfl | rfl) | rfl) | rfl) | rfl
  · exact .inl rfl
  · simp [isPrintable] at printable
  · simp [isPrintable] at printable
  · exact .inr (.inl rfl)
  · exact .inr (.inr rfl)

theorem isPrintable_of_hasSpecial {text : List Char} (ordinary : hasSpecial text = false) {c : Char}
    (mem : c ∈ text) (notTab : c ≠ '\t') : isPrintable c = true := by
  rw [hasSpecial, List.any_eq_false] at ordinary
  have := ordinary c mem
  simpa [notTab] using this

/-! ## Plain texts -/

/-- A plain scalar can start with a character before a text. -/
def StartsPlain (c : Char) (rest : List Char) : Prop :=
  isSpace c = false
    ∧ (Scan.isIndicator c = true → (c = '-' ∨ c = '?' ∨ c = ':') ∧ atSpace rest = false)

/-- What makes a text plain, without its words: it has no spaces other than
ordinary ones, and none at its ends, and nothing in it would end it early. -/
structure PlainChars (text : List Char) : Prop where
  nonempty : text ≠ []
  spaces : ∀ c ∈ text, isSpace c = true → c = ' '
  head : text.head? ≠ some ' ' ∧ text.head? ≠ some '#'
  last : text.getLast? ≠ some ' ' ∧ text.getLast? ≠ some ':'
  colons : text.IsChain fun a b => ¬ (a = ':' ∧ b = ' ')
  comments : text.IsChain fun a b => ¬ (a = ' ' ∧ b = '#')

theorem PlainChars.isSpace_eq_false {text : List Char} (chars : PlainChars text) {c : Char}
    (mem : c ∈ text) (notSpace : c ≠ ' ') : isSpace c = false := by
  rw [Bool.eq_false_iff]
  intro space
  exact notSpace (chars.spaces c mem space)

theorem PlainChars.plainText {text : List Char} (chars : PlainChars text) : PlainText text := by
  induction text using segments_induction (· = ' ') with
  | word word inWord =>
    apply PlainText.word
    constructor
    · exact chars.nonempty
    · intro c mem
      exact chars.isSpace_eq_false mem (by simpa using inWord c mem)
    · exact chars.head.2
    · exact chars.last.2
  | step word gap rest inWord nonempty isGap later ih =>
    have spaces : gap = List.replicate (gap.length - 1 + 1) ' ' := by
      rw [Nat.sub_add_cancel (List.length_pos_iff.mpr nonempty), List.eq_replicate_iff]
      exact ⟨rfl, by simpa using isGap⟩
    have gapHead : gap.head? = some ' ' := by rw [spaces, List.replicate_succ, List.head?_cons]
    have gapLast : gap.getLast? = some ' ' := by
      rw [spaces, List.replicate_succ', List.getLast?_concat]
    have some_rest : rest ≠ [] := by
      rintro rfl
      have last := chars.last.1
      rw [List.append_nil, List.getLast?_append_of_ne_nil word nonempty] at last
      exact last gapLast
    have some_word : word ≠ [] := by
      rintro rfl
      have head := chars.head.1
      rw [List.nil_append, List.head?_append, gapHead] at head
      exact head rfl
    have colons := List.isChain_append.mp chars.colons
    have comments := (List.isChain_append.mp (List.isChain_append.mp chars.comments).2.1).2
    rw [spaces]
    apply PlainText.words
    · constructor
      · exact some_word
      · intro c mem
        exact chars.isSpace_eq_false (List.mem_append_left _ mem) (by simpa using inWord c mem)
      · have head := chars.head.2
        rw [List.head?_append_of_ne_nil _ some_word] at head
        exact head
      · intro last
        exact colons.2.2 ':' last ' ' (by rw [List.head?_append, gapHead]; rfl) ⟨rfl, rfl⟩
    · apply ih
      constructor
      · exact some_rest
      · intro c mem
        exact chars.spaces c (List.mem_append_right _ (List.mem_append_right _ mem))
      · constructor
        · intro head
          simpa using later ' ' head
        · intro head
          exact comments.2 ' ' gapLast '#' head ⟨rfl, rfl⟩
      · have last := chars.last
        rw [List.getLast?_append_of_ne_nil word (by simp [nonempty]),
          List.getLast?_append_of_ne_nil gap some_rest] at last
        exact last
      · exact (List.isChain_append.mp colons.2.1).2.1
      · exact comments.1

/-- What it takes to be written plainly, one by one. -/
theorem fitsPlain_eq_true_iff {text : List Char} :
    fitsPlain text = true ↔ fitsQuotes text = true
      ∧ (text.head? ≠ some ' ' ∧ text.getLast? ≠ some ' ')
      ∧ (∀ c ∈ text, isBreak c = false) ∧ startsWithIndicator text = false
      ∧ (text.IsChain fun a b => ¬ (a = ':' ∧ isBlank b = true)) ∧ text.getLast? ≠ some ':'
      ∧ text.IsChain fun a b => ¬ (isSpace a = true ∧ b = '#') := by
  simp [fitsPlain, hasEdgeSpace, hasIndicator, anyPair_eq_false_iff, and_assoc]

theorem fitsQuotes_eq_true_iff {text : List Char} :
    fitsQuotes text = true ↔ (text.IsChain fun a b => ¬ (isBreak a = true ∧ b = ' '))
      ∧ (text.IsChain fun a b => ¬ (a = ' ' ∧ isBreak b = true)) ∧ '\t' ∉ text
      ∧ hasSpecial text = false := by
  simp [fitsQuotes, hasSpaceAfterBreak, hasSpaceBeforeBreak, anyPair_eq_false_iff, and_assoc]

/-- A text that is written plainly has the characters of a plain text. -/
theorem PlainChars.of_fitsPlain {c : Char} {rest : List Char}
    (fits : fitsPlain (c :: rest) = true) :
    PlainChars (c :: rest) := by
  rcases fitsPlain_eq_true_iff.mp fits with
    ⟨quotes, ⟨head, last⟩, unbroken, start, colons, lastColon, comments⟩
  rcases fitsQuotes_eq_true_iff.mp quotes with ⟨-, -, noTab, -⟩
  constructor
  · exact List.cons_ne_nil c rest
  · intro d mem space
    have notTab : d ≠ '\t' := fun same => noTab (same ▸ mem)
    simpa [isSpace, isBlank, unbroken d mem, notTab] using space
  · constructor
    · exact head
    · intro comment
      rw [List.head?_cons, Option.some.injEq] at comment
      simp [startsWithIndicator, comment, Scan.isIndicator] at start
  · exact ⟨last, lastColon⟩
  · apply colons.imp
    rintro a b notBlank ⟨colon, rfl⟩
    exact notBlank ⟨colon, rfl⟩
  · apply comments.imp
    rintro a b notSpace ⟨rfl, comment⟩
    exact notSpace ⟨rfl, comment⟩

/-- A text that is written plainly starts as a plain scalar does. -/
theorem StartsPlain.of_fitsPlain {c : Char} {rest : List Char} (fits : fitsPlain (c :: rest) = true)
    (tail : List Char) : StartsPlain c (rest ++ tail) := by
  have chars := PlainChars.of_fitsPlain fits
  rcases fitsPlain_eq_true_iff.mp fits with ⟨quotes, ⟨head, -⟩, unbroken, start, -⟩
  constructor
  · apply chars.isSpace_eq_false List.mem_cons_self
    intro space
    exact head (congrArg some space)
  · intro indicator
    simp only [startsWithIndicator, Bool.or_eq_false_iff, indicator, Bool.and_true] at start
    rcases start with ⟨⟨-, sign⟩, blank⟩
    have isSign : c = '-' ∨ c = '?' ∨ c = ':' := by
      by_contra other
      simp only [not_or] at other
      simp [other] at sign
    have inLine : (rest.isEmpty || rest.head?.any isBlank) = false := by
      rcases isSign with rfl | rfl | rfl <;> simpa using blank
    constructor
    · exact isSign
    · cases rest with
      | nil => simp at inLine
      | cons d rest =>
        have notBreak := unbroken d (by simp)
        simpa [atSpace, isSpace, notBreak] using inLine

/-! ## Styles -/

/-- What a text has to be like to be written in a style. -/
inductive Styled (text : List Char) : Style → Prop where
  | plain {c : Char} {rest : List Char} : text = c :: rest → PlainText text →
    (∀ tail, StartsPlain c (rest ++ tail)) → Styled text .plain
  | single : SingleText text → Styled text .single
  | double : Styled text .double
  | literal : text ≠ [] → (∀ c ∈ text, isBreak c = true → IsLineEnd c) → Styled text .literal

theorem SingleText.of_fitsQuotes {text : List Char} (fits : fitsQuotes text = true)
    (noNewline : '\n' ∉ text) : SingleText text := by
  rcases fitsQuotes_eq_true_iff.mp fits with ⟨after, before, noTab, ordinary⟩
  constructor
  · intro c mem space
    have notTab : c ≠ '\t' := fun same => noTab (same ▸ mem)
    have notNewline : c ≠ '\n' := fun same => noNewline (same ▸ mem)
    have printable := isPrintable_of_hasSpecial ordinary mem notTab
    simp only [isSpace, isBlank, notTab, decide_false, Bool.or_false, Bool.or_eq_true,
      decide_eq_true_eq] at space
    rcases space with blank | broken
    · exact .inl blank
    · exact .inr ((isLineEnd_of_isPrintable printable broken).resolve_left notNewline)
  · apply before.imp
    rintro a b beforeBreak ⟨space, separator⟩
    exact beforeBreak ⟨space, separator.isLineEnd.isBreak⟩
  · apply after.imp
    rintro a b afterBreak ⟨separator, space⟩
    exact afterBreak ⟨separator.isLineEnd.isBreak, space⟩

/-- A text is written in a style that can hold it. -/
theorem styled_styleOf (text : List Char) : Styled text (styleOf text) := by
  unfold styleOf
  split
  · split
    · next newline fits =>
      simp only [fitsBlock, Bool.and_eq_true, Bool.not_eq_true', List.isEmpty_eq_false_iff] at fits
      apply Styled.literal fits.1.1.1
      intro c mem broken
      apply isLineEnd_of_isPrintable _ broken
      apply isPrintable_of_hasSpecial fits.2 mem
      rintro rfl
      simp [isBreak] at broken
    · exact .double
  next newline =>
  split
  · next reads =>
    split
    · next fits =>
      cases text with
      | nil => simp [readsAsText, meaning] at reads
      | cons c rest =>
        exact .plain rfl (PlainChars.of_fitsPlain fits).plainText (StartsPlain.of_fitsPlain fits)
    · split
      · next fits => exact .single (SingleText.of_fitsQuotes fits (by simpa using newline))
      · exact .double
  · exact .double

end Protoclass.Yaml
