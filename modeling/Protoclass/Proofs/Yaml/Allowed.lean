import Protoclass.Proofs.Yaml.Binary

/-!
# Allowed characters

A reader refuses a text with characters that may not stand in it.  Whatever the
text is, it is written without them (`all_isAllowed_text`): in double quotes they
are escaped, and the other styles are chosen only for texts that have none.
-/

namespace Protoclass.Yaml

theorem isAllowed_of_isPrintable {c : Char} (printable : isPrintable c = true) :
    isAllowed c = true := by
  simp only [isPrintable, Bool.or_eq_true, Bool.and_eq_true, decide_eq_true_eq,
    bne_iff_ne] at printable
  rcases printable with (newline | ascii) | ⟨⟨low, high⟩, -⟩
  · simp [isAllowed, newline]
  · simp [isAllowed, ascii]
  · have high : c.toNat ≤ 0xFFFD := by omega
    simp [isAllowed, low, high]

/-- A text that is not written in double quotes has only allowed characters. -/
theorem all_isAllowed_of_styleOf {text : List Char} (style : styleOf text ≠ .double) :
    text.all isAllowed = true := by
  have ordinary : hasSpecial text = false := by
    unfold styleOf at style
    split at style
    · split at style
      · next fits =>
        simp only [fitsBlock, Bool.and_eq_true, Bool.not_eq_true'] at fits
        exact fits.2
      · exact absurd rfl style
    · split at style
      · split at style
        · next fits =>
          exact (fitsQuotes_eq_true_iff.mp (fitsPlain_eq_true_iff.mp fits).1).2.2.2
        · split at style
          · next fits => exact (fitsQuotes_eq_true_iff.mp fits).2.2.2
          · exact absurd rfl style
      · exact absurd rfl style
  rw [List.all_eq_true]
  intro c mem
  by_cases tab : c = '\t'
  · rw [tab]
    rfl
  · exact isAllowed_of_isPrintable (isPrintable_of_hasSpecial ordinary mem tab)

theorem all_replicate_space (count : Nat) : (List.replicate count ' ').all isAllowed = true := by
  rw [List.all_eq_true]
  intro c mem
  rw [List.eq_of_mem_replicate mem]
  rfl

theorem all_isAllowed_ite {p : Prop} [Decidable p] {a b : List Char}
    (first : a.all isAllowed = true)
    (second : b.all isAllowed = true) : (if p then a else b).all isAllowed = true := by
  split
  · exact first
  · exact second

theorem all_isAllowed_singleQuotedFrom {text : List Char} (allowed : text.all isAllowed = true)
    (indent : Nat) (broken : Bool) :
    (singleQuotedFrom indent broken text).all isAllowed = true := by
  induction text generalizing broken with
  | nil => rfl
  | cons c rest ih =>
    rw [List.all_cons, Bool.and_eq_true] at allowed
    rw [singleQuotedFrom]
    split
    · rw [List.all_cons, allowed.1, ih allowed.2]
      rfl
    · have quoted : (inSingleQuotes c).all isAllowed = true :=
        all_isAllowed_ite rfl (by rw [List.all_cons, allowed.1]; rfl)
      rw [List.all_append, List.all_append, quoted, ih allowed.2,
        all_isAllowed_ite (all_replicate_space indent) rfl]
      rfl

theorem all_isAllowed_blockLines {text : List Char} (allowed : text.all isAllowed = true)
    (indent : Nat) (lineStart : Bool) :
    (blockLines indent lineStart text).all isAllowed = true := by
  induction text generalizing lineStart with
  | nil => rfl
  | cons c rest ih =>
    rw [List.all_cons, Bool.and_eq_true] at allowed
    rw [blockLines]
    split
    · rw [List.all_cons, allowed.1, ih allowed.2]
      rfl
    · rw [List.all_append, List.all_cons, allowed.1, ih allowed.2,
        all_isAllowed_ite (all_replicate_space indent) rfl]
      rfl

theorem all_isAllowed_literalBlock {text : List Char} (allowed : text.all isAllowed = true)
    (indent : Nat) : (literalBlock indent text).all isAllowed = true := by
  have chomp : (chompSign text).all isAllowed = true := by
    unfold chompSign
    split
    · rfl
    · exact all_isAllowed_ite rfl (all_isAllowed_ite rfl rfl)
  have header : (indentSign text).all isAllowed = true := all_isAllowed_ite rfl rfl
  rw [literalBlock, List.all_append, List.all_append, List.cons_append, List.all_cons,
    List.all_append, header, chomp, all_isAllowed_ite rfl rfl, all_isAllowed_blockLines allowed]
  rfl

theorem all_isAllowed_hexText (width value : Nat) : (hexText width value).all isAllowed = true := by
  have digit : ∀ d : Fin 16, isAllowed (hexDigit d) = true := by decide
  induction width generalizing value with
  | zero => rfl
  | succ width ih =>
    rw [hexText, List.all_append, ih, List.all_cons,
      digit ⟨value % 16, Nat.mod_lt value (Nat.succ_pos 15)⟩]
    rfl

theorem all_isAllowed_escaped (c : Char) : (escaped c).all isAllowed = true := by
  unfold escaped
  iterate 15 apply all_isAllowed_ite rfl
  apply all_isAllowed_ite
  · rw [List.all_append, all_isAllowed_hexText]
    rfl
  · apply all_isAllowed_ite
    · rw [List.all_append, all_isAllowed_hexText]
      rfl
    · rw [List.all_append, all_isAllowed_hexText]
      rfl

theorem all_isAllowed_doubleQuoted (text : List Char) :
    (doubleQuoted text).all isAllowed = true := by
  have each : ∀ marked c, (inDoubleQuotes marked c).all isAllowed = true := by
    intro marked c
    unfold inDoubleQuotes
    split
    · exact all_isAllowed_escaped c
    · next raw =>
      simp only [Bool.or_eq_true, not_or, Bool.not_eq_true', Bool.not_eq_false] at raw
      rw [List.all_cons, isAllowed_of_isPrintable raw.1.1.1.2]
      rfl
  simp [doubleQuoted, List.all_flatMap, each, isAllowed]

theorem all_isAllowed_inStyle {style : Style} {text : List Char}
    (allowed : style ≠ .double → text.all isAllowed = true) (indent : Nat) :
    (inStyle style indent text).all isAllowed = true := by
  cases style with
  | plain => exact allowed (by decide)
  | single =>
    rw [inStyle, singleQuoted, List.all_append, List.all_cons,
      all_isAllowed_singleQuotedFrom (allowed (by decide))]
    rfl
  | double => exact all_isAllowed_doubleQuoted text
  | literal => exact all_isAllowed_literalBlock (allowed (by decide)) indent
  | folded => exact all_isAllowed_literalBlock (allowed (by decide)) indent

theorem all_isAllowed_binaryText (bytes : Text) : (binaryText bytes).all isAllowed = true := by
  have digit : ∀ c ∈ digits bytes, isAllowed c = true := by
    intro c mem
    rcases List.mem_map.mp mem with ⟨b, isDigit, rfl⟩
    exact (digitChar_spec (.of_mem_encode isDigit)).2.2.2.2.2
  rw [List.all_eq_true]
  intro c mem
  unfold binaryText at mem
  split at mem
  · exact digit c mem
  · rcases mem_wrapped mem with mem | rfl
    · exact digit c mem
    · rfl

theorem all_isAllowed_endLine {line : List Char} (allowed : line.all isAllowed = true) :
    (endLine line).all isAllowed = true :=
  all_isAllowed_ite allowed (by rw [List.all_append, allowed]; rfl)

theorem all_isAllowed_text (indent : Nat) (text : Text) :
    (endLine (scalarChars indent text)).all isAllowed = true := by
  apply all_isAllowed_endLine
  unfold scalarChars
  split
  · exact all_isAllowed_inStyle all_isAllowed_of_styleOf indent
  · rw [binary, List.all_append, List.all_cons,
      all_isAllowed_inStyle (fun _ => all_isAllowed_binaryText text)]
    rfl

end Protoclass.Yaml
