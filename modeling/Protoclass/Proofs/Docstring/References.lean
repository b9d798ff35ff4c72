import Protoclass.Proofs.Docstring.SeeAlso
import Protoclass.Proofs.Text.Folded
import Protoclass.Proofs.Text.Parts

/-!
# References that remain

Expanding leaves no reference behind, and where there is nothing to expand or to merge
it changes nothing.  A reference is written without a dot, a comma or a line end.  What
a rule writes begins with one of these, so a reference in the new text lies in a part
that was copied, and was a reference in the text before.
-/

namespace Protoclass.Reference

open Text (newline dot folded ofChars)

/-! ## References -/

/-- A word character, in either case. -/
def isWord (c : Char) : Bool :=
  c.isAlphanum || c == '_' || c == '\u017F' || c == '\u212A'

/-- The characters of `@see`, a space and a word character, in either case. -/
def IsReference (cs : List Char) : Prop :=
  ∃ see c, cs = see ++ [c] ∧ see.map folded = "@see ".toList ∧ isWord c = true

/-- The characters of the head of a block, in either case. -/
def IsBlockHead (cs : List Char) : Prop := cs.map folded = ".. seealso::".toList

/-- Some characters of a kind stand in a text. -/
def Holds (kind : List Char → Prop) (text : Text) : Prop :=
  ∃ cs, kind cs ∧ ofChars cs <:+: text

/-- Some characters of a kind stand first in a text. -/
def Starts (kind : List Char → Prop) (text : Text) : Prop :=
  ∃ cs, kind cs ∧ ofChars cs <+: text

theorem Starts.holds {kind : List Char → Prop} {text whole : Text} (starts : Starts kind text)
    (suffix : text <:+ whole) : Holds kind whole := by
  obtain ⟨cs, isKind, begins⟩ := starts
  exact ⟨cs, isKind, begins.isInfix.trans suffix.isInfix⟩

/-! ## Words -/

theorem isAlphanum_of_high {c : Char} (high : 128 ≤ c.toNat) : c.isAlphanum = false := by
  have above : ∀ n : UInt32, n.toNat < 128 → ¬c.val ≤ n := by
    intro n small low
    have codes : c.toNat ≤ n.toNat := UInt32.le_iff_toNat_le.mp low
    omega
  have upper : c.isUpper = false :=
    decide_eq_false fun range => above 'Z'.val (by decide) range.2
  have lower : c.isLower = false := Bool.eq_false_iff.mpr fun range =>
    above 'z'.val (by decide) (of_decide_eq_true ((Bool.and_eq_true_iff).mp range).2)
  have digit : c.isDigit = false := Bool.eq_false_iff.mpr fun range =>
    above '9'.val (by decide) (of_decide_eq_true ((Bool.and_eq_true_iff).mp range).2)
  have parts : c.isAlphanum = (c.isUpper || c.isLower || c.isDigit) := rfl
  rw [parts, upper, lower, digit]
  rfl

/-- The bytes of a word character. -/
theorem exists_isWord_encode_iff (bytes : Text) :
    (∃ c, isWord c = true ∧ String.utf8EncodeChar c = bytes) ↔
      (∃ b, isWordByte b = true ∧ bytes = [b]) ∨ bytes = [0xC5, 0xBF] ∨
        bytes = [0xE2, 0x84, 0xAA] := by
  have each : ∀ n : Fin 128, isWord (Char.ofNat n) = isWordByte (UInt8.ofNat n) := by
    decide
  constructor
  · rintro ⟨c, word, rfl⟩
    by_cases ascii : c.toNat < 128
    · have same := each ⟨c.toNat, ascii⟩
      rw [Char.ofNat_toNat, word] at same
      exact .inl ⟨_, same.symm, Text.encode_of_lt ascii⟩
    · have plain := isAlphanum_of_high (Nat.le_of_not_lt ascii)
      have other : c ≠ '_' := by
        rintro rfl
        exact ascii (by decide)
      simp only [isWord, plain, Bool.false_or, Bool.or_eq_true, beq_iff_eq, other, false_or] at word
      rcases word with rfl | rfl
      · exact .inr (.inl rfl)
      · exact .inr (.inr rfl)
  · rintro (⟨b, word, rfl⟩ | rfl | rfl)
    · have low : b < 128 := by
        unfold isWordByte at word
        grind
      have same := each ⟨b.toNat, UInt8.lt_iff_toNat_lt.mp low⟩
      rw [UInt8.ofNat_toNat, word] at same
      exact ⟨_, same, (Text.encode_eq_one_iff b _).mpr ⟨low, rfl⟩⟩
    · exact ⟨'\u017F', by decide, rfl⟩
    · exact ⟨'\u212A', by decide, rfl⟩

/-- A run of words and dots that does not begin with a dot begins with a word
character. -/
theorem exists_isWord_of_dottedRun {text rest : Text} {b : UInt8} (run : dottedRun text = b :: rest)
    (other : b ≠ dot) : ∃ c, isWord c = true ∧ String.utf8EncodeChar c <+: text := by
  have word (bytes : Text) {back : Text} (split : text = bytes ++ back)
      (kind : (∃ b, isWordByte b = true ∧ bytes = [b]) ∨ bytes = [0xC5, 0xBF] ∨
        bytes = [0xE2, 0x84, 0xAA]) :
      ∃ c, isWord c = true ∧ String.utf8EncodeChar c <+: text := by
    obtain ⟨c, isWord, rfl⟩ := (exists_isWord_encode_iff bytes).mpr kind
    exact ⟨c, isWord, back, split.symm⟩
  cases text with
  | nil => contradiction
  | cons a text =>
    rw [dottedRun.eq_def] at run
    dsimp only at run
    split at run
    next single =>
      obtain ⟨rfl, -⟩ := List.cons.inj run
      rw [Bool.or_eq_true, beq_iff_eq, or_iff_left other] at single
      exact word [a] rfl (.inl ⟨a, single, rfl⟩)
    next =>
      cases text with
      | nil => contradiction
      | cons b' text =>
        dsimp only at run
        split at run
        next long =>
          obtain ⟨rfl, rfl⟩ := long
          exact word [0xC5, 0xBF] rfl (.inr (.inl rfl))
        next =>
          cases text with
          | nil => contradiction
          | cons c' text =>
            dsimp only at run
            split at run
            next kelvin =>
              obtain ⟨rfl, rfl, rfl⟩ := kelvin
              exact word [0xE2, 0x84, 0xAA] rfl (.inr (.inr rfl))
            next => contradiction

theorem exists_dottedRun_encode_append {c : Char} (word : isWord c = true) (back : Text) :
    ∃ b rest, dottedRun (String.utf8EncodeChar c ++ back) = b :: rest ∧ b ≠ dot := by
  rcases (exists_isWord_encode_iff _).mp ⟨c, word, rfl⟩ with ⟨b, single, bytes⟩ | bytes | bytes
  · have other : b ≠ dot := by
      rintro rfl
      contradiction
    refine ⟨b, dottedRun back, ?_, other⟩
    rw [bytes, List.singleton_append, dottedRun.eq_def]
    simp [single]
  · rw [bytes]
    refine ⟨0xC5, 0xBF :: dottedRun back, ?_, by decide⟩
    rw [List.cons_append, dottedRun.eq_def]
    rfl
  · rw [bytes]
    exact ⟨0xE2, 0x84 :: 0xAA :: dottedRun back, rfl, by decide⟩

theorem exists_dottedRun_eq_cons_iff (text : Text) :
    (∃ b rest, dottedRun text = b :: rest ∧ b ≠ dot) ↔
      ∃ c, isWord c = true ∧ String.utf8EncodeChar c <+: text := by
  constructor
  · rintro ⟨b, rest, run, other⟩
    exact exists_isWord_of_dottedRun run other
  · rintro ⟨c, word, back, rfl⟩
    exact exists_dottedRun_encode_append word back

theorem dottedName_ne_nil_iff (text : Text) :
    dottedName text ≠ [] ↔ ∃ c, isWord c = true ∧ String.utf8EncodeChar c <+: text := by
  rw [← exists_dottedRun_eq_cons_iff, dottedName]
  cases dottedRun text with
  | nil => simp
  | cons b rest =>
    by_cases same : b = dot
    · subst same
      simp [Text.splitOn_cons_self]
    · obtain ⟨piece, pieces, split⟩ := Text.exists_splitOn_eq_cons dot rest
      simp [Text.splitOn_cons_of_ne same split, same]

/-! ## Places where a rule applies -/

theorem afterFolded?_see_eq_some_iff {text named : Text} :
    Text.afterFolded? "@see " text = some named ↔
      ∃ see : List Char, see.map folded = "@see ".toList ∧ text = ofChars see ++ named :=
  Text.afterFolded?_eq_some_iff (by simp)

theorem afterFolded?_head_eq_some_iff {text rest : Text} :
    Text.afterFolded? ".. seealso::" text = some rest ↔
      ∃ cs : List Char, IsBlockHead cs ∧ text = ofChars cs ++ rest :=
  Text.afterFolded?_eq_some_iff (by simp)

theorem starts_reference_iff (text : Text) :
    Starts IsReference text ↔
      ∃ named, Text.afterFolded? "@see " text = some named ∧ dottedName named ≠ [] := by
  constructor
  · rintro ⟨_, ⟨see, c, rfl, spelled, word⟩, back, rfl⟩
    refine ⟨String.utf8EncodeChar c ++ back, ?_, (dottedName_ne_nil_iff _).mpr ⟨c, word, back, rfl⟩⟩
    apply afterFolded?_see_eq_some_iff.mpr ⟨see, spelled, ?_⟩
    rw [Text.ofChars_append, List.append_assoc]
    simp [ofChars]
  · rintro ⟨named, found, words⟩
    obtain ⟨see, spelled, rfl⟩ := afterFolded?_see_eq_some_iff.mp found
    obtain ⟨c, word, back, rfl⟩ := (dottedName_ne_nil_iff named).mp words
    refine ⟨see ++ [c], ⟨see, c, rfl, spelled, word⟩, back, ?_⟩
    rw [Text.ofChars_append, List.append_assoc]
    simp [ofChars]

/-- The class rule applies exactly at the references. -/
theorem classRule_eq_none_iff (margin text : Text) :
    classRule margin text = none ↔ ¬Starts IsReference text := by
  rw [starts_reference_iff, classRule]
  cases found : Text.afterFolded? "@see " text with
  | none => simp
  | some named =>
    by_cases words : dottedName named = []
    · simp [words]
    · simp [words]

/-- A rule for references applies only at them. -/
theorem Refers.starts {margin : Text} {rule : Rule} (refers : Refers margin rule) {text new : Text}
    {taken : Nat} (applied : rule text = some (new, taken)) : Starts IsReference text := by
  obtain ⟨named, -, found, words, -⟩ := refers _ _ _ applied
  exact (starts_reference_iff text).mpr ⟨named, found, words⟩

/-- The merge rule applies only where the head of a block follows. -/
theorem holds_of_mergeRule {text new : Text} {taken : Nat}
    (applied : mergeRule text = some (new, taken)) : Holds IsBlockHead text := by
  simp only [mergeRule, Option.bind_eq_bind, Option.bind_eq_some_iff] at applied
  obtain ⟨entry, found, below, ended, rest, merged, -⟩ := applied
  obtain ⟨role, rfl, -, -⟩ := afterFolded?_eq_some found
  have line := List.dropWhile_suffix (l := entry) (· != newline)
  rw [Text.after?_eq_some_iff.mp ended] at line
  have under := List.dropWhile_suffix (l := below) isGap
  have pattern : Text.ofString ".. seealso::\n" = Text.ofString ".. seealso::" ++ [newline] := rfl
  rw [pattern, afterFolded?_append, Option.bind_eq_some_iff] at merged
  obtain ⟨behind, head, -⟩ := merged
  obtain ⟨cs, spelled, split⟩ := afterFolded?_head_eq_some_iff.mp head
  have starts : ofChars cs <+: below.dropWhile isGap := ⟨behind, split.symm⟩
  have lower := (under.trans (List.suffix_cons newline below)).trans line
  exact ⟨cs, spelled, starts.isInfix.trans (lower.trans (List.suffix_append role entry)).isInfix⟩

theorem replaceAll_cons_of_unapplied {rule : Rule} {b : UInt8} {text : Text}
    (unapplied : rule (b :: text) = none) :
    replaceAll rule (b :: text) = b :: replaceAll rule text := by
  rw [replaceAll, replaceFrom, unapplied]
  rfl

theorem replaceAll_eq_self {rule : Rule} {text : Text}
    (unapplied : ∀ rest, rest <:+ text → rule rest = none) : replaceAll rule text = text := by
  induction text with
  | nil => rfl
  | cons b text ih =>
    have inner := ih fun rest suffix => unapplied rest (suffix.trans (List.suffix_cons b text))
    rw [replaceAll_cons_of_unapplied (unapplied _ List.suffix_rfl), inner]

/-- Where there is nothing to expand and nothing to merge, a text stays as it is. -/
theorem expand_eq_self (margin : Text) {text : Text} (unreferenced : ¬Holds IsReference text)
    (headless : ¬Holds IsBlockHead text) : expand margin text = text := by
  have kept {rule : Rule} (refers : Refers margin rule) : replaceAll rule text = text := by
    apply replaceAll_eq_self
    intro rest suffix
    rw [Option.eq_none_iff_forall_ne_some]
    exact fun found applied => unreferenced ((refers.starts applied).holds suffix)
  have merged : replaceAll mergeRule text = text := by
    apply replaceAll_eq_self
    intro rest suffix
    rw [Option.eq_none_iff_forall_ne_some]
    intro found applied
    obtain ⟨cs, spelled, inside⟩ := holds_of_mergeRule applied
    exact headless ⟨cs, spelled, inside.trans suffix.isInfix⟩
  rw [expand, kept (refers_methodRule margin), kept (refers_classRule margin), merged]

/-! ## Parts of a new text -/

/-- What a rule writes is a beginning of the text that it replaces, up to a mark. -/
def Marks (mark : UInt8) (rule : Rule) : Prop :=
  ∀ (text new : Text) (taken : Nat), rule text = some (new, taken) →
    ∃ kept more, new = kept ++ mark :: more ∧ kept <+: text

/-- What stands first in the new text, without a mark, stands first in the text. -/
theorem Marks.prefix_of_prefix {mark : UInt8} {rule : Rule} (marks : Marks mark rule)
    {part : Text} (unmarked : mark ∉ part) {text : Text}
    (starts : part <+: replaceAll rule text) : part <+: text := by
  induction text generalizing part with
  | nil => exact starts
  | cons b text ih =>
    cases applied : rule (b :: text) with
    | none =>
      rw [replaceAll_cons_of_unapplied applied] at starts
      cases part with
      | nil => exact List.nil_prefix
      | cons c part =>
        rw [List.mem_cons, not_or] at unmarked
        obtain ⟨rfl, later⟩ := List.cons_prefix_cons.mp starts
        exact (List.prefix_cons_inj c).mpr (ih unmarked.2 later)
    | some found =>
      obtain ⟨new, taken⟩ := found
      obtain ⟨kept, more, rfl, kept_prefix⟩ := marks _ _ _ applied
      rw [replaceAll, replaceFrom, applied] at starts
      simp only [List.append_assoc, List.cons_append] at starts
      exact (Text.prefix_of_prefix_append_cons kept unmarked starts).trans kept_prefix

/-- A part of the new text that begins with a byte which the rule does not write, and
is without a mark, was copied: it stands in the text where the rule does not apply. -/
theorem Marks.exists_unapplied {mark first : UInt8} {rule : Rule} (marks : Marks mark rule)
    (unwritten : ∀ text new taken, rule text = some (new, taken) → first ∉ new) {part text : Text}
    (unmarked : mark ∉ first :: part) (inside : first :: part <:+: replaceAll rule text) :
    ∃ rest, rest <:+ text ∧ first :: part <+: rest ∧ rule rest = none := by
  unfold replaceAll at inside
  generalize skipped : 0 = skip at inside
  clear skipped
  induction text generalizing skip with
  | nil =>
    unfold replaceFrom at inside
    simp at inside
  | cons b text ih =>
    have later {skip : Nat} (inside : first :: part <:+: replaceFrom rule skip text) :
        ∃ rest, rest <:+ b :: text ∧ first :: part <+: rest ∧ rule rest = none := by
      obtain ⟨rest, suffix, found⟩ := ih skip inside
      exact ⟨rest, suffix.trans (List.suffix_cons b text), found⟩
    cases skip with
    | succ skip => exact later inside
    | zero =>
      cases applied : rule (b :: text) with
      | none =>
        have copied := replaceAll_cons_of_unapplied applied
        rw [← replaceAll, copied, List.infix_cons_iff, ← copied] at inside
        rcases inside with starts | inside
        · exact ⟨b :: text, List.suffix_rfl, marks.prefix_of_prefix unmarked starts, applied⟩
        · exact later inside
      | some found =>
        obtain ⟨new, taken⟩ := found
        rw [replaceFrom, applied] at inside
        exact later (Text.infix_of_infix_append (unwritten _ _ _ applied) inside)

/-! ## The text of a reference -/

/-- The comma that stands between two entries of a block. -/
abbrev comma : UInt8 := 44

/-- The at sign that a reference begins with. -/
abbrev atSign : UInt8 := 64

theorem IsReference.notMem {cs : List Char} (reference : IsReference cs) {b : UInt8}
    (ascii : b < 128) (unlike : folded (Char.ofNat b.toNat) ∉ "@see ".toList)
    (wordless : isWord (Char.ofNat b.toNat) = false) : b ∉ ofChars cs := by
  obtain ⟨see, c, rfl, spelled, word⟩ := reference
  intro member
  rcases List.mem_append.mp (Text.mem_ofChars ascii member) with inSee | isLast
  · exact unlike (spelled ▸ List.mem_map_of_mem inSee)
  · rw [← List.mem_singleton.mp isLast, wordless] at word
    contradiction

theorem IsReference.exists_eq_cons {cs : List Char} (reference : IsReference cs) :
    ∃ rest, ofChars cs = atSign :: rest := by
  obtain ⟨named, found, -⟩ := (starts_reference_iff _).mp ⟨cs, reference, List.prefix_rfl⟩
  cases bytes : ofChars cs with
  | nil =>
    rw [bytes] at found
    contradiction
  | cons b rest =>
    by_cases same : b = atSign
    · exact ⟨rest, by rw [same]⟩
    · rw [bytes, afterFolded?_see_eq_none same] at found
      contradiction

/-! ## What the rules write -/

/-- A rule for references writes no at sign that does not stand in the margin. -/
theorem Refers.atSign_notMem {margin : Text} {rule : Rule} (refers : Refers margin rule)
    (plain : atSign ∉ margin) {text new : Text} {taken : Nat}
    (applied : rule text = some (new, taken)) : atSign ∉ new := by
  obtain ⟨named, -, -, -, isEntry, -⟩ := refers _ _ _ applied
  have apart {text : Text} (absent : atSign ∉ text) : ∀ b ∈ text, b ≠ atSign :=
    fun b member same => absent (same ▸ member)
  have words := forall_mem_dottedName
    (apart (notMem_dottedRun (by decide) (by decide) (by decide) named))
  intro member
  exact isEntry.forall_mem (apart (by decide)) (apart plain) (apart (by decide)) words atSign member
    rfl

/-- What a rule for references writes starts with the dot of a block's head. -/
theorem Refers.marks {margin : Text} {rule : Rule} (refers : Refers margin rule) :
    Marks dot rule := by
  intro text new taken applied
  obtain ⟨named, -, -, -, ⟨line, rfl, -⟩, -⟩ := refers _ _ _ applied
  exact ⟨[], Text.ofString ". seealso::\n" ++ (margin ++ line), rfl, List.nil_prefix⟩

theorem marks_mergeRule : Marks comma mergeRule := by
  intro text new taken applied
  obtain ⟨line, skipped, rest, -, -, rfl, rfl, -⟩ := mergeRule_eq_some applied
  exact ⟨line, [newline], rfl, by simp⟩

/-- Merging copies what has no comma and no line end. -/
theorem infix_of_infix_merged {part : Text} (unmarked : comma ∉ part) (oneLine : newline ∉ part)
    {text : Text} (inside : part <:+: replaceAll mergeRule text) : part <:+: text := by
  unfold replaceAll at inside
  generalize skipped : 0 = skip at inside
  clear skipped
  induction text generalizing skip with
  | nil =>
    unfold replaceFrom at inside
    exact inside
  | cons b text ih =>
    cases skip with
    | succ skip => exact List.infix_cons (ih skip inside)
    | zero =>
      cases applied : mergeRule (b :: text) with
      | none =>
        have copied := replaceAll_cons_of_unapplied applied
        rw [← replaceAll, copied, List.infix_cons_iff, ← copied] at inside
        rcases inside with starts | inside
        · exact (marks_mergeRule.prefix_of_prefix unmarked starts).isInfix
        · exact List.infix_cons (ih 0 inside)
      | some found =>
        obtain ⟨new, taken⟩ := found
        obtain ⟨line, dropped, rest, -, -, split, rfl, -⟩ := mergeRule_eq_some applied
        have written : (line ++ ",\n" : Text) = line ++ comma :: [newline] := rfl
        rw [replaceFrom, applied] at inside
        simp only [written, List.append_assoc, List.cons_append, List.nil_append] at inside
        rcases Text.infix_or_infix_of_append_cons line unmarked inside with inLine | behind
        · rw [split, List.append_assoc]
          exact inLine.trans (List.prefix_append line _).isInfix
        · rcases Text.infix_or_infix_of_append_cons [] oneLine behind with nothing | later
          · rw [List.infix_nil.mp nothing]
            exact List.nil_infix
          · exact List.infix_cons (ih _ later)

/-- No reference is left in a text whose references are expanded. -/
theorem not_holds_expand {margin : Text} (plain : atSign ∉ margin) (text : Text) :
    ¬Holds IsReference (expand margin text) := by
  rintro ⟨cs, reference, inside⟩
  obtain ⟨rest, bytes⟩ := reference.exists_eq_cons
  have merged := infix_of_infix_merged (reference.notMem (by decide) (by decide) (by decide))
    (reference.notMem (by decide) (by decide) (by decide)) inside
  have unmarked : dot ∉ ofChars cs := reference.notMem (by decide) (by decide) (by decide)
  rw [bytes] at merged unmarked
  obtain ⟨left, -, starts, unapplied⟩ :=
    (refers_classRule margin).marks.exists_unapplied
      (fun _ _ _ applied => (refers_classRule margin).atSign_notMem plain applied) unmarked merged
  rw [← bytes] at starts
  exact (classRule_eq_none_iff margin left).mp unapplied ⟨cs, reference, starts⟩

/-! ## Deciding -/

/-- What stands somewhere in a text stands first in one of its ends. -/
theorem holds_iff_exists_tails (kind : List Char → Prop) (text : Text) :
    Holds kind text ↔ ∃ rest ∈ text.tails, Starts kind rest := by
  constructor
  · rintro ⟨cs, isKind, inside⟩
    obtain ⟨rest, starts, suffix⟩ := List.infix_iff_prefix_suffix.mp inside
    exact ⟨rest, (List.mem_tails rest text).mpr suffix, cs, isKind, starts⟩
  · rintro ⟨rest, member, starts⟩
    exact starts.holds ((List.mem_tails rest text).mp member)

instance (text : Text) : Decidable (Holds IsReference text) :=
  decidable_of_iff (∃ rest ∈ text.tails, classRule [] rest ≠ none) <| by
    simp only [ne_eq, classRule_eq_none_iff, not_not, holds_iff_exists_tails]

instance (text : Text) : Decidable (Holds IsBlockHead text) :=
  decidable_of_iff (∃ rest ∈ text.tails, (Text.afterFolded? ".. seealso::" rest).isSome) <| by
    have starts (rest : Text) :
        (Text.afterFolded? ".. seealso::" rest).isSome ↔ Starts IsBlockHead rest := by
      rw [Option.isSome_iff_exists]
      constructor
      · rintro ⟨back, found⟩
        obtain ⟨cs, spelled, rfl⟩ := afterFolded?_head_eq_some_iff.mp found
        exact ⟨cs, spelled, List.prefix_append _ _⟩
      · rintro ⟨cs, spelled, back, rfl⟩
        exact ⟨back, afterFolded?_head_eq_some_iff.mpr ⟨cs, spelled, rfl⟩⟩
    simp only [starts, holds_iff_exists_tails]

end Protoclass.Reference
