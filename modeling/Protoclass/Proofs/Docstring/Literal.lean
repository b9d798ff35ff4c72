import Mathlib.Data.List.Infix
import Protoclass.Proofs.Docstring.Margin

/-!
# Docstrings as string literals

A docstring is read as one string literal between triple quotes.  A scanner for
such literals says where one ends; a text is divided into escapes and single bytes
to say, without scanning, which texts can stand between the quotes.  Comments are
not escaped, so a docstring is one literal exactly when its comment is such a text.
-/

namespace Protoclass.Docstring

open Text (newline)

/-! ## Literals -/

/-- The double quote, three of which stand on both sides of a docstring. -/
abbrev quote : UInt8 := 34

/-- The backslash, which makes an escape together with the byte behind it. -/
abbrev backslash : UInt8 := 92

/-- A byte that means itself wherever it stands in a literal. -/
def IsPlain (b : UInt8) : Prop :=
  b ≠ quote ∧ b ≠ backslash

instance (b : UInt8) : Decidable (IsPlain b) :=
  inferInstanceAs (Decidable (_ ∧ _))

/-- The bytes of a fixed text are looked at one by one. -/
theorem isPlain_of_all {text : Text} (all : text.all (fun b => IsPlain b) = true) :
    ∀ b ∈ text, IsPlain b := by
  simpa using all

theorem quotes_eq_replicate : quotes = List.replicate 3 quote := rfl

/-- What stands behind a literal, from behind the quotes that open it: the first
three quotes in a row that no backslash escapes end it. -/
def closing? : Text → Option Text
  | [] => none
  | b :: rest =>
    if b = backslash then
      match rest with
      | [] => none
      | _ :: rest => closing? rest
    else (Text.after? quotes (b :: rest)).or (closing? rest)

/-- The text is one literal, with nothing behind it. -/
def IsLiteral (text : Text) : Prop :=
  (Text.after? quotes text).bind closing? = some []

instance (text : Text) : Decidable (IsLiteral text) :=
  inferInstanceAs (Decidable (_ = _))

/-- The escapes and the single bytes of a text.  A backslash with nothing behind it
is a single byte. -/
def units : Text → List Text
  | [] => []
  | b :: rest =>
    if b = backslash then
      match rest with
      | [] => [[b]]
      | c :: rest => [b, c] :: units rest
    else [b] :: units rest

/-- Three quotes stand in a row, none of them in an escape. -/
def HasRun (text : Text) : Prop :=
  List.replicate 3 [quote] <:+: units text

/-- The text ends in a quote or in a backslash that is not in an escape, so that a
quote behind it would be read together with it. -/
def EndsOpen (text : Text) : Prop :=
  (units text).getLast? = some [quote] ∨ (units text).getLast? = some [backslash]

instance (text : Text) : Decidable (HasRun text) :=
  inferInstanceAs (Decidable (_ <:+: _))

instance (text : Text) : Decidable (EndsOpen text) :=
  inferInstanceAs (Decidable (_ ∨ _))

theorem flatten_units (text : Text) : (units text).flatten = text := by
  fun_induction units text with
  | case1 => rfl
  | case2 => rfl
  | case3 c rest ih =>
    rw [List.flatten_cons, ih]
    rfl
  | case4 b rest plain ih =>
    rw [List.flatten_cons, ih]
    rfl

theorem units_cons_of_ne {b : UInt8} (plain : b ≠ backslash) (rest : Text) :
    units (b :: rest) = [b] :: units rest := by
  rw [units.eq_def]
  exact if_neg plain

theorem units_ne_nil {text : Text} (given : text ≠ []) : units text ≠ [] := by
  intro none
  rw [← flatten_units text, none] at given
  exact given rfl

/-- Quotes at the start of a text are single bytes. -/
theorem replicate_prefix_units_iff (n : Nat) (text : Text) :
    List.replicate n [quote] <+: units text ↔ List.replicate n quote <+: text := by
  induction n generalizing text with
  | zero => simp
  | succ n ih =>
    cases text with
    | nil => simp [units]
    | cons b rest =>
      by_cases escape : b = backslash
      · subst escape
        have other : quote ≠ backslash := by decide
        cases rest <;> simp [units, List.replicate_succ, other]
      · rw [units_cons_of_ne escape, List.replicate_succ, List.replicate_succ,
          List.cons_prefix_cons, List.cons_prefix_cons, ih]
        simp

theorem hasRun_cons_of_ne {b : UInt8} (plain : b ≠ backslash) (rest : Text) :
    HasRun (b :: rest) ↔ quotes <+: b :: rest ∨ HasRun rest := by
  rw [HasRun, units_cons_of_ne plain, List.infix_cons_iff, ← units_cons_of_ne plain,
    replicate_prefix_units_iff]
  rfl

theorem hasRun_escape (c : UInt8) (rest : Text) :
    HasRun (backslash :: c :: rest) ↔ HasRun rest := by
  have split : units (backslash :: c :: rest) = [backslash, c] :: units rest := rfl
  rw [HasRun, split, List.infix_cons_iff, List.replicate_succ, List.cons_prefix_cons]
  simp [HasRun, List.replicate_succ]

theorem endsOpen_cons_of_ne {b : UInt8} (plain : b ≠ backslash) {rest : Text}
    (given : rest ≠ []) : EndsOpen (b :: rest) ↔ EndsOpen rest := by
  obtain ⟨unit, others, split⟩ := List.exists_cons_of_ne_nil (units_ne_nil given)
  rw [EndsOpen, EndsOpen, units_cons_of_ne plain, split, List.getLast?_cons_cons]

theorem endsOpen_escape (c : UInt8) (rest : Text) :
    EndsOpen (backslash :: c :: rest) ↔ EndsOpen rest := by
  have split : units (backslash :: c :: rest) = [backslash, c] :: units rest := rfl
  rw [EndsOpen, EndsOpen, split]
  cases units rest with
  | nil => simp
  | cons unit others => rw [List.getLast?_cons_cons]

theorem closing?_cons_of_ne {b : UInt8} (plain : b ≠ backslash) (rest : Text) :
    closing? (b :: rest) = (Text.after? quotes (b :: rest)).or (closing? rest) := by
  rw [closing?.eq_def]
  exact if_neg plain

theorem hasRun_or_endsOpen {text : Text} (given : text ≠ [])
    (starts : quotes <+: text ++ quotes) : HasRun text ∨ EndsOpen text := by
  have row : quotes = [quote, quote, quote] := rfl
  rw [row] at starts
  match text with
  | [b] =>
    simp only [List.cons_append, List.cons_prefix_cons] at starts
    obtain ⟨rfl, -⟩ := starts
    exact .inr (by decide)
  | [b, c] =>
    simp only [List.cons_append, List.cons_prefix_cons] at starts
    obtain ⟨rfl, rfl, -⟩ := starts
    exact .inr (by decide)
  | b :: c :: d :: rest =>
    simp only [List.cons_append, List.cons_prefix_cons] at starts
    obtain ⟨rfl, rfl, rfl, -⟩ := starts
    exact .inl ((hasRun_cons_of_ne (by decide) _).mpr (.inl ⟨rest, rfl⟩))

/-- The quotes behind a text end the literal that it stands in exactly when nothing
in the text does, and the text does not end open. -/
theorem closing?_append_quotes (content : Text) :
    closing? (content ++ quotes) = some [] ↔ ¬HasRun content ∧ ¬EndsOpen content := by
  fun_induction units content with
  | case1 => decide
  | case2 => decide
  | case3 c rest ih =>
    rw [hasRun_escape, endsOpen_escape]
    exact ih
  | case4 b rest plain ih =>
    rw [List.cons_append, closing?_cons_of_ne plain]
    by_cases starts : quotes <+: b :: rest ++ quotes
    · -- The literal ends here, before the quotes behind the text are used up.
      obtain ⟨behind, split⟩ := starts
      have found : Text.after? quotes (b :: (rest ++ quotes)) = some behind :=
        Text.after?_eq_some_iff.mpr split.symm
      have early : behind ≠ [] := by
        rintro rfl
        have lengths := congrArg List.length split
        rw [List.length_append, List.length_append, List.length_cons, List.length_nil] at lengths
        omega
      have spoilt := hasRun_or_endsOpen (List.cons_ne_nil b rest) ⟨behind, split⟩
      rw [found, Option.some_or, Option.some_inj, ← not_or]
      exact iff_of_false early (not_not_intro spoilt)
    · have missed : Text.after? quotes (b :: (rest ++ quotes)) = none := by
        rw [Option.eq_none_iff_forall_ne_some]
        intro behind found
        exact starts ⟨behind, (Text.after?_eq_some_iff.mp found).symm⟩
      have noRun : ¬quotes <+: b :: rest := fun run => starts (run.trans (List.prefix_append _ _))
      have ends : EndsOpen (b :: rest) ↔ EndsOpen rest := by
        cases rest with
        | nil =>
          have other : b ≠ quote := by
            rintro rfl
            exact starts (by decide)
          simp [EndsOpen, units, plain, other]
        | cons c rest => exact endsOpen_cons_of_ne plain (List.cons_ne_nil c rest)
      rw [missed, Option.none_or, hasRun_cons_of_ne plain, or_iff_right noRun, ends]
      exact ih

theorem isLiteral_iff (content : Text) :
    IsLiteral (quotes ++ content ++ quotes) ↔ ¬HasRun content ∧ ¬EndsOpen content := by
  rw [IsLiteral, List.append_assoc, Text.after?_append, Option.bind_some]
  exact closing?_append_quotes content

/-! ## Plain bytes around a text -/

theorem hasRun_append_left {front : Text} (plain : ∀ b ∈ front, IsPlain b) (text : Text) :
    HasRun (front ++ text) ↔ HasRun text := by
  induction front with
  | nil => rfl
  | cons b front ih =>
    rw [List.forall_mem_cons] at plain
    have noRun : ¬quotes <+: b :: (front ++ text) := by
      rintro ⟨behind, split⟩
      exact plain.1.1 (List.cons.inj split).1.symm
    rw [List.cons_append, hasRun_cons_of_ne plain.1.2, or_iff_right noRun]
    exact ih plain.2

theorem not_hasRun_of_plain {text : Text} (plain : ∀ b ∈ text, IsPlain b) : ¬HasRun text := by
  rw [← List.append_nil text, hasRun_append_left plain]
  decide

/-- Quotes at the start do not reach into a plain text. -/
theorem quotes_prefix_append_iff {text back : Text} (plain : ∀ b ∈ back, IsPlain b) :
    quotes <+: text ++ back ↔ quotes <+: text := by
  constructor
  · intro starts
    rcases List.prefix_or_prefix_of_prefix starts (List.prefix_append text back) with
      within | ⟨tail, split⟩
    · exact within
    · rw [← split, List.prefix_append_right_inj] at starts
      cases tail with
      | nil => rw [← split, List.append_nil]
      | cons b tail =>
        have among : b ∈ quotes := split ▸ List.mem_append_right text List.mem_cons_self
        rw [quotes_eq_replicate] at among
        have member : b ∈ back := starts.subset List.mem_cons_self
        exact absurd (List.eq_of_mem_replicate among) (plain b member).1
  · exact fun starts => starts.trans (List.prefix_append _ _)

theorem hasRun_append_right {back : Text} (plain : ∀ b ∈ back, IsPlain b) (text : Text) :
    HasRun (text ++ back) ↔ HasRun text := by
  fun_induction units text with
  | case1 => exact iff_of_false (not_hasRun_of_plain plain) (by decide)
  | case2 =>
    refine iff_of_false ?_ (by decide)
    cases back with
    | nil => decide
    | cons c back =>
      rw [List.singleton_append, hasRun_escape]
      exact not_hasRun_of_plain (List.forall_mem_cons.mp plain).2
  | case3 c rest ih =>
    rw [List.cons_append, List.cons_append, hasRun_escape, hasRun_escape]
    exact ih
  | case4 b rest other ih =>
    rw [List.cons_append, hasRun_cons_of_ne other, hasRun_cons_of_ne other, ← List.cons_append,
      quotes_prefix_append_iff plain, ih]

/-- What a text ends in when it ends open. -/
theorem EndsOpen.getLast? {text : Text} (ends : EndsOpen text) :
    ∃ b, text.getLast? = some b ∧ ¬IsPlain b := by
  have single : ∀ b, (units text).getLast? = some [b] → text.getLast? = some b := by
    intro b last
    obtain ⟨others, split⟩ := List.getLast?_eq_some_iff.mp last
    rw [← flatten_units text, split]
    simp
  rcases ends with last | last
  · exact ⟨quote, single _ last, by decide⟩
  · exact ⟨backslash, single _ last, by decide⟩

theorem not_endsOpen_of_plain {text : Text} (plain : ∀ b ∈ text, IsPlain b) : ¬EndsOpen text := by
  intro ends
  obtain ⟨b, last, other⟩ := ends.getLast?
  exact other (plain b (List.mem_of_getLast? last))

theorem not_endsOpen_append {back : Text} (given : back ≠ []) (plain : ∀ b ∈ back, IsPlain b)
    (text : Text) : ¬EndsOpen (text ++ back) := by
  intro ends
  obtain ⟨b, last, other⟩ := ends.getLast?
  rw [List.getLast?_append_of_ne_nil _ given] at last
  exact other (plain b (List.mem_of_getLast? last))

theorem isPlain_of_isBlankByte {b : UInt8} (blank : Text.IsBlankByte b) : IsPlain b := by
  constructor
  · rintro rfl
    exact absurd blank (by decide)
  · rintro rfl
    exact absurd blank (by decide)

theorem hasRun_trimLeft (text : Text) : HasRun (Text.trimLeft text) ↔ HasRun text := by
  obtain ⟨front, split, blanks⟩ := Text.exists_append_trimLeft text
  have plain : ∀ b ∈ front, IsPlain b := fun b member => isPlain_of_isBlankByte (blanks b member)
  conv_rhs => rw [← split, hasRun_append_left plain]

theorem hasRun_trim (text : Text) : HasRun (Text.trim text) ↔ HasRun text := by
  obtain ⟨front, back, split, blanks, blanks'⟩ := Text.exists_append_trim_append text
  have plain : ∀ b ∈ front, IsPlain b := fun b member => isPlain_of_isBlankByte (blanks b member)
  have plain' : ∀ b ∈ back, IsPlain b := fun b member => isPlain_of_isBlankByte (blanks' b member)
  conv_rhs => rw [← split, hasRun_append_right plain', hasRun_append_left plain]

theorem isPlain_of_mem_indent {depth : Int} {b : UInt8} (member : b ∈ indent depth) :
    IsPlain b := by
  rw [eq_space_of_mem_indent member]
  decide

/-! ## Docstrings -/

/-- A comment that can stand between triple quotes as it is: it has no three quotes
in a row, and does not end open where the quotes follow it in the same line. -/
def Quotable (text : Text) : Prop :=
  ¬HasRun text ∧ (newline ∉ Text.trim text → ¬EndsOpen (Text.trim text))

instance (text : Text) : Decidable (Quotable text) :=
  inferInstanceAs (Decidable (_ ∧ _))

/-- On several lines, the closing quotes stand on a line of their own. -/
theorem isLiteral_of_lines {text : Text} (lines : newline ∈ Text.trim text) (front : Text)
    (plain : ∀ b ∈ front, IsPlain b) (depth : Int) {shown : Text}
    (same : HasRun shown ↔ HasRun text) :
    IsLiteral (quotes ++ (front ++ shown ++ ("\n" ++ indent depth)) ++ quotes) ↔
      Quotable text := by
  have plain' : ∀ b ∈ Text.ofString "\n" ++ indent depth, IsPlain b := by
    rw [List.forall_mem_append]
    exact ⟨isPlain_of_all (by decide), fun _ => isPlain_of_mem_indent⟩
  have ends := not_endsOpen_append (by simp [Text.ofString]) plain' (front ++ shown)
  rw [isLiteral_iff, hasRun_append_right plain', hasRun_append_left plain, same, Quotable,
    and_iff_left ends, and_iff_left fun oneLine => absurd lines oneLine]

theorem isLiteral_of_line {text : Text} (oneLine : newline ∉ Text.trim text) :
    IsLiteral (quotes ++ Text.trim text ++ quotes) ↔ Quotable text := by
  rw [isLiteral_iff, hasRun_trim, Quotable, forall_prop_of_true oneLine]

theorem trim_quoted {front back : Text} (blanks : ∀ b ∈ front, Text.isAsciiBlank b = true)
    (blanks' : ∀ b ∈ back, Text.isAsciiBlank b = true) (content : Text) :
    Text.trim (front ++ (quotes ++ content ++ quotes) ++ back) = quotes ++ content ++ quotes := by
  have ends : quotes ++ content ++ quotes =
      quote :: ([quote, quote] ++ content ++ [quote, quote]) ++ [quote] := by
    simp [quotes_eq_replicate, List.replicate_succ]
  rw [ends]
  exact Text.trim_append_append blanks blanks' (by decide) (by decide)

theorem isLiteral_statement_iff {raw : Text} {depth : Int} (shown : statement raw depth ≠ []) :
    IsLiteral (Text.trim (statement raw depth)) ↔ Quotable (body raw depth) := by
  have margin : ∀ b ∈ indent depth, Text.isAsciiBlank b = true := by
    intro b member
    rw [eq_space_of_mem_indent member]
    rfl
  have gap : ∀ b ∈ Text.ofString "\n\n", Text.isAsciiBlank b = true :=
    List.all_eq_true.mp (by decide)
  unfold statement at shown ⊢
  dsimp only at shown ⊢
  split at shown
  case isTrue => exact absurd rfl shown
  case isFalse given =>
    rw [if_neg given]
    split
    case isTrue lines =>
      have lines' : newline ∈ Text.trim (body raw depth) := by simpa using lines
      have laid : (indent depth ++ quotes ++ "\n" ++ body raw depth ++ "\n" ++ indent depth ++
          quotes ++ "\n\n" : Text) = indent depth ++
            (quotes ++ ("\n" ++ body raw depth ++ ("\n" ++ indent depth)) ++ quotes) ++ "\n\n" := by
        simp only [List.append_assoc]
      rw [laid, trim_quoted margin gap]
      exact isLiteral_of_lines lines' "\n" (isPlain_of_all (by decide)) depth Iff.rfl
    case isFalse oneLine =>
      have oneLine' : newline ∉ Text.trim (body raw depth) := by simpa using oneLine
      have laid :
          (indent depth ++ quotes ++ Text.trim (body raw depth) ++ quotes ++ "\n\n" : Text) =
          indent depth ++ (quotes ++ Text.trim (body raw depth) ++ quotes) ++ "\n\n" := by
        simp only [List.append_assoc]
      rw [laid, trim_quoted margin gap]
      exact isLiteral_of_line oneLine'

theorem isLiteral_inline_iff {raw : Text} {depth : Int} (shown : inline raw depth ≠ []) :
    IsLiteral (Text.trim (inline raw depth)) ↔ Quotable (body raw depth) := by
  have bare (content : Text) :
      Text.trim (quotes ++ content ++ quotes) = quotes ++ content ++ quotes := by
    have trimmed := trim_quoted (List.forall_mem_nil _) (List.forall_mem_nil _) content
    rwa [List.nil_append, List.append_nil] at trimmed
  unfold inline at shown ⊢
  dsimp only at shown ⊢
  rw [Text.trim_trimLeft] at shown ⊢
  split at shown
  case isTrue => exact absurd rfl shown
  case isFalse given =>
    rw [if_neg given]
    split
    case isTrue lines =>
      have lines' : newline ∈ Text.trim (body raw depth) := by simpa using lines
      have laid :
          (quotes ++ Text.trimLeft (body raw depth) ++ "\n" ++ indent depth ++ quotes : Text) =
          quotes ++ ([] ++ Text.trimLeft (body raw depth) ++
            (Text.ofString "\n" ++ indent depth)) ++ quotes := by
        simp only [List.append_assoc, List.nil_append]
      rw [laid, bare]
      exact isLiteral_of_lines lines' [] (List.forall_mem_nil _) depth (hasRun_trimLeft _)
    case isFalse oneLine =>
      have oneLine' : newline ∉ Text.trim (body raw depth) := by simpa using oneLine
      rw [bare]
      exact isLiteral_of_line oneLine'

/-! ## Comments of plain bytes -/

theorem quotable_of_plain {text : Text} (plain : ∀ b ∈ text, IsPlain b) : Quotable text := by
  obtain ⟨front, back, split, -⟩ := Text.exists_append_trim_append text
  refine ⟨not_hasRun_of_plain plain, fun _ => not_endsOpen_of_plain fun b member => plain b ?_⟩
  rw [← split]
  exact List.mem_append_left _ (List.mem_append_right _ member)

theorem stripMarkers_subset (raw : Text) : stripMarkers raw ⊆ raw := by
  have closing (text : Text) : dropClosing text ⊆ text := by
    intro b member
    obtain ⟨back, split, -⟩ := Text.exists_trimRight_append text
    rw [dropClosing] at member
    cases found : Text.before? "*/" (Text.trimRight text) with
    | none =>
      rw [found] at member
      exact member
    | some front =>
      rw [found] at member
      rw [← split, Text.before?_eq_some_iff.mp found]
      exact List.mem_append_left _ (List.mem_append_left _ member)
  have opening (text : Text) : dropOpening text ⊆ text := by
    unfold dropOpening
    split
    case isTrue => exact List.nil_subset _
    case isFalse =>
      split
      case h_1 rest found =>
        rw [Text.after?_eq_some_iff.mp found]
        exact List.subset_append_right _ _
      case h_2 =>
        split
        case isTrue => exact List.drop_subset 1 text
        case isFalse => exact List.Subset.refl text
  exact List.Subset.trans (closing _)
    (List.Subset.trans (opening _) (Text.dropTail_isPrefix raw "\n").subset)

theorem isPlain_of_mem_replaceAll {rule : Reference.Rule} {text : Text}
    (keeps : ∀ text new taken, (∀ b ∈ text, IsPlain b) → rule text = some (new, taken) →
      ∀ b ∈ new, IsPlain b)
    (plain : ∀ b ∈ text, IsPlain b) : ∀ b ∈ Reference.replaceAll rule text, IsPlain b := by
  unfold Reference.replaceAll
  generalize 0 = skip
  induction text generalizing skip with
  | nil =>
    unfold Reference.replaceFrom
    exact List.forall_mem_nil _
  | cons b rest ih =>
    have plain' := (List.forall_mem_cons.mp plain).2
    cases skip with
    | succ skip => exact ih plain' skip
    | zero =>
      rw [Reference.replaceFrom]
      cases applied : rule (b :: rest) with
      | none => exact List.forall_mem_cons.mpr ⟨(List.forall_mem_cons.mp plain).1, ih plain' 0⟩
      | some found =>
        obtain ⟨new, taken⟩ := found
        exact List.forall_mem_append.mpr ⟨keeps _ _ _ plain applied, ih plain' _⟩

theorem dottedRun_isPrefix (text : Text) : Reference.dottedRun text <+: text := by
  fun_induction Reference.dottedRun text <;> simp_all [List.cons_prefix_cons]

theorem isPlain_of_refers {margin : Text} {rule : Reference.Rule}
    (refers : Reference.Refers margin rule) (plain : ∀ b ∈ margin, IsPlain b) {text new : Text}
    {taken : Nat} (plain' : ∀ b ∈ text, IsPlain b) (applied : rule text = some (new, taken)) :
    ∀ b ∈ new, IsPlain b := by
  obtain ⟨named, -, found, -, isEntry, -⟩ := refers _ _ _ applied
  obtain ⟨see, rfl, -⟩ := Reference.afterFolded?_eq_some found
  have run : ∀ b ∈ Reference.dottedRun named, IsPlain b := fun b inRun =>
    plain' b (List.mem_append_right see ((dottedRun_isPrefix named).subset inRun))
  exact isEntry.forall_mem (isPlain_of_all (by decide)) plain (isPlain_of_all (by decide))
    (Reference.forall_mem_dottedName run)

/-- Expanding references writes plain bytes, besides those of the text. -/
theorem isPlain_of_mem_expand {margin text : Text} (plain : ∀ b ∈ margin, IsPlain b)
    (plain' : ∀ b ∈ text, IsPlain b) : ∀ b ∈ Reference.expand margin text, IsPlain b := by
  refine isPlain_of_mem_replaceAll ?_ (isPlain_of_mem_replaceAll ?_
    (isPlain_of_mem_replaceAll ?_ plain'))
  · intro text new taken plain applied
    obtain ⟨line, skipped, rest, -, -, rfl, rfl, -⟩ := Reference.mergeRule_eq_some applied
    rw [List.append_assoc, List.forall_mem_append] at plain
    exact List.forall_mem_append.mpr ⟨plain.1, isPlain_of_all (by decide)⟩
  · exact fun _ _ _ => isPlain_of_refers (Reference.refers_classRule margin) plain
  · exact fun _ _ _ => isPlain_of_refers (Reference.refers_methodRule margin) plain

theorem isPlain_of_mem_body {raw : Text} (plain : ∀ b ∈ raw, IsPlain b) (depth : Int) :
    ∀ b ∈ body raw depth, IsPlain b := by
  have text : ∀ b ∈ indented depth (stripMarkers raw), IsPlain b := by
    intro b member
    rcases Text.mem_join member with ended | ⟨piece, among, inPiece⟩
    · obtain rfl := List.mem_singleton.mp ended
      decide
    · obtain ⟨line, ofText, rfl⟩ := List.mem_map.mp among
      rcases List.mem_append.mp inPiece with inMargin | inLine
      · exact isPlain_of_mem_indent inMargin
      · have inText :=
          Text.mem_of_mem_splitOn ofText ((Text.dropLead_suffix line " ").subset inLine)
        exact plain b (stripMarkers_subset raw inText)
  unfold body
  dsimp only
  split
  case isTrue => exact List.forall_mem_nil _
  case isFalse =>
    split
    case isTrue => exact List.forall_mem_nil _
    case isFalse => exact isPlain_of_mem_expand (fun _ => isPlain_of_mem_indent) text

/-- A docstring, as a statement or on the line of a value, is one string literal
exactly when the comment it shows can stand between triple quotes as it is.  A
comment without quotes and backslashes always can. -/
theorem docstring_isLiteral_iff (raw : Text) (depth : Int) :
    (statement raw depth ≠ [] →
      (IsLiteral (Text.trim (statement raw depth)) ↔ Quotable (body raw depth))) ∧
    (inline raw depth ≠ [] →
      (IsLiteral (Text.trim (inline raw depth)) ↔ Quotable (body raw depth))) ∧
    (quote ∉ raw → backslash ∉ raw → Quotable (body raw depth)) := by
  refine ⟨isLiteral_statement_iff, isLiteral_inline_iff, ?_⟩
  intro unquoted unescaped
  refine quotable_of_plain (isPlain_of_mem_body (fun b member => ⟨?_, ?_⟩) depth)
  · rintro rfl
    exact unquoted member
  · rintro rfl
    exact unescaped member

/-- Quotes inside a comment do no harm. -/
theorem docstring_with_inner_quotes :
    IsLiteral (Text.trim (statement " say \"hi\" to all\n" 1)) ∧
      IsLiteral (Text.trim (inline " say \"hi\" to all\n" 1)) ∧
      Quotable (body " say hi\n" 1) := by
  have inner := docstring_isLiteral_iff " say \"hi\" to all\n" 1
  have quotable : Quotable (body " say \"hi\" to all\n" 1) := by decide +kernel
  refine ⟨(inner.1 (by decide +kernel)).mpr quotable,
    (inner.2.1 (by decide +kernel)).mpr quotable, ?_⟩
  exact (docstring_isLiteral_iff " say hi\n" 1).2.2 (by decide) (by decide)

/-- A comment that ends in a quote: the fourth quote in a row stands behind the
literal. -/
theorem docstring_ending_in_quote :
    statement " say \"hi\"\n" 0 = "\"\"\"say \"hi\"\"\"\"\n\n" ∧
      ¬IsLiteral (Text.trim (statement " say \"hi\"\n" 0)) ∧
      inline " say \"hi\"\n" 0 = "\"\"\"say \"hi\"\"\"\"" ∧
      ¬IsLiteral (Text.trim (inline " say \"hi\"\n" 0)) := by
  decide +kernel

end Protoclass.Docstring
