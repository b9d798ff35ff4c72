import Mathlib.Algebra.Group.Int.Defs
import Mathlib.Algebra.Group.Nat.Defs
import Mathlib.Data.List.Induction
import Mathlib.Data.List.Infix
import Protoclass.Document.Writer
import Protoclass.Proofs.Text.Lines

/-!
# What a writer writes

A writer carries a flag for the start of a line, a level and the indentation of that
level, and every operation updates them.  Beside it stands the text of a sequence of
operations as a reader sees it: the pieces that were written, one behind the other, where
a piece of a line has the indentation of its level before it exactly when a line starts
there.  Whether one starts is read off the text that was written before, and the level off
the operations before.

`Follows` relates a writer whose level is any number to this text; each operation keeps
it, so it holds after any sequence.  A writer whose level is a 64-bit word does the same
as long as the levels and the lengths of their indentations fit into one, and otherwise
stops (`run?_eq_some_iff`).
-/

namespace Protoclass.Writer

open Text (StartsLine)

/-- A writer without a bound on its level, after an operation. -/
def perform (w : Writer Nat) : Operation → Writer Nat
  | .indent => w.indent
  | .dedent => w.dedent
  | .setLevel level => w.atLevel level.toInt.toNat
  | .write piece => w.write piece
  | .line piece => w.line piece
  | .newline => w.newline
  | .raw piece => w.raw piece

/-- A writer without a bound on its level, after several operations. -/
def run (w : Writer Nat) (operations : List Operation) : Writer Nat :=
  operations.foldl perform w

theorem run_append (w : Writer Nat) (done more : List Operation) :
    w.run (done ++ more) = (w.run done).run more :=
  List.foldl_append

theorem run_concat (w : Writer Nat) (done : List Operation) (op : Operation) :
    w.run (done ++ [op]) = (w.run done).perform op :=
  run_append w done [op]

/-! ## The text of operations -/

namespace Operation

/-- The piece of a line that an operation writes, for which indentation can be due. -/
def piece : Operation → Text
  | .write piece | .line piece => piece
  | _ => []

/-- What an operation writes, indentation apart. -/
def written : Operation → Text
  | .write piece | .raw piece => piece
  | .line piece => piece ++ "\n"
  | .newline => "\n"
  | .indent | .dedent | .setLevel _ => []

/-- The level after an operation.  It is an integer: that it stays above zero is a
matter of what the operations do to it. -/
def levelAfter (level : Int) : Operation → Int
  | .indent => level + 1
  | .dedent => if 0 < level then level - 1 else level
  | .setLevel new => if new.toInt < 0 then 0 else new.toInt
  | _ => level

end Operation

/-- The level after the operations that were done. -/
def levelOf (level : Int) (done : List Operation) : Int :=
  done.foldl Operation.levelAfter (if level < 0 then 0 else level)

/-- What the operations that were done have written, without indentation. -/
def plain (done : List Operation) : Text :=
  done.flatMap Operation.written

/-- The indentation before a piece, at a level and behind what was written. -/
def indentation (unit : Text) (level : Int) (before piece : Text) : Text :=
  if piece ≠ [] ∧ StartsLine before then (List.replicate level.toNat unit).flatten else []

/-- What an operation adds to the text after those that were done. -/
def added (unit : Text) (level : Int) (done : List Operation) (op : Operation) : Text :=
  indentation unit (levelOf level done) (plain done) op.piece ++ op.written

/-- What each of the operations adds to the text. -/
def additions (unit : Text) (level : Int) (operations : List Operation) : List Text :=
  operations.mapIdx fun i op => added unit level (operations.take i) op

section

variable {unit : Text} {level : Int} {done : List Operation} {op : Operation}

theorem levelOf_concat : levelOf level (done ++ [op]) = op.levelAfter (levelOf level done) := by
  simp [levelOf]

theorem plain_concat : plain (done ++ [op]) = plain done ++ op.written := by
  simp [plain]

theorem additions_concat :
    additions unit level (done ++ [op]) =
      additions unit level done ++ [added unit level done op] := by
  rw [additions, List.mapIdx_concat, List.take_left']
  · congr 1
    apply List.mapIdx_eq_mapIdx_iff.mpr
    intro i within
    rw [List.take_append_of_le_length (Nat.le_of_lt within)]
  · rfl

theorem added_of_piece_eq_nil (nothing : op.piece = []) :
    added unit level done op = op.written := by
  rw [added, nothing, indentation, if_neg (fun due => due.1 rfl), List.nil_append]

theorem levelAfter_nonneg {level : Int} (nonneg : 0 ≤ level) (op : Operation) :
    0 ≤ op.levelAfter level := by
  cases op with
  | indent => exact Int.add_nonneg nonneg (by decide)
  | dedent =>
    rw [Operation.levelAfter]
    split <;> omega
  | setLevel new =>
    rw [Operation.levelAfter]
    split <;> omega
  | write _ | line _ | newline | raw _ => exact nonneg

theorem levelOf_nonneg (level : Int) (done : List Operation) : 0 ≤ levelOf level done := by
  induction done using List.reverseRecOn with
  | nil =>
    rw [levelOf, List.foldl_nil]
    split <;> omega
  | append_singleton done op ih =>
    rw [levelOf_concat]
    exact levelAfter_nonneg ih op

end

/-! ## Writers -/

@[simp]
theorem level_atLevel (w : Writer Nat) (level : Nat) : (w.atLevel level).level = level := rfl

theorem unit_perform (w : Writer Nat) (op : Operation) : (w.perform op).unit = w.unit := by
  cases op with
  | indent | setLevel _ | newline => rfl
  | dedent =>
    rw [perform, dedent]
    split <;> rfl
  | write piece | line piece =>
    simp only [perform, line, Writer.write, Writer.newline]
    split <;> rfl
  | raw piece =>
    rw [perform, Writer.raw]
    split <;> rfl

theorem level_perform (w : Writer Nat) (op : Operation) :
    ((w.perform op).level : Int) = op.levelAfter w.level := by
  cases op with
  | indent | newline => rfl
  | dedent =>
    rw [perform, dedent, Operation.levelAfter]
    split
    case isTrue deep =>
      rw [if_pos (by omega), level_atLevel]
      omega
    case isFalse =>
      rw [if_neg (by omega)]
  | setLevel level =>
    rw [perform, level_atLevel, Operation.levelAfter]
    split <;> omega
  | write piece | line piece =>
    simp only [perform, line, Writer.write, Writer.newline]
    split <;> rfl
  | raw piece =>
    rw [perform, Writer.raw]
    split <;> rfl

/-- The writer is at a level and has a text.  It is at the start of a line just when a
line starts behind what was written without indentation, and so does its text. -/
structure Follows (unit : Text) (level : Int) (before text : Text) (w : Writer Nat) : Prop where
  unit_eq : w.unit = unit
  level_eq : (w.level : Int) = level
  prefix_eq : w.linePrefix = (List.replicate level.toNat unit).flatten
  atLineStart_iff : w.atLineStart = true ↔ StartsLine before
  startsLine_iff : StartsLine w.text ↔ StartsLine before
  text_eq : w.text = text

namespace Follows

variable {unit before text : Text} {level : Int} {w : Writer Nat}

/-- A writer at the level that an operation comes to, with the same text. -/
theorem atLevel (follows : Follows unit level before text w) {level' : Nat} {new : Int}
    (same : (level' : Int) = new) : Follows unit new before text (w.atLevel level') :=
  { follows with
    level_eq := same
    prefix_eq := by
      rw [← same, Int.toNat_natCast, Writer.atLevel, Text.repeated_eq, follows.unit_eq] }

theorem write (follows : Follows unit level before text w) {piece : Text}
    (oneLine : Text.newline ∉ piece) :
    Follows unit level (before ++ piece)
      (text ++ (indentation unit level before piece ++ piece)) (w.write piece) := by
  by_cases given : piece = []
  · subst given
    simpa [Writer.write, indentation] using follows
  · -- The piece is the last thing in the line, with the indentation or without it.
    have inLine : ∀ front, ¬StartsLine (front ++ piece) := by
      intro front starts
      rcases (Text.startsLine_append_iff given).mp starts with nothing | ended
      · exact given nothing
      · exact oneLine (List.mem_of_getLast? ended)
    by_cases starts : StartsLine before
    · have due : (w.atLineStart && !piece.isEmpty) = true := by
        simp [follows.atLineStart_iff.mpr starts, given]
      rw [Writer.write, if_pos due]
      exact {
        unit_eq := follows.unit_eq
        level_eq := follows.level_eq
        prefix_eq := follows.prefix_eq
        atLineStart_iff := by simp [inLine]
        startsLine_iff := by simp only [inLine]
        text_eq := by
          rw [follows.text_eq, follows.prefix_eq, indentation, if_pos ⟨given, starts⟩,
            List.append_assoc] }
    · have begun : w.atLineStart = false := by
        rwa [← Bool.not_eq_true, follows.atLineStart_iff]
      rw [Writer.write, begun, Bool.false_and, if_neg Bool.false_ne_true]
      exact {
        unit_eq := follows.unit_eq
        level_eq := follows.level_eq
        prefix_eq := follows.prefix_eq
        atLineStart_iff := by simp [inLine]
        startsLine_iff := by simp only [inLine]
        text_eq := by
          rw [follows.text_eq, indentation, if_neg (fun due => starts due.2), List.nil_append] }

theorem newline (follows : Follows unit level before text w) :
    Follows unit level (before ++ "\n") (text ++ "\n") w.newline where
  unit_eq := follows.unit_eq
  level_eq := follows.level_eq
  prefix_eq := follows.prefix_eq
  atLineStart_iff := by simp [Writer.newline, StartsLine]
  startsLine_iff := by simp [Writer.newline, StartsLine]
  text_eq := by rw [Writer.newline, follows.text_eq]

theorem raw (follows : Follows unit level before text w) (piece : Text) :
    Follows unit level (before ++ piece) (text ++ piece) (w.raw piece) := by
  by_cases given : piece = []
  · subst given
    simpa [Writer.raw] using follows
  · rw [Writer.raw, if_neg (by simpa using given)]
    exact {
      unit_eq := follows.unit_eq
      level_eq := follows.level_eq
      prefix_eq := follows.prefix_eq
      atLineStart_iff := by
        rw [Text.startsLine_append_iff given, Text.endsWith_newline_iff, StartsLine]
        simp [given]
      startsLine_iff := by
        rw [Text.startsLine_append_iff given, Text.startsLine_append_iff given]
      text_eq := by rw [follows.text_eq] }

/-- One operation adds its own text. -/
theorem perform {done : List Operation}
    (follows : Follows unit (levelOf level done) (plain done) text w) {op : Operation}
    (oneLine : Text.newline ∉ op.piece) :
    Follows unit (levelOf level (done ++ [op])) (plain (done ++ [op]))
      (text ++ added unit level done op) (w.perform op) := by
  rw [levelOf_concat, plain_concat]
  -- What writes nothing changes the level alone.
  have silent : Follows unit (levelOf level done) (plain done ++ []) (text ++ []) w := by
    simpa using follows
  cases op with
  | indent =>
    rw [added_of_piece_eq_nil rfl, ← follows.level_eq]
    exact silent.atLevel (level_perform w .indent)
  | dedent =>
    rw [added_of_piece_eq_nil rfl, Operation.levelAfter, ← follows.level_eq, Writer.perform,
      Writer.dedent]
    split
    case isTrue deep =>
      rw [if_pos (by omega)]
      exact silent.atLevel (by omega)
    case isFalse =>
      rw [if_neg (by omega), follows.level_eq]
      exact silent
  | setLevel new =>
    rw [added_of_piece_eq_nil rfl, ← follows.level_eq]
    exact silent.atLevel (level_perform w (.setLevel new))
  | write piece => exact follows.write oneLine
  | line piece =>
    have ended := (follows.write oneLine).newline
    rw [List.append_assoc, List.append_assoc, List.append_assoc] at ended
    exact ended
  | newline =>
    rw [added_of_piece_eq_nil rfl]
    exact follows.newline
  | raw piece =>
    rw [added_of_piece_eq_nil rfl]
    exact follows.raw piece

end Follows

theorem follows_start (unit : Text) (level : Int) :
    Follows unit (levelOf level []) (plain []) [] (start unit level) := by
  have blank : Follows unit 0 (plain []) [] { unit, level := 0 } := by
    constructor <;> simp [plain, StartsLine]
  apply blank.atLevel
  rw [levelOf, List.foldl_nil]
  split <;> omega

/-- A new writer follows the text of any operations that write pieces of lines. -/
theorem follows_run (unit : Text) (level : Int) {operations : List Operation}
    (oneLine : ∀ op ∈ operations, Text.newline ∉ op.piece) :
    Follows unit (levelOf level operations) (plain operations)
      (additions unit level operations).flatten ((start unit level).run operations) := by
  induction operations using List.reverseRecOn with
  | nil => exact follows_start unit level
  | append_singleton done op ih =>
    rw [List.forall_mem_append, List.forall_mem_singleton] at oneLine
    rw [additions_concat, List.flatten_concat, run_concat]
    exact (ih oneLine.1).perform oneLine.2

/-! ## Lines without a piece -/

theorem text_perform_of_piece_eq_nil (w : Writer Nat) {op : Operation} (nothing : op.piece = []) :
    (w.perform op).text = w.text ++ op.written := by
  cases op with
  | indent | setLevel _ => exact (List.append_nil _).symm
  | dedent =>
    rw [perform, dedent]
    split <;> exact (List.append_nil _).symm
  | write piece | line piece =>
    obtain rfl : piece = [] := nothing
    simp [perform, line, Writer.write, Writer.newline, Operation.written]
  | newline => rfl
  | raw piece =>
    by_cases given : piece = [] <;> simp [perform, Writer.raw, Operation.written, given]

/-- Operations that write no piece of a line add what they write, and no indentation. -/
theorem text_run_of_piece_eq_nil (w : Writer Nat) {operations : List Operation}
    (nothing : ∀ op ∈ operations, op.piece = []) :
    (w.run operations).text = w.text ++ plain operations := by
  induction operations generalizing w with
  | nil => exact (List.append_nil _).symm
  | cons op operations ih =>
    rw [List.forall_mem_cons] at nothing
    rw [run, List.foldl_cons]
    refine (ih (w.perform op) nothing.2).trans ?_
    rw [text_perform_of_piece_eq_nil w nothing.1, List.append_assoc]
    rfl

/-! ## Levels of 64 bits -/

/-- A word can count a level, and the length of its prefix. -/
def Fits (unit : Text) (level : Int) : Prop :=
  level ≤ Int64.maxValue.toInt ∧ unit.length * level ≤ Int64.maxValue.toInt

instance (unit : Text) (level : Int) : Decidable (Fits unit level) :=
  inferInstanceAs (Decidable (_ ∧ _))

theorem toInt_maxValue : Int64.maxValue.toInt = 2 ^ 63 - 1 := by decide

theorem Fits.lt {unit : Text} {level : Nat} (fits : Fits unit level) : level < 2 ^ 63 := by
  have counted := fits.1
  rw [toInt_maxValue] at counted
  omega

/-- The first number that a word cannot count is taken for a negative one. -/
theorem repeated?_ofNat (unit : Text) {level : Nat} (near : level ≤ 2 ^ 63) :
    Text.repeated? unit (Int64.ofNat level)
      = if Fits unit level then some (Text.repeated unit level) else none := by
  rcases Nat.lt_or_eq_of_le near with counted | rfl
  · have level_eq : (Int64.ofNat level).toInt = level := Int64.toInt_ofNat_of_lt counted
    have nonneg : ¬ Int64.ofNat level < 0 := by
      rw [Int64.lt_iff_toInt_lt, level_eq]
      exact Int.not_lt.mpr (Int.natCast_nonneg level)
    have fits_iff : Fits unit level ↔ ¬ Int64.maxValue.toInt < unit.length * (level : Int) := by
      rw [Fits, Int.not_lt, and_iff_right]
      rw [toInt_maxValue]
      omega
    rw [Text.repeated?, if_neg nonneg, level_eq, Int.toNat_natCast]
    simp only [fits_iff, ite_not]
  · have negative : Int64.ofNat (2 ^ 63) < 0 := by decide
    have tooLarge : ¬ Fits unit ((2 ^ 63 : Nat) : Int) := fun fits => Nat.lt_irrefl _ fits.lt
    rw [Text.repeated?, if_pos negative, if_neg tooLarge]

theorem ite_neg_eq_ofNat (level : Int64) :
    (if level < 0 then 0 else level) = Int64.ofNat level.toInt.toNat := by
  have zero : (0 : Int64).toInt = 0 := by decide
  split
  case isTrue negative =>
    rw [Int64.lt_iff_toInt_lt, zero] at negative
    rw [Int.toNat_of_nonpos (by omega)]
    rfl
  case isFalse nonneg =>
    rw [Int64.lt_iff_toInt_lt, Int.not_lt, ← Int64.le_iff_toInt_le] at nonneg
    exact (Int64.ofNat_toNatClampNeg level nonneg).symm

/-- The writer with its level counted in a word. -/
def inWords (w : Writer Nat) : Writer Int64 := { w with level := Int64.ofNat w.level }

theorem updatePrefix?_inWords (w : Writer Nat) {level : Nat} (near : level ≤ 2 ^ 63) :
    updatePrefix? { w.inWords with level := Int64.ofNat level }
      = if Fits w.unit level then some (w.atLevel level).inWords else none := by
  rw [updatePrefix?, inWords, repeated?_ofNat w.unit near]
  split <;> rfl

theorem inWords_write (w : Writer Nat) (piece : Text) :
    (w.write piece).inWords = w.inWords.write piece := by
  rw [Writer.write, Writer.write, apply_ite inWords]
  rfl

theorem inWords_raw (w : Writer Nat) (piece : Text) :
    (w.raw piece).inWords = w.inWords.raw piece := by
  rw [Writer.raw, Writer.raw, apply_ite inWords]
  rfl

/-- As long as the level fits, an operation does the same with words; where the level
that it comes to does not fit, there is no writer. -/
theorem perform?_inWords {w : Writer Nat} (fits : Fits w.unit w.level) (op : Operation) :
    w.inWords.perform? op
      = if Fits w.unit (w.perform op).level then some (w.perform op).inWords else none := by
  have counted := fits.lt
  cases op with
  | indent =>
    have next : w.inWords.level + 1 = Int64.ofNat (w.level + 1) := (Int64.ofNat_add _ 1).symm
    rw [perform?, indent?, next]
    exact updatePrefix?_inWords w counted
  | dedent =>
    have level_eq : w.inWords.level.toInt = w.level := Int64.toInt_ofNat_of_lt counted
    have positive_iff : 0 < w.inWords.level ↔ 0 < w.level := by
      rw [Int64.lt_iff_toInt_lt, level_eq]
      exact Int.natCast_pos
    rw [perform?, dedent?, perform, dedent]
    by_cases deep : 0 < w.level
    · have back : w.inWords.level - 1 = Int64.ofNat (w.level - 1) := (Int64.ofNat_sub _ 1 deep).symm
      rw [if_pos (positive_iff.mpr deep), if_pos deep, back]
      exact updatePrefix?_inWords w (by omega)
    · rw [if_neg (deep ∘ positive_iff.mp), if_neg deep, if_pos fits]
  | setLevel level =>
    have bounded := level.toInt_lt
    rw [perform?, setLevel?, ite_neg_eq_ofNat]
    exact updatePrefix?_inWords w (by omega)
  | write piece =>
    rw [if_pos (level_perform w (.write piece) ▸ fits), perform?, perform, inWords_write]
  | line piece =>
    rw [if_pos (level_perform w (.line piece) ▸ fits), perform?, perform, line, line,
      ← inWords_write]
    rfl
  | newline =>
    rw [if_pos (level_perform w .newline ▸ fits)]
    rfl
  | raw piece =>
    rw [if_pos (level_perform w (.raw piece) ▸ fits), perform?, perform, inWords_raw]

/-- A new writer after several operations, with its level counted in words. -/
def run? (unit : Text) (level : Int64) (operations : List Operation) : Option (Writer Int64) :=
  (start? unit level).bind fun w => operations.foldlM perform? w

section

variable {unit : Text} {level : Int64} {operations : List Operation}

theorem run?_concat {done : List Operation} {op : Operation} :
    run? unit level (done ++ [op]) = (run? unit level done).bind (perform? · op) := by
  simp only [run?, List.foldlM_append, List.foldlM_cons, List.foldlM_nil, Option.bind_assoc,
    Option.bind_eq_bind, Option.pure_def, Option.bind_fun_some]

theorem unit_run (w : Writer Nat) (operations : List Operation) :
    (w.run operations).unit = w.unit := by
  induction operations generalizing w with
  | nil => rfl
  | cons op operations ih => exact (ih (w.perform op)).trans (unit_perform w op)

theorem level_run (unit : Text) (level : Int) (operations : List Operation) :
    (((start unit level).run operations).level : Int) = levelOf level operations := by
  induction operations using List.reverseRecOn with
  | nil =>
    rw [run, List.foldl_nil, start, level_atLevel, levelOf, List.foldl_nil]
    split <;> omega
  | append_singleton done op ih =>
    rw [levelOf_concat, ← ih, ← level_perform, run_concat]

theorem start?_eq (unit : Text) (level : Int64) :
    start? unit level = if Fits unit (levelOf level.toInt []) then
      some (start unit level.toInt).inWords else none := by
  have blank : Fits unit ((0 : Nat) : Int) := by simp [Fits, toInt_maxValue]
  rw [← level_run unit level.toInt []]
  exact @perform?_inWords { unit, level := 0 } blank (.setLevel level)

/-- With words, operations do the same as without a bound, if and only if every level
that they come to fits. -/
theorem run?_eq_some_iff {w : Writer Int64} :
    run? unit level operations = some w ↔
      (∀ done, done <+: operations → Fits unit (levelOf level.toInt done)) ∧
        w = ((start unit level.toInt).run operations).inWords := by
  induction operations using List.reverseRecOn generalizing w with
  | nil =>
    have started : run? unit level [] = start? unit level := Option.bind_fun_some _
    rw [started, start?_eq, Option.ite_none_right_eq_some, Option.some.injEq]
    simp only [List.prefix_nil, forall_eq]
    exact and_congr_right fun _ => eq_comm
  | append_singleton done op ih =>
    have step : Fits unit (levelOf level.toInt done) →
        ((start unit level.toInt).run done).inWords.perform? op
          = if Fits unit (levelOf level.toInt (done ++ [op])) then
            some ((start unit level.toInt).run (done ++ [op])).inWords else none := by
      intro fits
      have unit_eq : ((start unit level.toInt).run done).unit = unit := unit_run _ done
      rw [← level_run, ← unit_eq] at fits
      rw [perform?_inWords fits, unit_eq, ← run_concat, level_run]
    rw [run?_concat, Option.bind_eq_some_iff]
    constructor
    · rintro ⟨before, ran, performed⟩
      rcases ih.mp ran with ⟨fits, rfl⟩
      rw [step (fits done (List.prefix_refl done)), Option.ite_none_right_eq_some,
        Option.some.injEq] at performed
      refine ⟨?_, performed.2.symm⟩
      intro front isPrefix
      rcases List.prefix_concat_iff.mp isPrefix with rfl | earlier
      · exact performed.1
      · exact fits front earlier
    · rintro ⟨fits, rfl⟩
      have earlier : ∀ front, front <+: done → Fits unit (levelOf level.toInt front) :=
        fun front isPrefix => fits front (isPrefix.trans (List.prefix_append done [op]))
      refine ⟨_, ih.mpr ⟨earlier, rfl⟩, ?_⟩
      rw [step (earlier done (List.prefix_refl done)),
        if_pos (fits (done ++ [op]) (List.prefix_refl _))]

end

/-- Operations on a new writer, in pieces of lines and raw text of any kind, succeed if and
only if a word can count every level that they come to and the length of its prefix.
Then the level is the integer level of the operations, which is not negative, and the
prefix has as many units; the writer is at the start of a line exactly when its text is
empty or ends in a line end; and its text is what each operation adds: its own text,
with the indentation of the level in force before a non-empty piece where a line starts.
What has no such piece is written without indentation. -/
theorem run_adds_indented_pieces (unit : Text) (level : Int64) (operations : List Operation)
    (oneLine : ∀ op ∈ operations, Text.newline ∉ op.piece) :
    ((∃ w, run? unit level operations = some w) ↔
        ∀ done, done <+: operations → Fits unit (levelOf level.toInt done)) ∧
      ∀ w, run? unit level operations = some w →
        (w.level.toInt = levelOf level.toInt operations ∧ 0 ≤ w.level.toInt) ∧
        w.linePrefix = (List.replicate w.level.toInt.toNat unit).flatten ∧
        (w.atLineStart = true ↔ w.text = [] ∨ w.text.getLast? = some Text.newline) ∧
        (w.atLineStart = true ↔ StartsLine (plain operations)) ∧
        w.text = (operations.mapIdx fun i op =>
          (if op.piece ≠ [] ∧ StartsLine (plain (operations.take i)) then
            (List.replicate (levelOf level.toInt (operations.take i)).toNat unit).flatten else [])
          ++ op.written).flatten ∧
        ∀ blank : List Operation, (∀ op ∈ blank, op.piece = []) →
          ∀ w', run? unit level (operations ++ blank) = some w' →
            w'.text = w.text ++ blank.flatMap Operation.written := by
  constructor
  · constructor
    · rintro ⟨w, ran⟩
      exact (run?_eq_some_iff.mp ran).1
    · intro fits
      exact ⟨_, run?_eq_some_iff.mpr ⟨fits, rfl⟩⟩
  · intro w ran
    rcases run?_eq_some_iff.mp ran with ⟨fits, rfl⟩
    have follows := follows_run unit level.toInt oneLine
    have nonneg := levelOf_nonneg level.toInt operations
    have counted : ((start unit level.toInt).run operations).inWords.level.toInt
        = levelOf level.toInt operations := by
      have fitsLast := fits operations (List.prefix_refl operations)
      rw [← follows.level_eq] at fitsLast ⊢
      exact Int64.toInt_ofNat_of_lt fitsLast.lt
    rw [counted]
    refine ⟨⟨rfl, nonneg⟩, follows.prefix_eq,
      follows.atLineStart_iff.trans follows.startsLine_iff.symm, follows.atLineStart_iff,
      follows.text_eq, ?_⟩
    intro blank nothing w' more
    rcases run?_eq_some_iff.mp more with ⟨-, rfl⟩
    rw [run_append]
    exact text_run_of_piece_eq_nil _ nothing

/-- Levels that would fall below zero, raw text that ends a line and raw text that starts
one, and empty pieces. -/
theorem run_adds_indented_pieces_between_raw_texts :
    let operations : List Operation :=
      [.indent, .write "a", .write "b", .newline, .line [], .raw "x\n", .dedent, .dedent,
        .indent, .indent, .write [], .line "c", .raw "y", .write "d", .setLevel (-1)]
    (∀ op ∈ operations, Text.newline ∉ op.piece) ∧
      ∃ w, run? "  " (-2) operations = some w ∧
        w.level.toInt = 0 ∧ w.linePrefix = [] ∧ w.atLineStart = false ∧
        w.text = "  ab\n\nx\n    c\nyd" := by
  intro operations
  have oneLine : ∀ op ∈ operations, Text.newline ∉ op.piece := by decide
  rcases run_adds_indented_pieces "  " (-2) operations oneLine with ⟨succeeds, run⟩
  have fits : ∀ done ∈ operations.inits, Fits "  " (levelOf (-2) done) := by decide +kernel
  rcases succeeds.mpr fun done isPrefix =>
    fits done ((List.mem_inits done operations).mpr isPrefix) with ⟨w, ran⟩
  rcases run w ran with ⟨⟨level, -⟩, linePrefix, -, starts, text, -⟩
  have level_eq : w.level.toInt = 0 := level.trans (by decide +kernel)
  refine ⟨oneLine, w, ran, level_eq, ?_, ?_, text.trans (by decide +kernel)⟩
  · rw [linePrefix, level_eq]
    rfl
  · rw [← Bool.not_eq_true, starts]
    decide +kernel

/-- The level after the largest one is taken for a negative one, which no prefix has. -/
theorem no_writer_past_largest_level :
    (∃ w, start? [] Int64.maxValue = some w ∧ w.level = Int64.maxValue ∧ w.level + 1 < 0) ∧
      run? [] Int64.maxValue [.indent] = none := by
  have started : start? [] Int64.maxValue = some { unit := [], level := Int64.maxValue } := by
    decide +kernel
  exact ⟨⟨_, started, rfl, by decide⟩, by decide +kernel⟩

end Protoclass.Writer
