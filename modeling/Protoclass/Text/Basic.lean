/-!
# Byte texts

Names, comments, paths and generated code are byte texts: lists of bytes that
are UTF-8 by convention.  Nothing checks the convention, so a text read from a
request is carried to the output byte for byte, whatever it holds.

Literals are written as strings and coerced.  The operations are those of
lists, with a few named here for how the rest of the library speaks of them.
-/

namespace Protoclass

/-- A text: bytes, UTF-8 by convention. -/
abbrev Text := List UInt8

namespace Text

/-- The UTF-8 bytes of a string. -/
def ofString (s : String) : Text :=
  s.toList.flatMap String.utf8EncodeChar

instance : Coe String Text := ⟨ofString⟩

/-! ## Bytes with a name -/

/-- The line feed, which ends a line. -/
@[match_pattern] abbrev newline : UInt8 := 10

/-- The ASCII space. -/
@[match_pattern] abbrev space : UInt8 := 32

/-- The full stop, which divides a qualified name. -/
@[match_pattern] abbrev dot : UInt8 := 46

/-- The slash, which divides a path. -/
@[match_pattern] abbrev slash : UInt8 := 47

/-! ## Prefixes and suffixes -/

/-- What follows `lead` in `text`, if `text` starts with it. -/
def after? : (lead text : Text) → Option Text
  | [], text => some text
  | _ :: _, [] => none
  | a :: lead, b :: text => if a = b then after? lead text else none

/-- Whether `text` starts with `lead`. -/
def startsWith (text lead : Text) : Bool :=
  (after? lead text).isSome

/-- What stands before `tail` in `text`, if `text` ends with it. -/
def before? (tail text : Text) : Option Text :=
  (after? tail.reverse text.reverse).map List.reverse

/-- Whether `text` ends with `tail`. -/
def endsWith (text tail : Text) : Bool :=
  (before? tail text).isSome

/-- `text` without one leading `lead`, or as it is. -/
def dropLead (text lead : Text) : Text :=
  (after? lead text).getD text

/-- `text` without one trailing `tail`, or as it is. -/
def dropTail (text tail : Text) : Text :=
  (before? tail text).getD text

/-- Whether `part` occurs in `text`. -/
def hasPart (part : Text) : Text → Bool
  | [] => part.isEmpty
  | text@(_ :: rest) => text.startsWith part || hasPart part rest

theorem after?_eq_some_iff {lead text rest : Text} :
    after? lead text = some rest ↔ text = lead ++ rest := by
  induction lead generalizing text with
  | nil => simp [after?, eq_comm]
  | cons a lead ih =>
    cases text with
    | nil => simp [after?]
    | cons b text =>
      by_cases same : a = b
      · simp [after?, same, ih]
      · simp [after?, same, Ne.symm same]

@[simp]
theorem after?_append (lead rest : Text) : after? lead (lead ++ rest) = some rest :=
  after?_eq_some_iff.mpr rfl

theorem startsWith_iff {text lead : Text} : text.startsWith lead ↔ lead <+: text := by
  unfold startsWith
  rw [Option.isSome_iff_exists]
  constructor
  · rintro ⟨rest, found⟩
    exact ⟨rest, (after?_eq_some_iff.mp found).symm⟩
  · rintro ⟨rest, rfl⟩
    exact ⟨rest, after?_append lead rest⟩

theorem before?_eq_some_iff {tail text rest : Text} :
    before? tail text = some rest ↔ text = rest ++ tail := by
  unfold before?
  rw [Option.map_eq_some_iff]
  constructor
  · rintro ⟨back, found, rfl⟩
    have := congrArg List.reverse (after?_eq_some_iff.mp found)
    simpa using this
  · rintro rfl
    exact ⟨rest.reverse, by simp, by simp⟩

@[simp]
theorem dropLead_append (lead rest : Text) : dropLead (lead ++ rest) lead = rest := by
  simp [dropLead]

theorem dropLead_eq_self {text lead : Text} (other : text.startsWith lead = false) :
    dropLead text lead = text := by
  rw [startsWith, Option.isSome_eq_false_iff, Option.isNone_iff_eq_none] at other
  rw [dropLead, other]
  rfl

/-! ## Division by a byte -/

/-- The pieces of a text between the occurrences of `sep`: one more piece than
there are occurrences. -/
def splitOn (sep : UInt8) : Text → List Text
  | [] => [[]]
  | b :: rest =>
    if b = sep then [] :: splitOn sep rest
    else
      match splitOn sep rest with
      | [] => [[b]]
      | piece :: pieces => (b :: piece) :: pieces

/-- The pieces with `sep` between them. -/
def join (sep : Text) : List Text → Text
  | [] => []
  | [piece] => piece
  | piece :: pieces => piece ++ sep ++ join sep pieces

/-- What stands before and after the first `sep`, or the whole text and
nothing. -/
def cut (sep : UInt8) (text : Text) : Text × Option Text :=
  match text.dropWhile (· != sep) with
  | [] => (text, none)
  | _ :: rest => (text.takeWhile (· != sep), some rest)

/-- `text` with every byte `old` turned into `new`. -/
def replaceByte (old new : UInt8) (text : Text) : Text :=
  text.map fun b => if b = old then new else b

theorem splitOn_ne_nil (sep : UInt8) (text : Text) : splitOn sep text ≠ [] := by
  cases text with
  | nil => simp [splitOn]
  | cons b rest =>
    unfold splitOn
    split
    · simp
    · split <;> simp

/-! ## Numbers and order -/

/-- A natural number in decimal digits. -/
def ofNat (n : Nat) : Text :=
  (Nat.toDigits 10 n).map Char.toUInt8

/-- An integer in decimal digits, with a minus sign before a negative one. -/
def ofInt : Int → Text
  | .ofNat n => ofNat n
  | .negSucc n => "-" ++ ofNat (n + 1)

/-- The order by bytes, in which names are listed. -/
def le (a b : Text) : Bool := decide (a ≤ b)

end Text

end Protoclass
