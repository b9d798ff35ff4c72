import Mathlib.Data.List.Basic
import Protoclass.Text.Utf8

/-!
# Characters and their bytes

Reading a byte text unit by unit and writing the units down again are inverse to
each other: the bytes of a text's units, in order, are the text (`flatMap_bytes_scalars`),
and the units of characters that were written down are these characters
(`scalars_ofChars`).  So the texts that are UTF-8 are exactly the bytes of lists
of characters (`chars?_eq_some_iff`).

All of it rests on one fact for each length of a character: bytes are read as a
character exactly if they are the character's bytes.
-/

namespace Protoclass.Text

/-! ## One character -/

theorem toNat_ofNat_of_valid {n : Nat} (valid : n.isValidChar) : (Char.ofNat n).toNat = n := by
  rw [Char.ofNat, dif_pos valid]
  rfl

/-- The bytes of a character in terms of its code point. -/
theorem utf8EncodeChar_eq (c : Char) : String.utf8EncodeChar c =
    if c.toNat ≤ 127 then [UInt8.ofNat c.toNat]
    else if c.toNat ≤ 2047 then
      [UInt8.ofNat (c.toNat / 64 % 32 + 192), UInt8.ofNat (c.toNat % 64 + 128)]
    else if c.toNat ≤ 65535 then
      [UInt8.ofNat (c.toNat / 4096 % 16 + 224), UInt8.ofNat (c.toNat / 64 % 64 + 128),
        UInt8.ofNat (c.toNat % 64 + 128)]
    else
      [UInt8.ofNat (c.toNat / 262144 % 8 + 240), UInt8.ofNat (c.toNat / 4096 % 64 + 128),
        UInt8.ofNat (c.toNat / 64 % 64 + 128), UInt8.ofNat (c.toNat % 64 + 128)] :=
  rfl

theorem isTail_iff (b : UInt8) : isTail b = true ↔ 128 ≤ b.toNat ∧ b.toNat ≤ 191 := by
  simp [isTail, UInt8.le_iff_toNat_le]

theorem ofNat_eq_iff (n : Nat) (b : UInt8) : UInt8.ofNat n = b ↔ n % 256 = b.toNat := by
  rw [← UInt8.toNat_inj, UInt8.toNat_ofNat']

theorem isValidChar_toNat (c : Char) : c.toNat < 0xD800 ∨ 0xDFFF < c.toNat ∧ c.toNat < 0x110000 :=
  c.valid

theorem encode_eq_one_iff (a : UInt8) (c : Char) :
    String.utf8EncodeChar c = [a] ↔ a < 0x80 ∧ Char.ofNat a.toNat = c := by
  rw [utf8EncodeChar_eq, UInt8.lt_iff_toNat_lt]
  simp only [UInt8.reduceToNat]
  constructor
  · intro same
    split at same
    · simp only [List.cons.injEq, ofNat_eq_iff, and_true] at same
      have code : a.toNat = c.toNat := by omega
      rw [code]
      exact ⟨by omega, Char.ofNat_toNat c⟩
    split at same
    · simp at same
    split at same <;> simp at same
  · rintro ⟨low, rfl⟩
    rw [toNat_ofNat_of_valid (.inl (by omega)), if_pos (by omega), UInt8.ofNat_toNat]

theorem twoBytes?_eq_some_iff (a b : UInt8) (c : Char) :
    twoBytes? a b = some c ↔ String.utf8EncodeChar c = [a, b] := by
  have valid : (a.toNat % 32 * 64 + b.toNat % 64).isValidChar := .inl (by omega)
  rw [twoBytes?, utf8EncodeChar_eq]
  simp only [Option.ite_none_right_eq_some, Option.some.injEq, tailBits, Bool.and_eq_true,
    decide_eq_true_eq, isTail_iff, UInt8.le_iff_toNat_le, ← Char.toNat_inj,
    toNat_ofNat_of_valid valid, UInt8.reduceToNat]
  constructor
  · rintro ⟨⟨⟨low, high⟩, tail⟩, code⟩
    rw [if_neg (by omega), if_pos (by omega)]
    simp only [List.cons.injEq, ofNat_eq_iff, and_true]
    omega
  · intro same
    split at same
    · simp at same
    split at same
    · simp only [List.cons.injEq, ofNat_eq_iff, and_true] at same
      omega
    split at same <;> simp at same

theorem threeBytes?_eq_some_iff (a b c : UInt8) (char : Char) :
    threeBytes? a b c = some char ↔ String.utf8EncodeChar char = [a, b, c] := by
  have valid := isValidChar_toNat char
  rw [threeBytes?, utf8EncodeChar_eq]
  simp only [Option.ite_none_right_eq_some, Option.some.injEq, tailBits, Bool.and_eq_true,
    Bool.or_eq_true, bne_iff_ne, ne_eq, decide_eq_true_eq, isTail_iff, UInt8.le_iff_toNat_le,
    ← UInt8.toNat_inj, ← Char.toNat_inj, UInt8.reduceToNat]
  constructor
  · rintro ⟨range, code⟩
    rw [toNat_ofNat_of_valid (by unfold Nat.isValidChar; omega)] at code
    rw [if_neg (by omega), if_neg (by omega), if_pos (by omega)]
    simp only [List.cons.injEq, ofNat_eq_iff, and_true]
    omega
  · intro same
    split at same
    · simp at same
    split at same
    · simp at same
    split at same
    · simp only [List.cons.injEq, ofNat_eq_iff, and_true] at same
      rw [toNat_ofNat_of_valid (by unfold Nat.isValidChar; omega)]
      omega
    · simp at same

theorem fourBytes?_eq_some_iff (a b c d : UInt8) (char : Char) :
    fourBytes? a b c d = some char ↔ String.utf8EncodeChar char = [a, b, c, d] := by
  have valid := isValidChar_toNat char
  rw [fourBytes?, utf8EncodeChar_eq, Option.ite_none_right_eq_some, Option.some.injEq,
    ← Char.toNat_inj]
  simp only [tailBits, Bool.and_eq_true,
    Bool.or_eq_true, bne_iff_ne, ne_eq, decide_eq_true_eq, isTail_iff, UInt8.le_iff_toNat_le,
    ← UInt8.toNat_inj, UInt8.reduceToNat]
  constructor
  · rintro ⟨range, code⟩
    rw [toNat_ofNat_of_valid (by unfold Nat.isValidChar; omega)] at code
    rw [if_neg (by omega), if_neg (by omega), if_neg (by omega)]
    simp only [List.cons.injEq, ofNat_eq_iff, and_true]
    omega
  · intro same
    split at same
    · simp at same
    split at same
    · simp at same
    split at same
    · simp at same
    · simp only [List.cons.injEq, ofNat_eq_iff, and_true] at same
      rw [toNat_ofNat_of_valid (by unfold Nat.isValidChar; omega)]
      omega

/-! ## The unit at the start of a text -/

theorem lead_of_twoBytes? {a b : UInt8} {c : Char} (two : twoBytes? a b = some c) :
    ¬ a < 0x80 := by
  rw [twoBytes?, Option.ite_none_right_eq_some] at two
  simp only [Bool.and_eq_true, decide_eq_true_eq, UInt8.le_iff_toNat_le, UInt8.lt_iff_toNat_lt,
    UInt8.reduceToNat] at two ⊢
  omega

theorem lead_of_threeBytes? {a b c : UInt8} {char : Char} (three : threeBytes? a b c = some char) :
    ¬ a < 0x80 ∧ twoBytes? a b = none := by
  rw [threeBytes?, Option.ite_none_right_eq_some] at three
  rw [twoBytes?, ite_eq_right_iff]
  simp only [Bool.and_eq_true, decide_eq_true_eq, UInt8.le_iff_toNat_le, UInt8.lt_iff_toNat_lt,
    UInt8.reduceToNat] at three ⊢
  constructor
  · omega
  · intro range
    omega

theorem lead_of_fourBytes? {a b c d : UInt8} {char : Char}
    (four : fourBytes? a b c d = some char) :
    ¬ a < 0x80 ∧ twoBytes? a b = none ∧ threeBytes? a b c = none := by
  rw [fourBytes?, Option.ite_none_right_eq_some] at four
  rw [twoBytes?, threeBytes?, ite_eq_right_iff, ite_eq_right_iff]
  simp only [Bool.and_eq_true, decide_eq_true_eq, UInt8.le_iff_toNat_le, UInt8.lt_iff_toNat_lt,
    UInt8.reduceToNat] at four ⊢
  constructor
  · omega
  constructor
  · intro range
    omega
  · intro range
    omega

/-- The bytes of a unit are those that it was read from. -/
theorem bytes_headScalar (a : UInt8) (rest : Text) :
    (headScalar a rest).1.bytes ++ rest.drop (headScalar a rest).2 = a :: rest := by
  fun_cases headScalar a rest with
  | case1 rest low =>
    rw [Scalar.bytes, (encode_eq_one_iff a _).mpr ⟨low, rfl⟩]
    rfl
  | case2 high b c d more char two =>
    rw [Scalar.bytes, (twoBytes?_eq_some_iff a b char).mp two]
    rfl
  | case3 high b c d more char three two =>
    rw [Scalar.bytes, (threeBytes?_eq_some_iff a b c char).mp three]
    rfl
  | case4 high b c d more char four two three =>
    rw [Scalar.bytes, (fourBytes?_eq_some_iff a b c d char).mp four]
    rfl
  | case6 high b c char two =>
    rw [Scalar.bytes, (twoBytes?_eq_some_iff a b char).mp two]
    rfl
  | case7 high b c char three two =>
    rw [Scalar.bytes, (threeBytes?_eq_some_iff a b c char).mp three]
    rfl
  | case9 high b char two =>
    rw [Scalar.bytes, (twoBytes?_eq_some_iff a b char).mp two]
    rfl
  | case5 | case8 | case10 | case11 => rfl

/-- The bytes of a character are read as that character, whatever follows. -/
theorem headScalar_of_encode {c : Char} {a : UInt8} {more : Text}
    (same : String.utf8EncodeChar c = a :: more) (rest : Text) :
    headScalar a (more ++ rest) = (.char c, more.length) := by
  match more, same with
  | [], same =>
    rcases (encode_eq_one_iff a c).mp same with ⟨low, code⟩
    rw [headScalar.eq_def, if_pos low, code]
    rfl
  | [b₁], same =>
    have two := (twoBytes?_eq_some_iff a b₁ c).mpr same
    rw [headScalar.eq_def, if_neg (lead_of_twoBytes? two)]
    match rest with
    | [] | [_] | _ :: _ :: _ => simp only [List.cons_append, List.nil_append, two]; rfl
  | [b₁, b₂], same =>
    have three := (threeBytes?_eq_some_iff a b₁ b₂ c).mpr same
    rcases lead_of_threeBytes? three with ⟨high, two⟩
    rw [headScalar.eq_def, if_neg high]
    match rest with
    | [] | _ :: _ => simp only [List.cons_append, List.nil_append, two, three]; rfl
  | [b₁, b₂, b₃], same =>
    have four := (fourBytes?_eq_some_iff a b₁ b₂ b₃ c).mpr same
    rcases lead_of_fourBytes? four with ⟨high, two, three⟩
    rw [headScalar.eq_def, if_neg high]
    simp only [List.cons_append, List.nil_append, two, three, four]
    rfl
  | _ :: _ :: _ :: _ :: _, same =>
    have long := congrArg List.length same
    have short := c.utf8Size_le_four
    rw [String.length_utf8EncodeChar] at long
    simp only [List.length_cons] at long
    omega

/-! ## Whole texts -/

/-- Bytes that were taken before leave what is behind them. -/
theorem scalarsFrom_drop (taken : Nat) (text : Text) :
    scalarsFrom taken text = scalars (text.drop taken) := by
  induction taken generalizing text with
  | zero => rfl
  | succ taken ih =>
    cases text with
    | nil => rfl
    | cons a rest => rw [scalarsFrom, ih, List.drop_succ_cons]

theorem scalars_cons (a : UInt8) (rest : Text) :
    scalars (a :: rest)
      = (headScalar a rest).1 :: scalars (rest.drop (headScalar a rest).2) := by
  rw [scalars, scalarsFrom, scalarsFrom_drop]

/-- The bytes of a text's units are the text. -/
theorem flatMap_bytes_scalars (text : Text) : text.scalars.flatMap Scalar.bytes = text := by
  induction size : text.length using Nat.strongRecOn generalizing text with
  | ind n ih =>
    cases text with
    | nil => rfl
    | cons a rest =>
      have shorter : (rest.drop (headScalar a rest).2).length < n := by
        rw [← size, List.length_cons, List.length_drop]
        omega
      rw [scalars_cons, List.flatMap_cons, ih _ shorter _ rfl, bytes_headScalar]

/-- The units of characters that were written down are these characters. -/
theorem scalars_ofChars_append (cs : List Char) (rest : Text) :
    scalars (ofChars cs ++ rest) = cs.map .char ++ scalars rest := by
  induction cs with
  | nil => rfl
  | cons c cs ih =>
    rcases List.exists_cons_of_ne_nil (String.utf8EncodeChar_ne_nil (c := c)) with ⟨a, more, same⟩
    have head := headScalar_of_encode same (ofChars cs ++ rest)
    rw [ofChars, List.flatMap_cons, ← ofChars, same, List.append_assoc, List.cons_append,
      scalars_cons, head, List.drop_left, ih]
    rfl

theorem mapM_char?_eq_some_iff {units : List Scalar} {cs : List Char} :
    units.mapM Scalar.char? = some cs ↔ units = cs.map .char := by
  induction units generalizing cs with
  | nil => cases cs <;> simp
  | cons unit units ih =>
    cases unit with
    | char c =>
      rw [List.mapM_cons, Scalar.char?]
      cases cs with
      | nil => simp [Option.bind_eq_some_iff]
      | cons c' cs => simp [Option.bind_eq_some_iff, ih, and_comm]
    | stray b => cases cs <;> simp [Scalar.char?]

theorem ofChars_append (a b : List Char) : ofChars (a ++ b) = ofChars a ++ ofChars b :=
  List.flatMap_append

theorem ofChars_eq_flatMap_bytes (cs : List Char) :
    ofChars cs = (cs.map Scalar.char).flatMap Scalar.bytes := by
  rw [List.flatMap_map]
  rfl

/-- The texts that are UTF-8 are the bytes of lists of characters. -/
theorem chars?_eq_some_iff {text : Text} {cs : List Char} :
    text.chars? = some cs ↔ text = ofChars cs := by
  rw [chars?, mapM_char?_eq_some_iff]
  constructor
  · intro units
    rw [ofChars_eq_flatMap_bytes, ← units, flatMap_bytes_scalars]
  · rintro rfl
    have units := scalars_ofChars_append cs []
    rwa [List.append_nil, scalars.eq_1 [], scalarsFrom.eq_1, List.append_nil] at units

end Protoclass.Text
