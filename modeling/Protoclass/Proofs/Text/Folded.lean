import Protoclass.Proofs.Text.Utf8
import Protoclass.Text.Folded

/-!
# Characters in either case

Matching in either case works on bytes.  Here it is a map on characters: each
character is a form of one in lower case, and a pattern in lower-case ASCII is
matched by the bytes of exactly those characters that fold to it.
-/

namespace Protoclass.Text

/-- The character in lower case that a character is a form of, for a pattern in
ASCII. -/
def folded (c : Char) : Char :=
  if c = '\u017F' then 's' else if c = '\u212A' then 'k' else c.toLower

theorem toNat_ofNat_of_lt {b : UInt8} (ascii : b < 128) : (Char.ofNat b.toNat).toNat = b.toNat := by
  have low : b.toNat < 128 := UInt8.lt_iff_toNat_lt.mp ascii
  exact toNat_ofNat_of_valid (.inl (by omega))

theorem encode_of_lt {c : Char} (ascii : c.toNat < 128) :
    String.utf8EncodeChar c = [UInt8.ofNat c.toNat] := by
  rw [utf8EncodeChar_eq, if_pos (by omega)]

/-- An ASCII byte is in the bytes of no other character than its own. -/
theorem eq_ofNat_of_mem_encode {b : UInt8} {c : Char} (ascii : b < 128)
    (member : b ∈ String.utf8EncodeChar c) : c = Char.ofNat b.toNat := by
  have low : b.toNat < 128 := UInt8.lt_iff_toNat_lt.mp ascii
  have other : ∀ n : Nat, 128 ≤ n → n < 256 → b ≠ UInt8.ofNat n := by
    rintro n high small rfl
    rw [UInt8.toNat_ofNat', Nat.mod_eq_of_lt small] at low
    omega
  rw [utf8EncodeChar_eq] at member
  split at member
  · obtain rfl := List.mem_singleton.mp member
    rw [UInt8.toNat_ofNat', Nat.mod_eq_of_lt (by omega), Char.ofNat_toNat]
  split at member
  · simp only [List.mem_cons, List.not_mem_nil, or_false] at member
    rcases member with same | same <;> exact absurd same (other _ (by omega) (by omega))
  split at member
  · simp only [List.mem_cons, List.not_mem_nil, or_false] at member
    rcases member with same | same | same <;> exact absurd same (other _ (by omega) (by omega))
  · simp only [List.mem_cons, List.not_mem_nil, or_false] at member
    rcases member with same | same | same | same <;>
      exact absurd same (other _ (by omega) (by omega))

theorem mem_ofChars {b : UInt8} {cs : List Char} (ascii : b < 128) (member : b ∈ ofChars cs) :
    Char.ofNat b.toNat ∈ cs := by
  obtain ⟨c, among, inside⟩ := List.mem_flatMap.mp member
  rwa [← eq_ofNat_of_mem_encode ascii inside]

/-- Lower case is the same for a byte and for its character. -/
theorem lower_eq_toLower {b : UInt8} (ascii : b < 128) :
    (Char.ofNat b.toNat).toLower.toNat < 128 ∧
      lower b = UInt8.ofNat (Char.ofNat b.toNat).toLower.toNat := by
  have each : ∀ n : Fin 128, (Char.ofNat n).toLower.toNat < 128 ∧
      lower (UInt8.ofNat n) = UInt8.ofNat (Char.ofNat n).toLower.toNat := by decide
  have same := each ⟨b.toNat, UInt8.lt_iff_toNat_lt.mp ascii⟩
  rwa [UInt8.ofNat_toNat] at same

theorem toLower_of_high {c : Char} (high : 128 ≤ c.toNat) : c.toLower = c := by
  unfold Char.toLower
  split
  next upper =>
    have bound : c.toNat ≤ 90 := UInt32.le_iff_toNat_le.mp upper.2
    omega
  next => rfl

theorem folded_of_lt {c : Char} (ascii : c.toNat < 128) : folded c = c.toLower := by
  unfold folded
  rw [if_neg, if_neg]
  · rintro rfl
    exact absurd ascii (by decide)
  · rintro rfl
    exact absurd ascii (by decide)

theorem eq_of_ofNat_toNat_eq {p q : Char} (ascii : p.toNat < 128) (ascii' : q.toNat < 128)
    (same : UInt8.ofNat p.toNat = UInt8.ofNat q.toNat) : p = q := by
  have codes := congrArg UInt8.toNat same
  rw [UInt8.toNat_ofNat', UInt8.toNat_ofNat', Nat.mod_eq_of_lt (by omega),
    Nat.mod_eq_of_lt (by omega)] at codes
  rw [← Char.ofNat_toNat p, codes, Char.ofNat_toNat]

theorem lt_of_lower_lt {a : UInt8} (ascii : lower a < 128) : a < 128 := by
  by_contra high
  have kept : lower a = a := by
    unfold lower
    grind
  rw [kept] at ascii
  exact high ascii

/-- A byte that is a character of the pattern in lower case stands for one that folds to it. -/
theorem exists_folded_of_lower_eq {p : Char} (ascii : p.toNat < 128) {a : UInt8}
    (lowered : lower a = UInt8.ofNat p.toNat) :
    ∃ c, folded c = p ∧ String.utf8EncodeChar c = [a] := by
  have low : a < 128 := by
    apply lt_of_lower_lt
    rw [lowered, UInt8.lt_iff_toNat_lt, UInt8.toNat_ofNat', Nat.mod_eq_of_lt (by omega)]
    exact ascii
  obtain ⟨small, lower_eq⟩ := lower_eq_toLower low
  refine ⟨Char.ofNat a.toNat, ?_, (encode_eq_one_iff a _).mpr ⟨low, rfl⟩⟩
  rw [folded_of_lt (by rw [toNat_ofNat_of_lt low]; exact UInt8.lt_iff_toNat_lt.mp low)]
  exact (eq_of_ofNat_toNat_eq ascii small (lowered.symm.trans lower_eq)).symm

theorem exists_folded_of_afterFoldedByte? {p : Char} (ascii : p.toNat < 128) {text rest : Text}
    (matched : afterFoldedByte? (UInt8.ofNat p.toNat) text = some rest) :
    ∃ c, folded c = p ∧ text = String.utf8EncodeChar c ++ rest := by
  cases text with
  | nil => simp [afterFoldedByte?] at matched
  | cons a text =>
    unfold afterFoldedByte? at matched
    dsimp only at matched
    split at matched
    case isTrue lowered =>
      cases matched
      obtain ⟨c, same, single⟩ := exists_folded_of_lower_eq ascii lowered
      exact ⟨c, same, by rw [single, List.singleton_append]⟩
    case isFalse =>
      split at matched
      case isTrue long =>
        obtain ⟨isS, rfl⟩ := long
        split at matched
        · cases matched
          have same : p = 's' := eq_of_ofNat_toNat_eq ascii (by decide) isS
          exact ⟨'\u017F', same.symm, rfl⟩
        · contradiction
      case isFalse =>
        split at matched
        case isTrue kelvin =>
          obtain ⟨isK, rfl⟩ := kelvin
          split at matched
          · cases matched
            have same : p = 'k' := eq_of_ofNat_toNat_eq ascii (by decide) isK
            exact ⟨'\u212A', same.symm, rfl⟩
          · contradiction
        case isFalse => contradiction

theorem afterFoldedByte?_encode {c : Char} (ascii : (folded c).toNat < 128) (rest : Text) :
    afterFoldedByte? (UInt8.ofNat (folded c).toNat) (String.utf8EncodeChar c ++ rest)
      = some rest := by
  unfold folded at ascii ⊢
  split
  case isTrue long =>
    subst long
    rfl
  case isFalse notLong =>
    split
    case isTrue kelvin =>
      subst kelvin
      rfl
    case isFalse notKelvin =>
      rw [if_neg notLong, if_neg notKelvin] at ascii
      have low : c.toNat < 128 := by
        by_contra high
        rw [toLower_of_high (by omega)] at ascii
        exact high ascii
      have byteLow : UInt8.ofNat c.toNat < 128 := by
        rw [UInt8.lt_iff_toNat_lt, UInt8.toNat_ofNat', Nat.mod_eq_of_lt (by omega)]
        exact low
      have lower_eq := (lower_eq_toLower byteLow).2
      rw [UInt8.toNat_ofNat', Nat.mod_eq_of_lt (by omega), Char.ofNat_toNat] at lower_eq
      rw [encode_of_lt low, List.singleton_append, afterFoldedByte?.eq_def]
      exact if_pos lower_eq

/-- A byte of a pattern is matched by the bytes of the characters that fold to it. -/
theorem afterFoldedByte?_eq_some_iff {p : Char} (ascii : p.toNat < 128) {text rest : Text} :
    afterFoldedByte? (UInt8.ofNat p.toNat) text = some rest ↔
      ∃ c, folded c = p ∧ text = String.utf8EncodeChar c ++ rest := by
  constructor
  · exact exists_folded_of_afterFoldedByte? ascii
  · rintro ⟨c, rfl, rfl⟩
    exact afterFoldedByte?_encode ascii rest

/-- A pattern is matched by the bytes of the characters that fold to it. -/
theorem afterFolded?_eq_some_iff {pattern : List Char} (ascii : ∀ p ∈ pattern, p.toNat < 128)
    {text rest : Text} :
    afterFolded? (ofChars pattern) text = some rest ↔
      ∃ cs, cs.map folded = pattern ∧ text = ofChars cs ++ rest := by
  induction pattern generalizing text with
  | nil => simp [ofChars, afterFolded?]
  | cons p pattern ih =>
    rw [List.forall_mem_cons] at ascii
    have split : ofChars (p :: pattern) = UInt8.ofNat p.toNat :: ofChars pattern := by
      rw [ofChars, List.flatMap_cons, encode_of_lt ascii.1]
      rfl
    rw [split, afterFolded?]
    constructor
    · intro matched
      split at matched
      next middle first =>
        obtain ⟨c, same, rfl⟩ := (afterFoldedByte?_eq_some_iff ascii.1).mp first
        obtain ⟨cs, others, rfl⟩ := (ih ascii.2).mp matched
        exact ⟨c :: cs, by rw [List.map_cons, same, others], by simp [ofChars]⟩
      next => contradiction
    · rintro ⟨cs, same, rfl⟩
      obtain ⟨c, cs, rfl, first, others⟩ := List.map_eq_cons_iff.mp same
      have found := (afterFoldedByte?_eq_some_iff ascii.1).mpr
        ⟨c, first, (by simp [ofChars] : ofChars (c :: cs) ++ rest = _ ++ (ofChars cs ++ rest))⟩
      rw [found]
      exact (ih ascii.2).mpr ⟨cs, others, rfl⟩

end Protoclass.Text
