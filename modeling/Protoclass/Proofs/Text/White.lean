import Protoclass.Proofs.Text.Blank
import Protoclass.Proofs.Text.Parts
import Protoclass.Text.Utf8

/-!
# White space

Trimming recognises a blank by its bytes, from either end of a text.  Here blanks
are characters.  The bytes of one blank never stand in for part of another, so that
blanks are taken one by one, and a blank is never made of bytes from both sides of a
place where a blank or an ASCII byte begins.  What is shown of texts with white space
around them holds for any bytes, well-formed or not.
-/

namespace Protoclass.Text

/-- The characters that are white space. -/
def spaces : List Char :=
  ['\t', '\n', '\x0B', '\x0C', '\r', ' ', '\u0085', '\u00A0', '\u1680', '\u2000', '\u2001',
    '\u2002', '\u2003', '\u2004', '\u2005', '\u2006', '\u2007', '\u2008', '\u2009', '\u200A',
    '\u2028', '\u2029', '\u202F', '\u205F', '\u3000']

/-- A text of nothing but white space. -/
def White (text : Text) : Prop :=
  ∃ cs : List Char, (∀ c ∈ cs, c ∈ spaces) ∧ text = ofChars cs

/-- A text with no white space at its ends. -/
structure Tight (text : Text) : Prop where
  start : ∀ c ∈ spaces, ¬String.utf8EncodeChar c <+: text
  ending : ∀ c ∈ spaces, ¬String.utf8EncodeChar c <:+ text

-- The list is searched, and not all characters.
instance (text : Text) : Decidable (Tight text) :=
  haveI := List.decidableBAll (fun c => ¬String.utf8EncodeChar c <+: text) spaces
  haveI := List.decidableBAll (fun c => ¬String.utf8EncodeChar c <:+ text) spaces
  decidable_of_iff ((∀ c ∈ spaces, ¬String.utf8EncodeChar c <+: text) ∧
      ∀ c ∈ spaces, ¬String.utf8EncodeChar c <:+ text)
    ⟨fun ends => ⟨ends.1, ends.2⟩, fun tight => ⟨tight.1, tight.2⟩⟩

/-! ## Blanks as they are read from one end -/

/-- Whether bytes are those of one blank. -/
def LongBlanks.isUnit (long : LongBlanks) : Text → Bool
  | [a] => isAsciiBlank a
  | [a, b] => long.pair a b
  | [a, b, c] => long.triple a b c
  | _ => false

/-- The bytes of each blank, as they are read from one end: none begin with those of
another, and none end with bytes that others begin with or go on with. -/
structure LongBlanks.Reads (long : LongBlanks) (units : List Text) : Prop where
  isUnit_iff : ∀ unit, long.isUnit unit = true ↔ unit ∈ units
  apart : ∀ first ∈ units, ∀ second ∈ units, first <+: second → first = second
  whole : ∀ first ∈ units, ∀ second ∈ units, ∀ n < first.length, 0 < n →
    ¬first.drop n <+: second ∧ ¬second <+: first.drop n
  high : ∀ unit ∈ units, unit.tail.all (128 ≤ ·) = true

/-- The blanks as they are read from the front. -/
def unitsForward : List Text := spaces.map String.utf8EncodeChar

/-- The blanks as they are read from the back. -/
def unitsBackward : List Text := unitsForward.map List.reverse

/-- How many bytes follow the first one of a blank. -/
def following (lead : UInt8) : Nat := if lead < 0x80 then 0 else if lead < 0xE0 then 1 else 2

/-- A first byte and those that go on from it, as many as it tells. -/
def Shaped (unit : Text) : Prop :=
  ∃ lead rest, unit = lead :: rest ∧ isTail lead = false ∧
    (∀ b ∈ rest, isTail b = true) ∧ rest.length = following lead

theorem shaped_of_mem_unitsForward {unit : Text} (member : unit ∈ unitsForward) : Shaped unit := by
  have each : ∀ unit ∈ unitsForward, unit ≠ [] ∧ isTail (unit.headD 0) = false ∧
      unit.tail.all isTail = true ∧ unit.tail.length = following (unit.headD 0) := by
    decide
  obtain ⟨given, first, later, count⟩ := each unit member
  obtain ⟨lead, rest, rfl⟩ := List.exists_cons_of_ne_nil given
  exact ⟨lead, rest, rfl, first, List.all_eq_true.mp later, count⟩

theorem Shaped.eq_of_isPrefix {first second : Text} (shaped : Shaped first)
    (shaped' : Shaped second) (starts : first <+: second) : first = second := by
  obtain ⟨lead, rest, rfl, -, -, count⟩ := shaped
  obtain ⟨lead', rest', rfl, -, -, count'⟩ := shaped'
  obtain ⟨rfl, -⟩ := List.cons_prefix_cons.mp starts
  apply starts.eq_of_length
  rw [List.length_cons, List.length_cons, count, count']

/-- What begins with a first byte is not the end of less than a whole blank. -/
theorem eq_of_suffix_cons {lead lead' : UInt8} {more rest : Text}
    (first : isTail lead = false) (later : ∀ b ∈ rest, isTail b = true)
    (ends : lead :: more <:+ lead' :: rest) : lead :: more = lead' :: rest := by
  rcases List.suffix_cons_iff.mp ends with same | within
  · exact same
  · rw [later lead (within.subset List.mem_cons_self)] at first
    contradiction

theorem exists_ofNat_add {low high b : UInt8} (above : low ≤ b) (below : b ≤ high) :
    ∃ n < high.toNat - low.toNat + 1, b = UInt8.ofNat (low.toNat + n) := by
  rw [UInt8.le_iff_toNat_le] at above below
  refine ⟨b.toNat - low.toNat, by omega, ?_⟩
  rw [Nat.add_sub_cancel' above, UInt8.ofNat_toNat]

theorem isUnit_forward_iff (unit : Text) :
    LongBlanks.forward.isUnit unit = true ↔ unit ∈ unitsForward := by
  constructor
  · intro blank
    match unit with
    | [a] =>
      have listed : [32] ∈ unitsForward ∧ ∀ n < 5, [UInt8.ofNat (9 + n)] ∈ unitsForward := by
        decide
      simp only [LongBlanks.isUnit, isAsciiBlank, Bool.and_eq_true, Bool.or_eq_true,
        decide_eq_true_eq] at blank
      rcases blank with ⟨above, below⟩ | rfl
      · obtain ⟨n, small, rfl⟩ := exists_ofNat_add above below
        exact listed.2 n small
      · exact listed.1
    | [a, b] =>
      have listed : [0xC2, 0x85] ∈ unitsForward ∧ [0xC2, 0xA0] ∈ unitsForward := by decide
      simp only [LongBlanks.isUnit, LongBlanks.forward, isBlankPair, Bool.and_eq_true,
        Bool.or_eq_true, decide_eq_true_eq] at blank
      rcases blank with ⟨rfl, rfl | rfl⟩
      · exact listed.1
      · exact listed.2
    | [a, b, c] =>
      have listed : [0xE1, 0x9A, 0x80] ∈ unitsForward ∧ [0xE2, 0x80, 0xA8] ∈ unitsForward ∧
          [0xE2, 0x80, 0xA9] ∈ unitsForward ∧ [0xE2, 0x80, 0xAF] ∈ unitsForward ∧
          [0xE2, 0x81, 0x9F] ∈ unitsForward ∧ [0xE3, 0x80, 0x80] ∈ unitsForward ∧
          ∀ n < 11, [0xE2, 0x80, UInt8.ofNat (0x80 + n)] ∈ unitsForward := by
        decide
      obtain ⟨ogham, line, paragraph, narrow, medium, ideographic, general⟩ := listed
      simp only [LongBlanks.isUnit, LongBlanks.forward, isBlankTriple, Bool.and_eq_true,
        Bool.or_eq_true, decide_eq_true_eq] at blank
      rcases blank with ((⟨⟨rfl, rfl⟩, rfl⟩ | ⟨⟨rfl, rfl⟩, last⟩) | ⟨⟨rfl, rfl⟩, rfl⟩) |
        ⟨⟨rfl, rfl⟩, rfl⟩
      · exact ogham
      · rcases last with ((⟨above, below⟩ | rfl) | rfl) | rfl
        · obtain ⟨n, small, rfl⟩ := exists_ofNat_add above below
          exact general n small
        · exact line
        · exact paragraph
        · exact narrow
      · exact medium
      · exact ideographic
    | [] => contradiction
    | _ :: _ :: _ :: _ :: _ => contradiction
  · have each : ∀ unit ∈ unitsForward, LongBlanks.forward.isUnit unit = true := by decide
    exact each unit

theorem reads_forward : LongBlanks.forward.Reads unitsForward where
  isUnit_iff := isUnit_forward_iff
  apart := by
    intro first member second member' starts
    exact (shaped_of_mem_unitsForward member).eq_of_isPrefix (shaped_of_mem_unitsForward member')
      starts
  whole := by
    intro first member second member' n shorter positive
    obtain ⟨lead, rest, rfl, -, later, -⟩ := shaped_of_mem_unitsForward member
    obtain ⟨lead', rest', rfl, start, -⟩ := shaped_of_mem_unitsForward member'
    obtain ⟨m, rfl⟩ := Nat.exists_eq_add_one_of_ne_zero (Nat.ne_of_gt positive)
    have nonempty : (lead :: rest).drop (m + 1) ≠ [] := by simpa using shorter
    obtain ⟨b, more, split⟩ := List.exists_cons_of_ne_nil nonempty
    have other : b ≠ lead' := by
      rintro rfl
      have inside : b ∈ rest := List.mem_of_mem_drop (split ▸ List.mem_cons_self)
      rw [later b inside] at start
      contradiction
    rw [split, List.cons_prefix_cons, List.cons_prefix_cons]
    exact ⟨fun starts => other starts.1, fun starts => other starts.1.symm⟩
  high := by decide

theorem isUnit_backward (unit : Text) :
    LongBlanks.backward.isUnit unit = LongBlanks.forward.isUnit unit.reverse := by
  match unit with
  | [] | [_] | [_, _] | [_, _, _] => rfl
  | a :: b :: c :: d :: rest =>
    have long : LongBlanks.forward.isUnit (a :: b :: c :: d :: rest).reverse = false := by
      match split : (a :: b :: c :: d :: rest).reverse with
      | [] | [_] | [_, _] | [_, _, _] =>
        have lengths := congrArg List.length split
        simp at lengths
      | _ :: _ :: _ :: _ :: _ => rfl
    rw [long]
    rfl

theorem reads_backward : LongBlanks.backward.Reads unitsBackward where
  isUnit_iff := by
    intro unit
    rw [isUnit_backward, isUnit_forward_iff, unitsBackward, List.mem_map]
    constructor
    · exact fun member => ⟨unit.reverse, member, List.reverse_reverse unit⟩
    · rintro ⟨back, member, rfl⟩
      rwa [List.reverse_reverse]
  apart := by
    simp only [unitsBackward, List.forall_mem_map, List.reverse_prefix, List.reverse_inj]
    intro first member second member' ends
    obtain ⟨lead, rest, rfl, start, -⟩ := shaped_of_mem_unitsForward member
    obtain ⟨lead', rest', rfl, -, later, -⟩ := shaped_of_mem_unitsForward member'
    exact eq_of_suffix_cons start later ends
  whole := by
    -- What is left of a blank, read from the back, is a beginning of it.
    simp only [unitsBackward, List.forall_mem_map, List.length_reverse, List.drop_reverse,
      List.reverse_prefix]
    intro first member second member' n shorter positive
    have shaped := shaped_of_mem_unitsForward member
    have shaped' := shaped_of_mem_unitsForward member'
    have proper : first.take (first.length - n) ≠ second := by
      rintro same
      have whole := shaped'.eq_of_isPrefix shaped (same ▸ List.take_prefix _ _)
      have lengths := congrArg List.length (same.trans whole)
      rw [List.length_take] at lengths
      omega
    obtain ⟨lead, rest, rfl, start, later, -⟩ := shaped
    obtain ⟨lead', rest', rfl, start', later', -⟩ := shaped'
    obtain ⟨m, some⟩ := Nat.exists_eq_add_one_of_ne_zero (Nat.sub_ne_zero_of_lt shorter)
    rw [some, List.take_succ_cons] at proper ⊢
    constructor
    · intro ends
      exact proper (eq_of_suffix_cons start later' ends)
    · intro ends
      have later : ∀ b ∈ rest.take m, isTail b = true :=
        fun b member => later b (List.mem_of_mem_take member)
      exact proper (eq_of_suffix_cons start' later ends).symm
  high := by decide

/-- What a text goes on with cannot complete a blank that began before it. -/
def Whole (units : List Text) (rest : Text) : Prop :=
  ∀ unit ∈ units, ∀ n < unit.length, 0 < n → ¬unit.drop n <+: rest

/-- No blank stands first. -/
def Bare (units : List Text) (text : Text) : Prop :=
  ∀ unit ∈ units, ¬unit <+: text

/-- What is left of a text begins with no blank, and what is taken is made of blanks. -/
def Strips (units : List Text) (text left : Text) : Prop :=
  Bare units left ∧ ∃ blanks : List Text, (∀ blank ∈ blanks, blank ∈ units) ∧
    blanks.flatten ++ left = text

namespace LongBlanks.Reads

variable {long : LongBlanks} {units : List Text} (reads : long.Reads units)

include reads

/-- A blank that stands first is taken. -/
theorem trimFrom_unit_append {unit : Text} (member : unit ∈ units) (rest : Text) :
    trimFrom long (unit ++ rest) = trimFrom long rest := by
  have blank := (reads.isUnit_iff unit).mpr member
  have shorter : ∀ first, first <+: unit → first ≠ unit → long.isUnit first = false := by
    intro first starts other
    refine Bool.eq_false_iff.mpr fun blank' => other ?_
    exact reads.apart first ((reads.isUnit_iff first).mp blank') unit member starts
  match unit with
  | [a] =>
    rw [trimFrom.eq_def]
    exact if_pos blank
  | [a, b] =>
    have single : isAsciiBlank a = false := shorter [a] (by simp) (by simp)
    have pair : long.pair a b = true := blank
    rw [trimFrom.eq_def]
    simp [single, pair]
  | [a, b, c] =>
    have single : isAsciiBlank a = false := shorter [a] (by simp) (by simp)
    have pair : long.pair a b = false := shorter [a, b] (by simp) (by simp)
    have triple : long.triple a b c = true := blank
    rw [trimFrom.eq_def]
    simp [single, pair, triple]
  | [] => contradiction
  | _ :: _ :: _ :: _ :: _ => contradiction

theorem trimFrom_flatten_append {blanks : List Text} (each : ∀ blank ∈ blanks, blank ∈ units)
    (rest : Text) : trimFrom long (blanks.flatten ++ rest) = trimFrom long rest := by
  induction blanks with
  | nil => rfl
  | cons blank blanks ih =>
    rw [List.forall_mem_cons] at each
    rw [List.flatten_cons, List.append_assoc, reads.trimFrom_unit_append each.1, ih each.2]

theorem strips_unit_append (unit : Text) {rest left : Text} (blank : long.isUnit unit = true)
    (strips : Strips units rest left) : Strips units (unit ++ rest) left := by
  obtain ⟨bare, blanks, each, split⟩ := strips
  refine ⟨bare, unit :: blanks, ?_, by rw [List.flatten_cons, List.append_assoc, split]⟩
  exact List.forall_mem_cons.mpr ⟨(reads.isUnit_iff unit).mp blank, each⟩

theorem strips_self {text : Text}
    (single : ∀ a rest, text = a :: rest → ¬isAsciiBlank a = true)
    (pair : ∀ a b rest, text = a :: b :: rest → ¬long.pair a b = true)
    (triple : ∀ a b c rest, text = a :: b :: c :: rest → ¬long.triple a b c = true) :
    Strips units text text := by
  refine ⟨?_, [], by simp, rfl⟩
  rintro unit member ⟨rest, rfl⟩
  have blank := (reads.isUnit_iff unit).mpr member
  match unit with
  | [] => contradiction
  | [a] => exact single a rest rfl blank
  | [a, b] => exact pair a b rest rfl blank
  | [a, b, c] => exact triple a b c rest rfl blank
  | _ :: _ :: _ :: _ :: _ => contradiction

theorem strips_trimFrom (text : Text) : Strips units text (trimFrom long text) := by
  fun_induction trimFrom long text with
  | case1 => exact reads.strips_self (by simp) (by simp) (by simp)
  | case2 a rest blank ih => exact reads.strips_unit_append [a] blank ih
  | case4 a _ b rest blank ih => exact reads.strips_unit_append [a, b] blank ih
  | case6 a _ b _ c rest blank ih => exact reads.strips_unit_append [a, b, c] blank ih
  | case3 a single =>
    apply reads.strips_self
    · rintro _ _ ⟨⟩
      exact single
    · simp
    · simp
  | case5 a single b pair =>
    apply reads.strips_self
    · rintro _ _ ⟨⟩
      exact single
    · rintro _ _ _ ⟨⟩
      exact pair
    · simp
  | case7 a single b pair c rest triple =>
    apply reads.strips_self
    · rintro _ _ ⟨⟩
      exact single
    · rintro _ _ _ ⟨⟩
      exact pair
    · rintro _ _ _ _ ⟨⟩
      exact triple

theorem trimFrom_of_bare {text : Text} (bare : Bare units text) : trimFrom long text = text := by
  obtain ⟨-, blanks, each, split⟩ := reads.strips_trimFrom text
  cases blanks with
  | nil => exact split
  | cons blank blanks =>
    rw [List.flatten_cons, List.append_assoc] at split
    exact absurd ⟨_, split⟩ (bare blank (each blank List.mem_cons_self))

theorem whole_cons {b : UInt8} (ascii : b < 128) (rest : Text) : Whole units (b :: rest) := by
  intro unit member n shorter positive starts
  have nonempty : unit.drop n ≠ [] := by simpa using shorter
  obtain ⟨first, more, split⟩ := List.exists_cons_of_ne_nil nonempty
  have later : first ∈ unit.tail := by
    have inside : first ∈ unit.drop n := split ▸ List.mem_cons_self
    rw [← Nat.sub_add_cancel positive, ← List.drop_tail] at inside
    exact List.mem_of_mem_drop inside
  have high : 128 ≤ first := by simpa using List.all_eq_true.mp (reads.high unit member) first later
  rw [split, List.cons_prefix_cons] at starts
  rw [starts.1] at high
  exact absurd ascii (UInt8.not_lt.mpr high)

theorem whole_flatten_append {blanks : List Text} (each : ∀ blank ∈ blanks, blank ∈ units)
    {rest : Text} (whole : Whole units rest) : Whole units (blanks.flatten ++ rest) := by
  cases blanks with
  | nil => exact whole
  | cons blank blanks =>
    intro unit member n shorter positive starts
    obtain ⟨notWithin, notAround⟩ := reads.whole unit member blank (each blank List.mem_cons_self)
      n shorter positive
    rw [List.flatten_cons, List.append_assoc] at starts
    rcases List.prefix_or_prefix_of_prefix starts (List.prefix_append blank _) with within | around
    · exact notWithin within
    · exact notAround around

omit reads in
theorem whole_nil : Whole units [] := by
  intro unit member n shorter positive starts
  rw [List.prefix_nil, List.drop_eq_nil_iff] at starts
  omega

omit reads in
/-- A text that begins with no blank does not do so with more behind it, unless that
completes one. -/
theorem bare_append {text rest : Text} (given : text ≠ []) (bare : Bare units text)
    (whole : Whole units rest) : Bare units (text ++ rest) := by
  intro unit member starts
  rcases List.prefix_or_prefix_of_prefix starts (List.prefix_append text rest) with within | around
  · exact bare unit member within
  · obtain ⟨back, rfl⟩ := around
    rw [List.prefix_append_right_inj] at starts
    have more : back ≠ [] := by
      rintro rfl
      exact bare _ member (by simp)
    refine whole _ member text.length ?_ (List.length_pos_iff.mpr given) (by simpa using starts)
    rw [List.length_append]
    have := List.length_pos_iff.mpr more
    omega

end LongBlanks.Reads

/-! ## White space around a text -/

theorem exists_flatten_of_white {text : Text} (white : White text) :
    ∃ blanks : List Text, (∀ blank ∈ blanks, blank ∈ unitsForward) ∧ text = blanks.flatten := by
  obtain ⟨cs, each, rfl⟩ := white
  refine ⟨cs.map String.utf8EncodeChar, ?_, by rw [ofChars, List.flatMap_def]⟩
  intro blank member
  obtain ⟨c, among, rfl⟩ := List.mem_map.mp member
  exact List.mem_map_of_mem (each c among)

theorem white_flatten {blanks : List Text} (each : ∀ blank ∈ blanks, blank ∈ unitsForward) :
    White blanks.flatten := by
  induction blanks with
  | nil => exact ⟨[], by simp, rfl⟩
  | cons blank blanks ih =>
    rw [List.forall_mem_cons] at each
    obtain ⟨cs, among, split⟩ := ih each.2
    obtain ⟨c, isSpace, rfl⟩ := List.mem_map.mp each.1
    exact ⟨c :: cs, List.forall_mem_cons.mpr ⟨isSpace, among⟩, by
      rw [List.flatten_cons, split, ofChars, ofChars, List.flatMap_cons]⟩

theorem exists_flatten_reverse_of_white {text : Text} (white : White text) :
    ∃ blanks : List Text, (∀ blank ∈ blanks, blank ∈ unitsBackward) ∧
      text.reverse = blanks.flatten := by
  obtain ⟨blanks, each, rfl⟩ := exists_flatten_of_white white
  refine ⟨(blanks.map List.reverse).reverse, ?_, by rw [List.reverse_flatten]⟩
  intro blank member
  obtain ⟨unit, among, rfl⟩ := List.mem_map.mp (List.mem_reverse.mp member)
  exact List.mem_map_of_mem (each unit among)

theorem white_nil : White [] := ⟨[], by simp, rfl⟩

theorem White.append {first second : Text} (white : White first) (white' : White second) :
    White (first ++ second) := by
  obtain ⟨cs, each, rfl⟩ := white
  obtain ⟨cs', each', rfl⟩ := white'
  refine ⟨cs ++ cs', List.forall_mem_append.mpr ⟨each, each'⟩, ?_⟩
  rw [ofChars, ofChars, ofChars, List.flatMap_append]

theorem trimLeft_white_append {pad : Text} (white : White pad) (rest : Text) :
    trimLeft (pad ++ rest) = trimLeft rest := by
  obtain ⟨blanks, each, rfl⟩ := exists_flatten_of_white white
  rw [trimLeft_eq_trimFrom, trimLeft_eq_trimFrom, reads_forward.trimFrom_flatten_append each]

/-- A text has nothing but blanks exactly when it is white space. -/
theorem isBlank_iff_white (text : Text) : isBlank text = true ↔ White text := by
  rw [isBlank, List.isEmpty_iff]
  constructor
  · intro nothing
    obtain ⟨-, blanks, each, split⟩ := reads_forward.strips_trimFrom text
    rw [← trimLeft_eq_trimFrom, nothing, List.append_nil] at split
    exact split ▸ white_flatten each
  · intro white
    have trimmed := trimLeft_white_append white []
    rwa [List.append_nil] at trimmed

theorem White.append_iff {pad : Text} (white : White pad) {rest : Text} :
    White (pad ++ rest) ↔ White rest := by
  rw [← isBlank_iff_white, isBlank, trimLeft_white_append white, ← isBlank, isBlank_iff_white]

theorem tight_iff {text : Text} :
    Tight text ↔ Bare unitsForward text ∧ Bare unitsBackward text.reverse := by
  have forward : Bare unitsForward text ↔ ∀ c ∈ spaces, ¬String.utf8EncodeChar c <+: text := by
    simp [Bare, unitsForward]
  have backward : Bare unitsBackward text.reverse ↔
      ∀ c ∈ spaces, ¬String.utf8EncodeChar c <:+ text := by
    simp [Bare, unitsBackward, unitsForward]
  rw [forward, backward]
  exact ⟨fun tight => ⟨tight.1, tight.2⟩, fun ends => ⟨ends.1, ends.2⟩⟩

theorem whole_white_append {pad rest : Text} (white : White pad)
    (whole : Whole unitsForward rest) : Whole unitsForward (pad ++ rest) := by
  obtain ⟨blanks, each, rfl⟩ := exists_flatten_of_white white
  exact reads_forward.whole_flatten_append each whole

theorem whole_reverse_white_append {pad rest : Text} (white : White pad)
    (whole : Whole unitsBackward rest) : Whole unitsBackward (pad.reverse ++ rest) := by
  obtain ⟨blanks, each, split⟩ := exists_flatten_reverse_of_white white
  rw [split]
  exact reads_backward.whole_flatten_append each whole

/-- White space goes up to any place where nothing completes a blank. -/
theorem white_append_iff {text rest : Text} (whole : Whole unitsForward rest) :
    White (text ++ rest) ↔ White text ∧ White rest := by
  constructor
  · intro white
    obtain ⟨bare, blanks, each, split⟩ := reads_forward.strips_trimFrom text
    have blank := (isBlank_iff_white _).mpr white
    rw [isBlank, List.isEmpty_iff, ← split, List.append_assoc,
      trimLeft_white_append (white_flatten each)] at blank
    by_cases nothing : trimFrom .forward text = []
    · rw [nothing, List.append_nil] at split
      rw [nothing, List.nil_append] at blank
      exact ⟨split ▸ white_flatten each, (isBlank_iff_white rest).mp (List.isEmpty_iff.mpr blank)⟩
    · have kept := reads_forward.trimFrom_of_bare
        (LongBlanks.Reads.bare_append nothing bare whole)
      rw [← trimLeft_eq_trimFrom, blank] at kept
      exact absurd (List.append_eq_nil_iff.mp kept.symm).1 nothing
  · rintro ⟨white, white'⟩
    exact white.append white'

theorem White.isBlankByte {text : Text} (white : White text) : ∀ b ∈ text, IsBlankByte b := by
  have nothing := (isBlank_iff_white text).mpr white
  rw [isBlank, List.isEmpty_iff] at nothing
  obtain ⟨front, split, blanks⟩ := exists_append_trimLeft text
  rw [nothing, List.append_nil] at split
  exact split ▸ blanks

/-- Trimming takes white space away and leaves a text that has none at its ends. -/
theorem trim_padded {pad pad' text : Text} (white : White pad) (white' : White pad')
    (tight : Tight text) : trim (pad ++ text ++ pad') = text := by
  obtain ⟨bare, bare'⟩ := tight_iff.mp tight
  rw [List.append_assoc, trim, trimLeft_white_append white]
  by_cases nothing : text = []
  · subst nothing
    have blank := (isBlank_iff_white pad').mpr white'
    rw [isBlank, List.isEmpty_iff] at blank
    rw [List.nil_append, blank]
    rfl
  · have whole := whole_white_append white' LongBlanks.Reads.whole_nil
    rw [List.append_nil] at whole
    obtain ⟨blanks, each, split⟩ := exists_flatten_reverse_of_white white'
    rw [trimLeft_eq_trimFrom,
      reads_forward.trimFrom_of_bare (LongBlanks.Reads.bare_append nothing bare whole), trimRight,
      trimReversed_eq_trimFrom, List.reverse_append, split,
      reads_backward.trimFrom_flatten_append each, reads_backward.trimFrom_of_bare bare',
      List.reverse_reverse]

/-- A trimmed text has no white space at its ends. -/
theorem tight_trim (text : Text) : Tight (trim text) := by
  obtain ⟨bare, -⟩ := reads_forward.strips_trimFrom text
  obtain ⟨bare', -⟩ := reads_backward.strips_trimFrom (trimLeft text).reverse
  obtain ⟨back, split, -⟩ := exists_trimRight_append (trimLeft text)
  rw [← trimLeft_eq_trimFrom] at bare
  rw [← trimReversed_eq_trimFrom] at bare'
  refine tight_iff.mpr ⟨fun unit member starts => ?_, ?_⟩
  · exact bare unit member (starts.trans ⟨back, split⟩)
  · rwa [trim, trimRight, List.reverse_reverse]

theorem exists_white_append_trimLeft (text : Text) :
    ∃ pad, White pad ∧ pad ++ trimLeft text = text := by
  obtain ⟨-, blanks, each, split⟩ := reads_forward.strips_trimFrom text
  rw [← trimLeft_eq_trimFrom] at split
  exact ⟨blanks.flatten, white_flatten each, split⟩

theorem exists_trimRight_append_white (text : Text) :
    ∃ pad, White pad ∧ trimRight text ++ pad = text := by
  obtain ⟨-, blanks, each, split⟩ := reads_backward.strips_trimFrom text.reverse
  refine ⟨(blanks.map List.reverse).reverse.flatten, white_flatten ?_, ?_⟩
  · intro blank member
    obtain ⟨unit, among, rfl⟩ := List.mem_map.mp (List.mem_reverse.mp member)
    obtain ⟨forward, isUnit, rfl⟩ := List.mem_map.mp (each unit among)
    rwa [List.reverse_reverse]
  · rw [← List.reverse_flatten, trimRight, trimReversed_eq_trimFrom, ← List.reverse_append, split,
      List.reverse_reverse]

/-- Trimming leaves nothing of white space, and something of any other text. -/
theorem trim_eq_nil_iff (text : Text) : trim text = [] ↔ White text := by
  constructor
  · intro nothing
    obtain ⟨pad, white, split⟩ := exists_white_append_trimLeft text
    obtain ⟨pad', white', split'⟩ := exists_trimRight_append_white (trimLeft text)
    rw [← trim, nothing, List.nil_append] at split'
    rw [← split, ← split']
    exact white.append white'
  · intro white
    rw [trim, List.isEmpty_iff.mp ((isBlank_iff_white text).mpr white)]
    rfl

theorem trim_white_append {pad : Text} (white : White pad) (rest : Text) :
    trim (pad ++ rest) = trim rest := by
  rw [trim, trimLeft_white_append white, ← trim]

theorem trim_trim (text : Text) : trim (trim text) = trim text := by
  have padded := trim_padded white_nil white_nil (tight_trim text)
  rwa [List.nil_append, List.append_nil] at padded

/-- What stands before a separator can be trimmed before or after it is divided off. -/
theorem trim_takeWhile_trim {sep : UInt8} (shown : ¬IsBlankByte sep) (text : Text) :
    trim ((trim text).takeWhile (· != sep)) = trim (text.takeWhile (· != sep)) := by
  obtain ⟨pad, white, split⟩ := exists_white_append_trimLeft text
  obtain ⟨back, split', blanks⟩ := exists_trimRight_append (trimLeft text)
  rw [← trim] at split'
  have inPad : sep ∉ pad := fun member => shown (white.isBlankByte sep member)
  have inBack : sep ∉ back := fun member => shown (blanks sep member)
  conv_rhs => rw [← split, ← split']
  rw [List.takeWhile_append_of_pos (bne_of_notMem inPad), trim_white_append white]
  by_cases member : sep ∈ trim text
  · obtain ⟨front, rest, divided, absent⟩ := List.eq_append_cons_of_mem member
    rw [divided, List.append_assoc, List.cons_append, takeWhile_append_cons absent,
      takeWhile_append_cons absent]
  · rw [List.takeWhile_append_of_pos (bne_of_notMem member),
      List.takeWhile_eq_self_iff.mpr (bne_of_notMem member),
      List.takeWhile_eq_self_iff.mpr (bne_of_notMem inBack), split', trim_trim, trim_trimLeft]

theorem white_join_iff {pieces : List Text} :
    White (join "\n" pieces) ↔ ∀ piece ∈ pieces, White piece := by
  fun_induction join "\n" pieces with
  | case1 => simp [white_nil]
  | case2 piece => simp
  | case3 piece pieces _ ih =>
    have ended : White (ofString "\n") := ⟨['\n'], by simp [spaces], rfl⟩
    have whole : Whole unitsForward (ofString "\n" ++ join "\n" pieces) :=
      reads_forward.whole_cons (by decide) _
    rw [List.append_assoc, white_append_iff whole, ended.append_iff, ih, List.forall_mem_cons]

/-- Two texts that have no white space at their ends, with anything between them that
completes no blank of theirs. -/
theorem Tight.append {first last : Text} (tight : Tight first) (tight' : Tight last)
    (given : first ≠ []) (given' : last ≠ []) {middle : Text}
    (whole : Whole unitsForward (middle ++ last))
    (whole' : Whole unitsBackward (middle.reverse ++ first.reverse)) :
    Tight (first ++ middle ++ last) := by
  have start := LongBlanks.Reads.bare_append given (tight_iff.mp tight).1 whole
  have ending := LongBlanks.Reads.bare_append (by simpa using given') (tight_iff.mp tight').2 whole'
  refine tight_iff.mpr ⟨by rwa [List.append_assoc], ?_⟩
  simpa using ending

end Protoclass.Text
