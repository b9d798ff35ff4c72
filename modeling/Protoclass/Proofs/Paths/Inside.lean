import Mathlib.Data.List.Basic
import Protoclass.Proofs.Paths.Cleaning
import Protoclass.Proofs.Text.Parts

/-!
# Paths inside a directory

A path that leads down through names is joined to a directory by writing the names
behind the elements of the directory.  It does not matter whether the names are joined
one by one or together, the way from the directory to such a path is made of the same
names, and the last of them is the base of the path.
-/

namespace Protoclass.Path

open Text (slash)

/-- What may stand before an element of a path: nothing, or a text that ends in a slash. -/
def IsLead (front : Text) : Prop := front = [] ∨ ∃ rest, front = rest ++ [slash]

theorem IsLead.suffix_append_iff {front tail : Text} (lead : IsLead front)
    (undivided : slash ∉ tail) (name : Text) : tail <:+ front ++ name ↔ tail <:+ name := by
  constructor
  · intro ends
    rcases lead with rfl | ⟨rest, rfl⟩
    · exact ends
    · have behind : slash :: name <:+ rest ++ [slash] ++ name := ⟨rest, by simp⟩
      rcases List.suffix_or_suffix_of_suffix ends behind with within | around
      · rcases List.suffix_cons_iff.mp within with rfl | within
        · exact absurd List.mem_cons_self undivided
        · exact within
      · exact absurd (around.subset List.mem_cons_self) undivided
  · intro ends
    exact ends.trans (List.suffix_append front name)

theorem exists_lead_join (above : List Text) (name : Text) :
    ∃ front, IsLead front ∧ Text.join "/" (above ++ [name]) = front ++ name := by
  by_cases only : above = []
  · subst only
    exact ⟨[], .inl rfl, rfl⟩
  · refine ⟨Text.join "/" above ++ "/", .inr ⟨_, rfl⟩, ?_⟩
    exact Text.join_append _ only (List.cons_ne_nil name [])

theorem exists_lead_ofElements (rooted : Bool) (above : List Text) (name : Text) :
    ∃ front, IsLead front ∧ ofElements rooted (above ++ [name]) = front ++ name := by
  obtain ⟨front, lead, split⟩ := exists_lead_join above name
  cases rooted with
  | false =>
    refine ⟨front, lead, ?_⟩
    rw [ofElements, if_neg Bool.false_ne_true, if_neg (by simp), split]
  | true =>
    refine ⟨slash :: front, ?_, by rw [ofElements, if_pos rfl, split]; rfl⟩
    rcases lead with rfl | ⟨rest, rfl⟩
    · exact .inr ⟨[], rfl⟩
    · exact .inr ⟨slash :: rest, rfl⟩

theorem mem_splitOn_ofElements_iff (rooted : Bool) {parts : List Text} (nonempty : parts ≠ [])
    (undivided : ∀ part ∈ parts, slash ∉ part) {element : Text} (given : element ≠ []) :
    element ∈ (ofElements rooted parts).splitOn slash ↔ element ∈ parts := by
  rw [splitOn_ofElements rooted nonempty undivided]
  cases rooted <;> simp [given]

/-- A part without a slash lies in one of the elements. -/
theorem infix_ofElements_iff (rooted : Bool) {parts : List Text} (nonempty : parts ≠ [])
    {part : Text} (given : part ≠ []) (undivided : slash ∉ part) :
    part <:+: ofElements rooted parts ↔ ∃ element ∈ parts, part <:+: element := by
  rw [← Text.infix_join_iff given undivided, ← Text.ofString_slash]
  cases rooted with
  | false => rw [ofElements, if_neg Bool.false_ne_true, if_neg (by simpa using nonempty)]
  | true =>
    obtain ⟨b, rest, rfl⟩ := List.exists_cons_of_ne_nil given
    rw [List.mem_cons, not_or] at undivided
    rw [ofElements, if_pos rfl, Text.ofString_slash, List.singleton_append, List.infix_cons_iff,
      List.cons_prefix_cons]
    simp [Ne.symm undivided.1]

/-! ## Joining -/

theorem isAbsolute_clean (path : Text) : isAbsolute (clean path) = isAbsolute path :=
  isAbsolute_ofElements fun _ member => ne_nil_of_mem_elements member

section Join

variable {root path : Text} {through : List Text}

theorem Leads.elements_join (leads : Leads path through) (given : root ≠ []) :
    elements (Path.join root path) = elements root ++ through := by
  rw [Path.join, if_neg (by simpa using given), elements_clean, List.append_assoc,
    Text.ofString_slash, List.singleton_append, leads.elements_append_slash given]

theorem isAbsolute_join_eq (given : root ≠ []) (path : Text) :
    isAbsolute (Path.join root path) = isAbsolute root := by
  obtain ⟨b, rest, rfl⟩ := List.exists_cons_of_ne_nil given
  rw [Path.join, if_neg (by simp), isAbsolute_clean]
  rfl

theorem Leads.join_eq_ofElements (leads : Leads path through) (given : root ≠ []) :
    Path.join root path = ofElements (isAbsolute root) (elements root ++ through) := by
  rw [← leads.elements_join given, ← isAbsolute_join_eq given path]
  rw [Path.join, if_neg (by simpa using given), isAbsolute_clean, elements_clean]
  rfl

theorem leads_join (nonempty : through ≠ [])
    (sound : ∀ name ∈ through, Proper name ∧ slash ∉ name) :
    Leads (Text.join "/" through) through := by
  have leads := leads_ofElements false sound
  rwa [ofElements, if_neg Bool.false_ne_true, if_neg (by simpa using nonempty)] at leads

/-- Names are joined to a path one by one or together. -/
theorem foldl_join (given : root ≠ []) (nonempty : through ≠ [])
    (sound : ∀ name ∈ through, Proper name ∧ slash ∉ name) :
    through.foldl Path.join root = Path.join root (Text.join "/" through) := by
  induction through generalizing root with
  | nil => contradiction
  | cons name through ih =>
    by_cases only : through = []
    · subst only
      rfl
    · rw [List.forall_mem_cons] at sound
      have first : Leads name [name] :=
        leads_join (List.cons_ne_nil name []) (by simpa using sound.1)
      have rest := leads_join only sound.2
      have all := leads_join nonempty (List.forall_mem_cons.mpr sound)
      rw [List.foldl_cons, ih (join_ne_nil given name) only sound.2,
        rest.join_eq_ofElements (join_ne_nil given name), first.elements_join given,
        isAbsolute_join_eq given, all.join_eq_ofElements given, List.append_assoc,
        List.singleton_append]

theorem dropCommon_append (parts rest : List Text) :
    dropCommon parts (parts ++ rest) = ([], rest) := by
  induction parts with
  | nil => cases rest <;> rfl
  | cons part parts ih => rw [List.cons_append, dropCommon, if_pos rfl, ih]

/-- The way to a path that was joined to a directory is what was joined. -/
theorem Leads.relative?_join (leads : Leads path through) (given : root ≠ [])
    (nonempty : through ≠ []) :
    relative? root (Path.join root path) = some (Text.join "/" through) := by
  have parts := leads.elements_join given
  have other : Path.clean root ≠ Path.clean (Path.join root path) := by
    intro same
    rw [← elements_clean, ← same, elements_clean, List.self_eq_append_right] at parts
    exact nonempty parts
  have target : targetElements (Path.join root path) = elements root ++ through := by
    unfold targetElements
    rw [parts]
    split
    · simp_all
    · rfl
  rw [relative?, if_neg other, isAbsolute_join_eq given, if_neg (by simp), target,
    dropCommon_append]
  rfl

/-- The ending of a path is that of its last name. -/
theorem Leads.suffix_join_iff (leads : Leads path through) (given : root ≠ [])
    (nonempty : through ≠ []) {tail : Text} (undivided : slash ∉ tail) :
    tail <:+ Path.join root path ↔ tail <:+ Text.join "/" through := by
  obtain ⟨above, name, rfl⟩ := (List.eq_nil_or_concat' through).resolve_left nonempty
  obtain ⟨front, lead, split⟩ := exists_lead_join above name
  obtain ⟨front', lead', split'⟩ :=
    exists_lead_ofElements (isAbsolute root) (elements root ++ above) name
  rw [leads.join_eq_ofElements given, ← List.append_assoc, split', split,
    lead'.suffix_append_iff undivided, lead.suffix_append_iff undivided]

end Join

theorem mem_splitOn_of_mem_elements {path element : Text} (member : element ∈ elements path)
    (proper : Proper element) : element ∈ path.splitOn slash := by
  rw [elements, List.mem_reverse] at member
  rcases mem_foldl_push member with nowhere | up | ⟨piece, -⟩
  · contradiction
  · exact absurd up proper.2.2
  · exact piece

/-! ## The base of a path -/

theorem IsLead.lastElement_append {front name : Text} (lead : IsLead front)
    (undivided : slash ∉ name) : lastElement (front ++ name) = name := by
  have kept := Text.bne_of_notMem (mt List.mem_reverse.mp undivided)
  have stopped : front.reverse.takeWhile (· != slash) = [] := by
    rcases lead with rfl | ⟨rest, rfl⟩ <;> simp
  rw [lastElement, List.reverse_append, List.takeWhile_append_of_pos kept, stopped,
    List.append_nil, List.reverse_reverse]

theorem dropTrailingSlashes_append {text back : Text} (ends : ∀ b ∈ text.getLast?, b ≠ slash)
    (slashes : ∀ b ∈ back, b = slash) : dropTrailingSlashes (text ++ back) = text := by
  have dropped : ∀ b ∈ back.reverse, (b == slash) = true := by
    simpa using slashes
  have stopped : text.reverse.dropWhile (· == slash) = text.reverse := by
    cases reversed : text.reverse with
    | nil => rfl
    | cons b rest =>
      have last : b ∈ text.getLast? := by rw [← List.head?_reverse, reversed]; rfl
      rw [List.dropWhile_cons_of_neg (by simpa using ends b last)]
  rw [dropTrailingSlashes, List.reverse_append, List.dropWhile_append_of_pos dropped, stopped,
    List.reverse_reverse]

/-- The base of a path is the last thing before the slashes that it ends with. -/
theorem IsLead.base_append {front name back : Text} (lead : IsLead front) (given : name ≠ [])
    (undivided : slash ∉ name) (slashes : ∀ b ∈ back, b = slash) :
    base (front ++ name ++ back) = name := by
  have ends : ∀ b ∈ (front ++ name).getLast?, b ≠ slash := by
    rintro b last rfl
    rw [List.getLast?_append_of_ne_nil _ given] at last
    exact undivided (List.mem_of_getLast? last)
  have trimmed := dropTrailingSlashes_append ends slashes
  unfold base
  simp only [trimmed]
  rw [if_neg (by simp [given]), if_neg (by simp [given]), lead.lastElement_append undivided]

theorem base_ofElements (rooted : Bool) (above : List Text) {name : Text} (given : name ≠ [])
    (undivided : slash ∉ name) : base (ofElements rooted (above ++ [name])) = name := by
  obtain ⟨front, lead, split⟩ := exists_lead_ofElements rooted above name
  rw [split, ← List.append_nil (front ++ name), lead.base_append given undivided (by simp)]

theorem dropWhile_append_takeWhile_reverse (p : UInt8 → Bool) (text : Text) :
    (text.reverse.dropWhile p).reverse ++ (text.reverse.takeWhile p).reverse = text := by
  rw [← List.reverse_append, List.takeWhile_append_dropWhile, List.reverse_reverse]

theorem isLead_dropWhile (text : Text) : IsLead (text.dropWhile (· != slash)).reverse := by
  cases rest : text.dropWhile (· != slash) with
  | nil => exact .inl rfl
  | cons b more =>
    have stopped := List.head_dropWhile_not (· != slash) (l := text) (by simp [rest])
    simp only [rest, List.head_cons, bne_eq_false_iff_eq] at stopped
    subst stopped
    exact .inr ⟨more.reverse, List.reverse_cons⟩

theorem exists_base_append {path : Text} (given : path ≠ []) (undivided : slash ∉ base path) :
    ∃ front back, IsLead front ∧ (∀ b ∈ back, b = slash) ∧ path = front ++ base path ++ back := by
  have based : base path = lastElement (dropTrailingSlashes path) := by
    unfold base at undivided ⊢
    simp only [if_neg (show ¬path.isEmpty = true by simpa using given)] at undivided ⊢
    split at undivided
    · exact absurd (by decide) undivided
    next shown => rw [if_neg shown]
  refine ⟨_, (path.reverse.takeWhile (· == slash)).reverse,
    isLead_dropWhile (dropTrailingSlashes path).reverse, ?_, ?_⟩
  · intro b member
    simpa using List.mem_takeWhile_imp (List.mem_reverse.mp member)
  · rw [based, lastElement, dropWhile_append_takeWhile_reverse, dropTrailingSlashes,
      dropWhile_append_takeWhile_reverse]

theorem splitOn_slashes {back : Text} (slashes : ∀ b ∈ back, b = slash) :
    ∀ piece ∈ back.splitOn slash, piece = [] := by
  intro piece member
  rw [List.eq_nil_iff_forall_not_mem]
  intro b inside
  have same := slashes b (Text.mem_of_mem_splitOn member inside)
  exact Text.notMem_of_mem_splitOn member (same ▸ inside)

theorem foldl_push_nil (rooted : Bool) {parts : List Text} (nothing : ∀ part ∈ parts, part = [])
    (stack : List Text) : parts.foldl (push rooted) stack = stack := by
  induction parts with
  | nil => rfl
  | cons part parts ih =>
    rw [List.forall_mem_cons] at nothing
    rw [List.foldl_cons, nothing.1, push.eq_def, if_pos (.inl rfl), ih nothing.2]

theorem IsLead.exists_splitOn_append {front : Text} (lead : IsLead front) (text : Text) :
    ∃ pieces, (front ++ text).splitOn slash = pieces ++ text.splitOn slash := by
  rcases lead with rfl | ⟨rest, rfl⟩
  · exact ⟨[], rfl⟩
  · refine ⟨rest.splitOn slash, ?_⟩
    rw [List.append_assoc, List.singleton_append, Text.splitOn_append_cons]

theorem exists_splitOn_name_append {name back : Text} (undivided : slash ∉ name)
    (slashes : ∀ b ∈ back, b = slash) :
    ∃ pieces, (name ++ back).splitOn slash = name :: pieces ∧ ∀ piece ∈ pieces, piece = [] := by
  cases back with
  | nil => exact ⟨[], by rw [List.append_nil, Text.splitOn_eq_singleton undivided], by simp⟩
  | cons b back =>
    rw [List.forall_mem_cons] at slashes
    refine ⟨Text.splitOn slash back, ?_, splitOn_slashes slashes.2⟩
    rw [slashes.1, Text.splitOn_append_cons, Text.splitOn_eq_singleton undivided,
      List.singleton_append]

/-- A name at the end of a path is the last of its elements. -/
theorem getLast?_elements {path : Text} (proper : Proper (base path))
    (undivided : slash ∉ base path) : (elements path).getLast? = some (base path) := by
  have given : path ≠ [] := by
    rintro rfl
    exact proper.2.1 rfl
  obtain ⟨front, back, lead, slashes, split⟩ := exists_base_append given undivided
  obtain ⟨pieces, before⟩ := lead.exists_splitOn_append (base path ++ back)
  obtain ⟨rest, behind, nothing⟩ := exists_splitOn_name_append undivided slashes
  have divided : path.splitOn slash = pieces ++ base path :: rest := by
    rw [← behind, ← before, ← List.append_assoc, ← split]
  rw [elements, List.getLast?_reverse, divided, List.foldl_append, List.foldl_cons,
    foldl_push_nil _ nothing, push_of_ne_up _ _ proper.2.2, if_pos proper, List.head?_cons]

end Protoclass.Path
