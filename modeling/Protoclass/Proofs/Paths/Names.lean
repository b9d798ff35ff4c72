import Protoclass.Path
import Protoclass.Proofs.Text.Lines

/-!
# The names that a path leads through

A path without `..` leads down through the names among its elements: empty
elements and `.` stay where they are.  `Leads path through` says that a path does
so, and through which names.  Cleaning keeps the names, joining puts them one
behind the other, and what leads down from an absolute directory through one name
at least stays below it.
-/

namespace Protoclass.Path

open Text (slash)

/-! ## Names -/

/-- The element is the name of a file or a directory, and not a way to stay or to go
up. -/
def Proper (element : Text) : Prop :=
  element ≠ [] ∧ element ≠ "." ∧ element ≠ ".."

instance (element : Text) : Decidable (Proper element) :=
  inferInstanceAs (Decidable (_ ∧ _))

/-- The names among the elements of a path, in order. -/
def names (path : Text) : List Text :=
  (path.splitOn slash).filter fun element => Proper element

/-- The path leads down through the names `through`: none of its elements leads
up. -/
structure Leads (path : Text) (through : List Text) : Prop where
  down : Text.ofString ".." ∉ path.splitOn slash
  names_eq : names path = through

theorem proper_of_mem_names {path name : Text} (member : name ∈ names path) : Proper name := by
  simpa using (List.mem_filter.mp member).2

theorem slash_notMem_of_mem_names {path name : Text} (member : name ∈ names path) :
    slash ∉ name :=
  Text.notMem_of_mem_splitOn (List.mem_filter.mp member).1

theorem Leads.append_slash {front back : Text} {first second : List Text}
    (leads : Leads front first) (leads' : Leads back second) :
    Leads (front ++ slash :: back) (first ++ second) := by
  obtain ⟨down, rfl⟩ := leads
  obtain ⟨down', rfl⟩ := leads'
  constructor
  · rw [Text.splitOn_append_cons, List.mem_append, not_or]
    exact ⟨down, down'⟩
  · rw [names, Text.splitOn_append_cons, List.filter_append]
    rfl

/-! ## Cleaning -/

theorem push_of_ne_up (rooted : Bool) (stack : List Text) {element : Text}
    (down : element ≠ "..") :
    push rooted stack element = if Proper element then element :: stack else stack := by
  rw [push.eq_def, if_neg down]
  by_cases stays : element = [] ∨ element = "."
  · rw [if_pos stays, if_neg]
    rintro ⟨given, other, -⟩
    exact stays.elim given other
  · rw [if_neg stays]
    rw [not_or] at stays
    rw [if_pos ⟨stays.1, stays.2, down⟩]

theorem foldl_push (rooted : Bool) {parts : List Text} (down : Text.ofString ".." ∉ parts)
    (stack : List Text) :
    parts.foldl (push rooted) stack =
      (parts.filter fun element => Proper element).reverse ++ stack := by
  induction parts generalizing stack with
  | nil => rfl
  | cons element parts ih =>
    rw [List.mem_cons, not_or] at down
    rw [List.foldl_cons, push_of_ne_up rooted stack (Ne.symm down.1), ih down.2]
    by_cases proper : Proper element <;> simp [proper]

theorem Leads.elements_eq {path : Text} {through : List Text} (leads : Leads path through) :
    elements path = through := by
  rw [elements, foldl_push _ leads.down, List.append_nil, List.reverse_reverse]
  exact leads.names_eq

/-- What is written behind a slash leads on from the elements before it. -/
theorem Leads.elements_append_slash {front back : Text} {through : List Text}
    (leads : Leads back through) (given : front ≠ []) :
    elements (front ++ slash :: back) = elements front ++ through := by
  have rooted : isAbsolute (front ++ slash :: back) = isAbsolute front := by
    obtain ⟨b, rest, rfl⟩ := List.exists_cons_of_ne_nil given
    rfl
  rw [elements, rooted, Text.splitOn_append_cons, List.foldl_append, foldl_push _ leads.down,
    List.reverse_append, List.reverse_reverse, ← leads.names_eq]
  rfl

theorem mem_push {rooted : Bool} {stack : List Text} {element other : Text}
    (member : other ∈ push rooted stack element) :
    other ∈ stack ∨ other = ".." ∨ (other = element ∧ element ≠ []) := by
  unfold push at member
  split at member
  case isTrue => exact .inl member
  case isFalse moves =>
    rw [not_or] at moves
    split at member
    case isTrue up =>
      split at member
      case h_1 =>
        split at member
        · contradiction
        · exact .inr (.inl (List.mem_singleton.mp member))
      case h_2 top rest =>
        split at member
        · exact (List.mem_cons.mp member).elim (fun same => .inr (.inl same)) .inl
        · exact .inl (List.mem_cons_of_mem top member)
    case isFalse =>
      rcases List.mem_cons.mp member with same | member
      · exact .inr (.inr ⟨same, moves.1⟩)
      · exact .inl member

theorem mem_foldl_push {rooted : Bool} {parts stack : List Text} {other : Text}
    (member : other ∈ parts.foldl (push rooted) stack) :
    other ∈ stack ∨ other = ".." ∨ (other ∈ parts ∧ other ≠ []) := by
  induction parts generalizing stack with
  | nil => exact .inl member
  | cons element parts ih =>
    rcases ih member with pushed | up | ⟨later, given⟩
    · rcases mem_push pushed with before | up | ⟨rfl, given⟩
      · exact .inl before
      · exact .inr (.inl up)
      · exact .inr (.inr ⟨List.mem_cons_self, given⟩)
    · exact .inr (.inl up)
    · exact .inr (.inr ⟨List.mem_cons_of_mem element later, given⟩)

/-- Elements are not empty, and no slash divides them further. -/
theorem ne_nil_of_mem_elements {path element : Text} (member : element ∈ elements path) :
    element ≠ [] ∧ slash ∉ element := by
  rw [elements, List.mem_reverse] at member
  rcases mem_foldl_push member with nowhere | rfl | ⟨piece, given⟩
  · contradiction
  · decide
  · exact ⟨given, Text.notMem_of_mem_splitOn piece⟩

theorem splitOn_ofElements (rooted : Bool) {parts : List Text} (nonempty : parts ≠ [])
    (undivided : ∀ part ∈ parts, slash ∉ part) :
    Text.splitOn slash (ofElements rooted parts) = if rooted then [] :: parts else parts := by
  have divided : Text.splitOn slash (Text.join "/" parts) = parts :=
    Text.splitOn_join nonempty undivided
  cases rooted with
  | true =>
    rw [ofElements, if_pos rfl, if_pos rfl]
    exact (Text.splitOn_cons_self slash _).trans (congrArg ([] :: ·) divided)
  | false =>
    rw [ofElements, if_neg Bool.false_ne_true, if_neg (by simpa using nonempty)]
    exact divided

/-- The path with some names as its elements leads through these names. -/
theorem leads_ofElements (rooted : Bool) {parts : List Text}
    (sound : ∀ part ∈ parts, Proper part ∧ slash ∉ part) :
    Leads (ofElements rooted parts) parts := by
  by_cases empty : parts = []
  · subst empty
    cases rooted <;> exact ⟨by decide, by decide⟩
  · have kept : parts.filter (fun element => Proper element) = parts :=
      List.filter_eq_self.mpr fun part member => decide_eq_true (sound part member).1
    have down : Text.ofString ".." ∉ parts := fun member => (sound _ member).1.2.2 rfl
    have divided := splitOn_ofElements rooted empty fun part member => (sound part member).2
    cases rooted with
    | true =>
      constructor
      · rw [divided, if_pos rfl, List.mem_cons, not_or]
        exact ⟨by decide, down⟩
      · rw [names, divided, if_pos rfl, List.filter_cons_of_neg (by decide), kept]
    | false =>
      constructor
      · rw [divided]
        exact down
      · rw [names, divided]
        exact kept

theorem Leads.clean {path : Text} {through : List Text} (leads : Leads path through) :
    Leads (clean path) through := by
  rw [Path.clean, leads.elements_eq]
  apply leads_ofElements
  intro name member
  rw [← leads.names_eq] at member
  exact ⟨proper_of_mem_names member, slash_notMem_of_mem_names member⟩

/-- A path that is written as its names does not start at the root. -/
theorem isAbsolute_join {first : Text} (given : first ≠ []) (undivided : slash ∉ first)
    (rest : List Text) : isAbsolute (Text.join "/" (first :: rest)) = false := by
  obtain ⟨b, more, rfl⟩ := List.exists_cons_of_ne_nil given
  rw [List.mem_cons, not_or] at undivided
  cases rest <;> simpa [isAbsolute, Text.join] using Ne.symm undivided.1

/-- A path that leads down from where it stands is cleaned to its names. -/
theorem Leads.clean_eq {path : Text} {through : List Text} (leads : Leads path through)
    (relative : isAbsolute path = false) (nonempty : through ≠ []) :
    Path.clean path = Text.join "/" through := by
  rw [Path.clean, relative, leads.elements_eq, ofElements, if_neg Bool.false_ne_true,
    if_neg (by simpa using nonempty)]

theorem Leads.join {path path' : Text} {first second : List Text} (leads : Leads path first)
    (leads' : Leads path' second) : Leads (join path path') (first ++ second) := by
  rw [Path.join]
  split
  case isTrue empty =>
    obtain rfl := List.isEmpty_iff.mp empty
    obtain rfl : [] = first := leads.names_eq
    split
    case isTrue empty' =>
      obtain rfl := List.isEmpty_iff.mp empty'
      exact leads'
    case isFalse => exact leads'.clean
  case isFalse =>
    have leads := (leads.append_slash leads').clean
    rwa [List.append_assoc, Text.ofString_slash, List.singleton_append]

/-! ## Below a directory -/

/-- The path is a cleaned directory with one name or more written behind it. -/
def Below (directory path : Text) : Prop :=
  ∃ rest, path = (if directory = "/" then directory else directory ++ "/") ++ rest ∧
    ∀ element ∈ rest.splitOn slash, Proper element

theorem Leads.join_eq {path : Text} {through : List Text} (leads : Leads path through) {out : Text}
    (absolute : isAbsolute out = true) :
    Path.join out path = slash :: Text.join "/" (elements out ++ through) := by
  have given : out ≠ [] := by
    rintro rfl
    contradiction
  have rooted : isAbsolute (out ++ slash :: path) = true := by
    obtain ⟨b, rest, rfl⟩ := List.exists_cons_of_ne_nil given
    exact absolute
  rw [Path.join, if_neg (by simpa using given), List.append_assoc, Text.ofString_slash,
    List.singleton_append, Path.clean, rooted, leads.elements_append_slash given]
  rfl

/-- Below one directory, paths that lead down end at the same place only through the
same names. -/
theorem Leads.eq_of_join_eq {path path' : Text} {through through' : List Text}
    (leads : Leads path through) (leads' : Leads path' through') (nonempty : through ≠ [])
    (nonempty' : through' ≠ []) {out : Text} (absolute : isAbsolute out = true)
    (same : Path.join out path = Path.join out path') : through = through' := by
  have divided : ∀ {path through}, Leads path through → through ≠ [] →
      Text.splitOn slash (Text.join "/" (elements out ++ through)) = elements out ++ through := by
    rintro path _ ⟨-, rfl⟩ nonempty
    apply Text.splitOn_join (List.append_ne_nil_of_right_ne_nil _ nonempty)
    rw [List.forall_mem_append]
    exact ⟨fun _ member => (ne_nil_of_mem_elements member).2, fun _ => slash_notMem_of_mem_names⟩
  rw [leads.join_eq absolute, leads'.join_eq absolute] at same
  have split := congrArg (Text.splitOn slash) (List.cons.inj same).2
  rw [divided leads nonempty, divided leads' nonempty'] at split
  exact List.append_cancel_left split

theorem clean_eq_of_isAbsolute {out : Text} (absolute : isAbsolute out = true) :
    Path.clean out = slash :: Text.join "/" (elements out) := by
  rw [Path.clean, absolute]
  rfl

/-- What leads down from an absolute directory, through one name at least, stays
below it. -/
theorem Leads.below_join {path : Text} {through : List Text} (leads : Leads path through)
    (nonempty : through ≠ []) {out : Text} (absolute : isAbsolute out = true) :
    Below (Path.clean out) (Path.join out path) := by
  refine ⟨Text.join "/" through, ?_, ?_⟩
  · rw [leads.join_eq absolute, clean_eq_of_isAbsolute absolute]
    by_cases top : elements out = []
    · rw [top]
      rfl
    · have inner : Text.join "/" (elements out) ≠ [] := by
        obtain ⟨first, rest, split⟩ := List.exists_cons_of_ne_nil top
        have given : first ≠ [] := (ne_nil_of_mem_elements (split ▸ List.mem_cons_self)).1
        rw [split]
        exact Text.join_cons_ne_nil _ given rest
      rw [if_neg (by simpa using inner), Text.join_append _ top nonempty]
      simp
  · obtain ⟨-, rfl⟩ := leads
    have divided : Text.splitOn slash (Text.join "/" (names path)) = names path :=
      Text.splitOn_join nonempty fun _ => slash_notMem_of_mem_names
    rw [divided]
    exact fun _ => proper_of_mem_names

end Protoclass.Path
