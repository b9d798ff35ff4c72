import Protoclass.Descriptor.Number
import Protoclass.Proofs.Text.Lines
import Protoclass.Proofs.Types.Index

/-!
# The declarations of a set of files

A listing of all declarations, each with the place where it stands and the names
that lead to it: the package, the messages around it and its own.  A place is the
number of a file and a path in it, so that no two declarations share one, however
alike they are.

The index of the files is exactly the index of this listing: a reference finds the
last declaration that is listed under its name, and there are as many entries as
different names.
-/

namespace Protoclass

/-- Where a declaration stands: the number of its file, and the path that leads to
it there, field numbers and indices in turn. -/
structure Place where
  file : Nat
  path : List Int := []
  deriving DecidableEq

/-- The child `index` that `field` lists in the node at a place. -/
def Place.child (place : Place) (field : Int) (index : Nat) : Place :=
  { place with path := place.path ++ [field, (index : Int)] }

/-- A declaration with its place and the names that lead to it, its own the
last. -/
@[ext]
structure Listed where
  place : Place
  names : List Text
  declaration : Declaration

namespace Listed

/-- The fully-qualified name: all names, with dots between them. -/
def fullName (entry : Listed) : Text := Text.join "." entry.names

/-- The children that `field` lists in the node at a place. -/
def children (place : Place) (field : Int) (around : List Text) (listed : List Declaration) :
    List Listed :=
  listed.zipIdx.map fun (declaration, i) =>
    ⟨place.child field i, around ++ [declaration.name], declaration⟩

mutual

/-- What a message declares: the messages inside it, its enums, and itself. -/
def ofMessage (place : Place) (around : List Text) : MessageDescriptor → List Listed
  | ⟨name, fields, nested, enums, mapEntry⟩ =>
    ofMessages place FieldNumber.messageNested (around ++ [name]) 0 nested
      ++ children place FieldNumber.messageEnum (around ++ [name]) (enums.map .enum)
      ++ [⟨place, around ++ [name], .message ⟨name, fields, nested, enums, mapEntry⟩⟩]

/-- What the messages declare that `field` lists in the node at a place, from the
one of index `i` on. -/
def ofMessages (place : Place) (field : Int) (around : List Text) (i : Nat) :
    List MessageDescriptor → List Listed
  | [] => []
  | m :: rest =>
    ofMessage (place.child field i) around m ++ ofMessages place field around (i + 1) rest

end

/-- The name that is around all declarations of a package, if the package has
one. -/
def packageNames (package : Text) : List Text :=
  if package.isEmpty then [] else [package]

/-- What a file declares: its messages, its enums and its services. -/
def ofFile (number : Nat) (file : FileDescriptor) : List Listed :=
  let place : Place := { file := number }
  let around := packageNames file.package
  ofMessages place FieldNumber.fileMessage around 0 file.messages
    ++ children place FieldNumber.fileEnum around (file.enums.map .enum)
    ++ children place FieldNumber.fileService around (file.services.map .service)

/-- What the files declare, file by file. -/
def ofFiles (files : List FileDescriptor) : List Listed :=
  files.zipIdx.flatMap fun (file, number) => ofFile number file

theorem mem_children_iff {place : Place} {field : Int} {around : List Text}
    {listed : List Declaration} {entry : Listed} :
    entry ∈ children place field around listed ↔
      ∃ j declaration, listed[j]? = some declaration ∧
        entry = ⟨place.child field j, around ++ [declaration.name], declaration⟩ := by
  rw [children, List.mem_map]
  constructor
  · rintro ⟨⟨declaration, j⟩, numbered, rfl⟩
    exact ⟨j, declaration, List.mem_zipIdx_iff_getElem?.mp numbered, rfl⟩
  · rintro ⟨j, declaration, found, rfl⟩
    exact ⟨⟨declaration, j⟩, List.mem_zipIdx_iff_getElem?.mpr found, rfl⟩

/-! ## Names -/

/-- An entry as the index takes it. -/
def named (entry : Listed) : Text × Declaration := (entry.fullName, entry.declaration)

/-- The names around a declaration, each followed by a dot. -/
def scopeOf (around : List Text) : Text := around.flatMap fun name => name ++ "."

theorem scopeOf_concat (around : List Text) (name : Text) :
    scopeOf (around ++ [name]) = scopeOf around ++ name ++ "." := by
  simp [scopeOf]

/-- Names are joined by a dot behind each but the last. -/
theorem join_concat_eq (around : List Text) (name : Text) :
    Text.join "." (around ++ [name]) = scopeOf around ++ name := by
  induction around with
  | nil => rfl
  | cons first rest ih =>
    obtain ⟨next, more, split⟩ : ∃ next more, rest ++ [name] = next :: more :=
      List.exists_cons_of_ne_nil (by simp)
    rw [List.cons_append, split, Text.join_cons_cons, ← split, ih]
    simp [scopeOf]

/-- The name of a declaration inside another goes on behind a dot. -/
theorem join_concat_concat (around : List Text) (outer name : Text) :
    Text.join "." (around ++ [outer] ++ [name]) =
      Text.join "." (around ++ [outer]) ++ "." ++ name := by
  rw [join_concat_eq, scopeOf_concat, ← join_concat_eq]

theorem map_named_children (place : Place) (field : Int) (around : List Text)
    (listed : List Declaration) :
    (children place field around listed).map named =
      listed.map fun declaration => (scopeOf around ++ declaration.name, declaration) := by
  have unnumbered := congrArg
    (List.map fun declaration : Declaration => (scopeOf around ++ declaration.name, declaration))
    (List.zipIdx_map_fst 0 listed)
  rw [children, List.map_map, ← unnumbered, List.map_map]
  apply List.map_congr_left
  intro entry _
  simp [named, fullName, join_concat_eq]

mutual

theorem map_named_ofMessage : (m : MessageDescriptor) → (place : Place) → (around : List Text) →
    (ofMessage place around m).map named = messageDeclarations (scopeOf around) m
  | ⟨name, fields, nested, enums, mapEntry⟩, place, around => by
    rw [ofMessage, messageDeclarations, List.map_append, List.map_append,
      map_named_ofMessages nested, map_named_children, scopeOf_concat, List.map_map]
    simp [named, fullName, join_concat_eq, Function.comp_def, Declaration.name]

theorem map_named_ofMessages : (messages : List MessageDescriptor) → (place : Place) →
    (field : Int) → (around : List Text) → (i : Nat) →
    (ofMessages place field around i messages).map named =
      messagesDeclarations (scopeOf around) messages
  | [], _, _, _, _ => by rw [ofMessages, messagesDeclarations, List.map_nil]
  | m :: rest, place, field, around, i => by
    rw [ofMessages, messagesDeclarations, List.map_append, map_named_ofMessage m,
      map_named_ofMessages rest]

end

theorem map_named_ofFile (number : Nat) (file : FileDescriptor) :
    (ofFile number file).map named = file.declarations := by
  have scope : scopeOf (packageNames file.package) =
      if file.package.isEmpty then [] else (file.package ++ "." : Text) := by
    rw [packageNames]
    split <;> simp [scopeOf]
  rw [ofFile, FileDescriptor.declarations]
  simp only [List.map_append, map_named_ofMessages, map_named_children, scope, List.map_map]
  rfl

/-- The listing has the names and the order of the declarations that the index is
made of. -/
theorem map_named_ofFiles (files : List FileDescriptor) :
    (ofFiles files).map named = declarations files := by
  have unnumbered := congrArg (List.flatMap FileDescriptor.declarations)
    (List.zipIdx_map_fst 0 files)
  rw [List.flatMap_map] at unnumbered
  rw [ofFiles, List.map_flatMap, declarations, ← unnumbered]
  simp only [map_named_ofFile]

/-! ## Places -/

/-- What stands at a path below a message, with the names that lead to it. -/
def inMessage? (names : List Text) (m : MessageDescriptor) :
    List Int → Option (List Text × Declaration)
  | [] => some (names, .message m)
  | [_] => none
  | field :: index :: rest =>
    if field = FieldNumber.messageNested then
      m.nested[index.toNat]?.bind fun inner => inMessage? (names ++ [inner.name]) inner rest
    else m.enums[index.toNat]?.map fun e => (names ++ [e.name], .enum e)

mutual

theorem exists_path_of_mem_ofMessage : (m : MessageDescriptor) → (place : Place) →
    (around : List Text) → (entry : Listed) → entry ∈ ofMessage place around m →
    entry.place.file = place.file ∧ ∃ below, entry.place.path = place.path ++ below ∧
      inMessage? (around ++ [m.name]) m below = some (entry.names, entry.declaration)
  | ⟨name, fields, nested, enums, mapEntry⟩, place, around, entry, member => by
    rw [ofMessage, List.mem_append, List.mem_append, List.mem_singleton] at member
    rcases member with (inNested | inEnums) | rfl
    · obtain ⟨sameFile, j, inner, below, found, path, stands⟩ :=
        exists_path_of_mem_ofMessages nested place _ _ 0 entry inNested
      refine ⟨sameFile, _, path, ?_⟩
      simpa [inMessage?, found] using stands
    · obtain ⟨j, declaration, found, rfl⟩ := mem_children_iff.mp inEnums
      obtain ⟨e, declared, rfl⟩ : ∃ e, enums[j]? = some e ∧ .enum e = declaration := by
        simpa using found
      refine ⟨rfl, _, rfl, ?_⟩
      simp [inMessage?, declared, FieldNumber.messageEnum, FieldNumber.messageNested,
        Declaration.name]
    · exact ⟨rfl, [], by simp, rfl⟩

theorem exists_path_of_mem_ofMessages : (messages : List MessageDescriptor) → (place : Place) →
    (field : Int) → (around : List Text) → (i : Nat) → (entry : Listed) →
    entry ∈ ofMessages place field around i messages →
    entry.place.file = place.file ∧ ∃ j m below, messages[j]? = some m ∧
      entry.place.path = place.path ++ field :: ((i + j : Nat) : Int) :: below ∧
      inMessage? (around ++ [m.name]) m below = some (entry.names, entry.declaration)
  | [], _, _, _, _, _, member => by simp [ofMessages] at member
  | m :: rest, place, field, around, i, entry, member => by
    rw [ofMessages, List.mem_append] at member
    rcases member with inFirst | inRest
    · obtain ⟨sameFile, below, path, stands⟩ :=
        exists_path_of_mem_ofMessage m (place.child field i) around entry inFirst
      exact ⟨sameFile, 0, m, below, rfl, by simpa [Place.child] using path, stands⟩
    · obtain ⟨sameFile, j, inner, below, found, path, stands⟩ :=
        exists_path_of_mem_ofMessages rest place field around (i + 1) entry inRest
      refine ⟨sameFile, j + 1, inner, below, found, ?_, stands⟩
      rw [path, Nat.add_right_comm, Nat.add_assoc]

end

/-- What stands at a path in a file, with the names that lead to it. -/
def inFile? (file : FileDescriptor) : List Int → Option (List Text × Declaration)
  | field :: index :: below =>
    let around := packageNames file.package
    if field = FieldNumber.fileMessage then
      file.messages[index.toNat]?.bind fun m => inMessage? (around ++ [m.name]) m below
    else if field = FieldNumber.fileEnum then
      file.enums[index.toNat]?.map fun e => (around ++ [e.name], .enum e)
    else file.services[index.toNat]?.map fun s => (around ++ [s.name], .service s)
  | _ => none

theorem inFile?_of_mem {number : Nat} {file : FileDescriptor} {entry : Listed}
    (member : entry ∈ ofFile number file) :
    entry.place.file = number ∧
      inFile? file entry.place.path = some (entry.names, entry.declaration) := by
  rw [ofFile, List.mem_append, List.mem_append] at member
  rcases member with (inMessages | inEnums) | inServices
  · obtain ⟨sameFile, j, m, below, found, path, stands⟩ :=
      exists_path_of_mem_ofMessages file.messages _ _ _ 0 entry inMessages
    refine ⟨sameFile, ?_⟩
    rw [path]
    simpa [inFile?, found] using stands
  · obtain ⟨j, declaration, found, rfl⟩ := mem_children_iff.mp inEnums
    obtain ⟨e, declared, rfl⟩ : ∃ e, file.enums[j]? = some e ∧ .enum e = declaration := by
      simpa using found
    simp [Place.child, inFile?, declared, FieldNumber.fileMessage, FieldNumber.fileEnum,
      Declaration.name]
  · obtain ⟨j, declaration, found, rfl⟩ := mem_children_iff.mp inServices
    obtain ⟨s, declared, rfl⟩ : ∃ s, file.services[j]? = some s ∧ .service s = declaration := by
      simpa using found
    simp [Place.child, inFile?, declared, FieldNumber.fileMessage, FieldNumber.fileEnum,
      FieldNumber.fileService, Declaration.name]

/-- No two declarations stand at the same place. -/
theorem eq_of_place_eq {files : List FileDescriptor} {entry other : Listed}
    (member : entry ∈ ofFiles files) (member' : other ∈ ofFiles files)
    (same : entry.place = other.place) : entry = other := by
  obtain ⟨⟨file, number⟩, numbered, inFile⟩ := List.mem_flatMap.mp member
  obtain ⟨⟨file', number'⟩, numbered', inFile'⟩ := List.mem_flatMap.mp member'
  rw [List.mem_zipIdx_iff_getElem?] at numbered numbered'
  obtain ⟨ofNumber, stands⟩ := inFile?_of_mem inFile
  obtain ⟨ofNumber', stands'⟩ := inFile?_of_mem inFile'
  obtain rfl : number = number' := by rw [← ofNumber, ← ofNumber', same]
  obtain rfl : file = file' := Option.some.inj (numbered.symm.trans numbered')
  rw [same, stands', Option.some.injEq, Prod.mk.injEq] at stands
  exact Listed.ext same stands.1.symm stands.2.symm

/-! ## Members of the listing -/

theorem self_mem_ofMessage (place : Place) (around : List Text) (m : MessageDescriptor) :
    (⟨place, around ++ [m.name], .message m⟩ : Listed) ∈ ofMessage place around m := by
  cases m
  simp [ofMessage]

theorem ofMessage_subset_ofMessages (place : Place) (field : Int) (around : List Text) (i : Nat)
    {messages : List MessageDescriptor} {j : Nat} {m : MessageDescriptor}
    (declared : messages[j]? = some m) :
    ofMessage (place.child field (i + j)) around m ⊆ ofMessages place field around i messages := by
  induction messages generalizing i j with
  | nil => contradiction
  | cons first rest ih =>
    rw [ofMessages]
    cases j with
    | zero =>
      cases declared
      exact List.subset_append_left _ _
    | succ j =>
      have later := ih (i + 1) declared
      rw [Nat.add_right_comm, Nat.add_assoc] at later
      exact List.Subset.trans later (List.subset_append_right _ _)

/-- What a message inside another declares, the other declares. -/
theorem ofMessage_subset_of_nested (place : Place) (around : List Text)
    {m inner : MessageDescriptor} {i : Nat} (declared : m.nested[i]? = some inner) :
    ofMessage (place.child FieldNumber.messageNested i) (around ++ [m.name]) inner ⊆
      ofMessage place around m := by
  have inside := ofMessage_subset_ofMessages place FieldNumber.messageNested
    (around ++ [m.name]) 0 declared
  rw [Nat.zero_add] at inside
  cases m
  rw [ofMessage, List.append_assoc]
  exact List.Subset.trans inside (List.subset_append_left _ _)

theorem ofMessage_subset_ofFile (number : Nat) {file : FileDescriptor} {m : MessageDescriptor}
    {i : Nat} (declared : file.messages[i]? = some m) :
    ofMessage (Place.child { file := number } FieldNumber.fileMessage i)
      (packageNames file.package) m ⊆ ofFile number file := by
  have inside := ofMessage_subset_ofMessages { file := number } FieldNumber.fileMessage
    (packageNames file.package) 0 declared
  rw [Nat.zero_add] at inside
  rw [ofFile, List.append_assoc]
  exact List.Subset.trans inside (List.subset_append_left _ _)

theorem ofFile_subset_ofFiles {files : List FileDescriptor} {number : Nat} {file : FileDescriptor}
    (among : files[number]? = some file) : ofFile number file ⊆ ofFiles files := by
  intro entry member
  exact List.mem_flatMap.mpr ⟨(file, number), List.mem_zipIdx_iff_getElem?.mpr among, member⟩

/-! ## References -/

/-- The declaration that is listed last under the name that a reference means; a
leading dot is ignored. -/
def find? (files : List FileDescriptor) (reference : Text) : Option Listed :=
  (ofFiles files).reverse.find? fun entry => entry.fullName = Text.dropLead reference "."

variable {files : List FileDescriptor} {reference : Text} {entry : Listed}

theorem find?_eq_some_iff :
    find? files reference = some entry ↔ entry.fullName = Text.dropLead reference "." ∧
      ∃ before after, ofFiles files = before ++ entry :: after ∧
        ∀ later ∈ after, later.fullName ≠ Text.dropLead reference "." := by
  rw [find?, List.find?_eq_some_iff_append]
  constructor
  · rintro ⟨named, front, back, listed, others⟩
    refine ⟨of_decide_eq_true named, back.reverse, front.reverse, ?_, ?_⟩
    · simpa using congrArg List.reverse listed
    · simpa using others
  · rintro ⟨named, before, after, listed, others⟩
    refine ⟨decide_eq_true named, after.reverse, before.reverse, ?_, ?_⟩
    · simp [listed]
    · simpa using others

theorem isSome_find?_iff :
    (find? files reference).isSome = true ↔
      ∃ entry ∈ ofFiles files, entry.fullName = Text.dropLead reference "." := by
  simp [find?]

/-- Where names are declared once, a declaration is found by its name. -/
theorem find?_eq_some_of_mem (distinct : ((ofFiles files).map fullName).Nodup)
    (member : entry ∈ ofFiles files) (named : entry.fullName = Text.dropLead reference ".") :
    find? files reference = some entry := by
  obtain ⟨other, found⟩ := Option.isSome_iff_exists.mp (isSome_find?_iff.mpr ⟨entry, member, named⟩)
  obtain ⟨named', before, after, listed, -⟩ := find?_eq_some_iff.mp found
  have member' : other ∈ ofFiles files := by simp [listed]
  rw [found, List.inj_on_of_nodup_map distinct member' member (named'.trans named.symm)]

theorem mem_of_find?_eq_some (found : find? files reference = some entry) :
    entry ∈ ofFiles files ∧ entry.fullName = Text.dropLead reference "." := by
  obtain ⟨named, before, after, listed, -⟩ := find?_eq_some_iff.mp found
  exact ⟨by simp [listed], named⟩

/-- The index finds what is found in the listing. -/
theorem lookup_ofFiles (files : List FileDescriptor) (reference : Text) :
    (TypeIndex.ofFiles files).lookup reference = (find? files reference).map declaration := by
  rw [TypeIndex.lookup, TypeIndex.ofFiles, TypeIndex.get?_ofDeclarations, ← map_named_ofFiles,
    ← List.map_reverse, find?]
  induction (ofFiles files).reverse with
  | nil => rfl
  | cons entry rest ih =>
    rw [List.map_cons, named, List.lookup_cons, ih]
    by_cases same : entry.fullName = Text.dropLead reference "."
    · rw [same, beq_self_eq_true, List.find?_cons_of_pos (by simpa using same)]
      rfl
    · rw [beq_false_of_ne (Ne.symm same), List.find?_cons_of_neg (by simpa using same)]

end Listed

namespace TypeIndex

theorem size_ofFiles (files : List FileDescriptor) :
    (ofFiles files).size = ((Listed.ofFiles files).map Listed.fullName).dedup.length := by
  rw [ofFiles, size_ofDeclarations, ← Listed.map_named_ofFiles, List.map_map]
  rfl

/-- The index of some files is the exact index of what they declare.  A reference
finds something exactly when the name that it means is listed, and it finds the
declaration listed last under it.  There are as many entries as names.  Where no
name is listed twice, each declaration is found by its name behind a dot, and
without the dot if the name does not start with one itself. -/
theorem ofFiles_exact (files : List FileDescriptor) :
    (∀ reference, ((ofFiles files).lookup reference).isSome = true ↔
      ∃ entry ∈ Listed.ofFiles files, entry.fullName = Text.dropLead reference ".") ∧
    (∀ reference declaration, (ofFiles files).lookup reference = some declaration ↔
      ∃ before entry after, Listed.ofFiles files = before ++ entry :: after ∧
        entry.fullName = Text.dropLead reference "." ∧ entry.declaration = declaration ∧
        ∀ later ∈ after, later.fullName ≠ Text.dropLead reference ".") ∧
    (ofFiles files).size = ((Listed.ofFiles files).map Listed.fullName).dedup.length ∧
    (((Listed.ofFiles files).map Listed.fullName).Nodup →
      (ofFiles files).size = (Listed.ofFiles files).length ∧
      ∀ entry ∈ Listed.ofFiles files,
        (ofFiles files).lookup ("." ++ entry.fullName) = some entry.declaration ∧
        (Text.startsWith entry.fullName "." = false →
          (ofFiles files).lookup entry.fullName = some entry.declaration)) := by
  refine ⟨?_, ?_, size_ofFiles files, ?_⟩
  · intro reference
    rw [Listed.lookup_ofFiles, Option.isSome_map]
    exact Listed.isSome_find?_iff
  · intro reference declaration
    rw [Listed.lookup_ofFiles, Option.map_eq_some_iff]
    constructor
    · rintro ⟨entry, found, rfl⟩
      obtain ⟨named, before, after, listed, others⟩ := Listed.find?_eq_some_iff.mp found
      exact ⟨before, entry, after, listed, named, rfl, others⟩
    · rintro ⟨before, entry, after, listed, named, rfl, others⟩
      exact ⟨entry, Listed.find?_eq_some_iff.mpr ⟨named, before, after, listed, others⟩, rfl⟩
  · intro distinct
    have found {reference : Text} {entry : Listed} (member : entry ∈ Listed.ofFiles files)
        (named : entry.fullName = Text.dropLead reference ".") :
        (ofFiles files).lookup reference = some entry.declaration := by
      rw [Listed.lookup_ofFiles, Listed.find?_eq_some_of_mem distinct member named]
      rfl
    refine ⟨?_, fun entry member => ⟨found member ?_, fun plain => found member ?_⟩⟩
    · rw [size_ofFiles, distinct.dedup, List.length_map]
    · rw [Text.dropLead_append]
    · rw [Text.dropLead_eq_self plain]

/-- Two messages that are alike, each inside another message. -/
theorem ofFiles_exact_for_nested :
    let inner : MessageDescriptor := { name := "N" }
    let files : List FileDescriptor := [{
      name := "a.proto", package := "p"
      messages := [{ name := "A", nested := [inner] }, { name := "B", nested := [inner] }] }]
    ((Listed.ofFiles files).map Listed.fullName).Nodup ∧ (ofFiles files).size = 4 ∧
      (ofFiles files).lookup "p.B.N" = some (.message inner) := by
  intro inner files
  have distinct : ((Listed.ofFiles files).map Listed.fullName).Nodup := by decide
  have member : (⟨⟨0, [4, 1, 3, 0]⟩, ["p", "B", "N"], .message inner⟩ : Listed) ∈
      Listed.ofFiles files := .tail _ (.tail _ (.head _))
  obtain ⟨size, found⟩ := (ofFiles_exact files).2.2.2 distinct
  exact ⟨distinct, size, (found _ member).2 (by decide)⟩

/-- The name of a message inside a message without a name starts with a dot, which
a look-up takes for that of a reference. -/
theorem nested_in_unnamed_not_found :
    let files : List FileDescriptor := [{
      name := "a.proto", messages := [{ nested := [{ name := "N" }] }] }]
    ((Listed.ofFiles files).map Listed.fullName).Nodup ∧
      ∃ entry ∈ Listed.ofFiles files, entry.fullName = Text.ofString ".N" ∧
        (ofFiles files).lookup entry.fullName = none := by
  intro files
  refine ⟨by decide, _, List.mem_cons_self, by decide, rfl⟩

end TypeIndex

end Protoclass
