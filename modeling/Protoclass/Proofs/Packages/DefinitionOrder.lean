import Protoclass.Proofs.Layout.Places
import Protoclass.Proofs.Packages.FlatModule

/-!
# Order of definitions in a flat module

The default of an enum field names a value of the enum and is evaluated while the
class of its message is defined, so the enum has to be defined by then.  In a flat
module that depends on the order of the files: the class of an enum stands before
that of a message exactly when the file of the enum is that of the message or comes
before it.
-/

namespace Protoclass

/-! ## Defaults that name an enum -/

/-- The default of a field is a value of the enum `e`, which `file` declares. -/
structure FieldDescriptor.DefaultsTo (field : FieldDescriptor) (file : FileDescriptor)
    (e : EnumDescriptor) : Prop where
  hasDefault : field.HasEnumDefault
  declared : e ∈ file.enums
  named : Text.dropLead field.typeName "." = qualify file.package e.name

/-- Such a default is written as a value behind the reference to the enum. -/
theorem FieldDescriptor.exists_defaultValue {field : FieldDescriptor} {types : TypeIndex}
    {m : MessageDescriptor} {fullName : Text} (sound : field.Sound types m fullName)
    (hasDefault : field.HasEnumDefault) (package : Text) :
    ∃ value, TypeHint.defaultValue package field (FieldShape.of field m fullName) types =
      .ok (TypeHint.typeName package field.typeName ++ "." ++ value) := by
  rw [Sound, mapEntries_eq_nil hasDefault] at sound
  obtain ⟨e, first, rest, found, values⟩ := sound.2 hasDefault
  refine ⟨first.name, ?_⟩
  rw [TypeHint.defaultValue_eq_enumDefault package field m fullName types hasDefault]
  simp only [TypeHint.enumDefault, found, values]

namespace Package

open ClassCode (decorator enumStatement messageStatement)

/-! ## Places in a flat module -/

/-- What a flat module has before the code of its `i`th file. -/
def flatFront (options : Options) (package : Text) (files : List FileDescriptor)
    (codes : List Text) (i : Nat) : Text :=
  header ++ standardImports ++ (flatImports options package files).render
    ++ (codes.take i).flatten

/-- The class statement of an enum of the `i`th file is written behind `place`. -/
def EnumPlace (options : Options) (types : TypeIndex) (package : Text)
    (files : List FileDescriptor) (i : Nat) (e : EnumDescriptor) (place : Text) : Prop :=
  ∃ codes file before, bodies types files = .ok codes ∧ files[i]? = some file ∧
    file.EnumPlace e before ∧ place = flatFront options package files codes i ++ before

/-- The class statement of a message of the `i`th file is written behind `place`. -/
def MessagePlace (options : Options) (types : TypeIndex) (package : Text)
    (files : List FileDescriptor) (i : Nat) (fullName : Text) (m : MessageDescriptor)
    (place : Text) : Prop :=
  ∃ codes file cursor scope before, bodies types files = .ok codes ∧ files[i]? = some file ∧
    file.MessagePlace types cursor scope fullName m before ∧
    place = flatFront options package files codes i ++ (before ++ decorator cursor.depth)

section

variable {options : Options} {types : TypeIndex} {package : Text} {files : List FileDescriptor}
  {codes : List Text}

theorem length_flatFront_add_le {i j : Nat} {code : Text} (found : codes[i]? = some code)
    (earlier : i < j) :
    (flatFront options package files codes i).length + code.length ≤
      (flatFront options package files codes j).length := by
  obtain ⟨later, split⟩ : codes.take (i + 1) <+: codes.take j := List.take_prefix_take_left earlier
  have taken : (codes.take j).flatten = (codes.take i).flatten ++ code ++ later.flatten := by
    rw [← split, List.take_add_one, found]
    simp
  simp only [flatFront, taken, List.length_append]
  omega

theorem flatFront_append_isPrefix {i : Nat} {code : Text} (found : codes[i]? = some code) :
    flatFront options package files codes i ++ code <+:
      header ++ standardImports ++ (flatImports options package files).render ++ codes.flatten := by
  rw [flatFront, List.append_assoc, List.prefix_append_right_inj]
  exact Text.flatten_take_append_isPrefix found

/-- The code of a file of a package, by its index. -/
theorem exists_code {file : FileDescriptor} {i : Nat} (emitted : bodies types files = .ok codes)
    (found : files[i]? = some file) :
    ∃ code, codes[i]? = some code ∧ (file.emit types).result = .ok code :=
  Result.exists_getElem?_of_mapM_eq_ok
    (f := fun file : FileDescriptor => (file.emit types).result) emitted found

/-- What stands in the code of a file stands in the flat module behind the code of the
files before it, if it does not end in a line end. -/
theorem stands_in_flatFile {i : Nat} {code before statement : Text} {last : UInt8}
    (coded : codes[i]? = some code) (inCode : before ++ statement <+: code)
    (ends : statement.getLast? = some last) (unended : last ≠ Text.newline) :
    flatFront options package files codes i ++ before ++ statement <+:
      (flatFile options package files codes).content := by
  have content_eq : (flatFile options package files codes).content = trimNewlines (header
      ++ standardImports ++ (flatImports options package files).render ++ codes.flatten) := by
    rw [flatFile_eq]
  have inModule : flatFront options package files codes i ++ before ++ statement <+:
      flatFront options package files codes i ++ code := by
    rw [List.append_assoc, List.prefix_append_right_inj]
    exact inCode
  rw [content_eq]
  apply prefix_trimNewlines
  · exact inModule.trans (flatFront_append_isPrefix coded)
  · rw [List.getLast?_append, ends, Option.some_or]
    exact fun same => unended (Option.some.inj same)

theorem EnumPlace.stands {i : Nat} {e : EnumDescriptor} {place : Text}
    (written : EnumPlace options types package files i e place)
    (emitted : bodies types files = .ok codes) :
    place ++ enumStatement e <+: (flatFile options package files codes).content := by
  obtain ⟨codes', file, before, emitted', found, own, rfl⟩ := written
  cases emitted.symm.trans emitted'
  obtain ⟨code, coded, ofFile⟩ := exists_code emitted found
  exact stands_in_flatFile coded (own.stands ofFile) (ClassCode.getLast?_enumStatement e) (by decide)

theorem MessagePlace.stands {i : Nat} {fullName : Text} {m : MessageDescriptor} {place : Text}
    (written : MessagePlace options types package files i fullName m place)
    (emitted : bodies types files = .ok codes) :
    place ++ messageStatement m <+: (flatFile options package files codes).content := by
  obtain ⟨codes', file, cursor, scope, before, emitted', found, own, rfl⟩ := written
  cases emitted.symm.trans emitted'
  obtain ⟨code, coded, ofFile⟩ := exists_code emitted found
  exact stands_in_flatFile coded (own.stands ofFile) (ClassCode.getLast?_messageStatement m)
    (by decide)

theorem exists_enumPlace {i : Nat} {file : FileDescriptor} {e : EnumDescriptor}
    (emitted : bodies types files = .ok codes) (found : files[i]? = some file)
    (declared : e ∈ file.enums) : ∃ place, EnumPlace options types package files i e place := by
  obtain ⟨code, -, ofFile⟩ := exists_code emitted found
  obtain ⟨before, own⟩ := FileDescriptor.exists_enumPlace declared ofFile
  exact ⟨_, codes, file, before, emitted, found, own, rfl⟩

theorem exists_messagePlace {i : Nat} {file : FileDescriptor} {around : List Text}
    {fullName : Text} {m : MessageDescriptor} (emitted : bodies types files = .ok codes)
    (found : files[i]? = some file) (visited : file.Visits around fullName m) :
    ∃ place, MessagePlace options types package files i fullName m place := by
  obtain ⟨code, -, ofFile⟩ := exists_code emitted found
  obtain ⟨cursor, scope, before, own⟩ := visited.exists_place ofFile
  exact ⟨_, codes, file, cursor, scope, before, emitted, found, own, rfl⟩

/-- An enum is defined before a message exactly when its file does not come after that
of the message. -/
theorem enumPlace_lt_messagePlace_iff {i j : Nat} {e : EnumDescriptor} {fullName : Text}
    {m : MessageDescriptor} {enumPlace messagePlace : Text}
    (ofEnum : EnumPlace options types package files j e enumPlace)
    (ofMessage : MessagePlace options types package files i fullName m messagePlace) :
    enumPlace.length < messagePlace.length ↔ j ≤ i := by
  obtain ⟨codes, declaring, before, emitted, found, enumOwn, rfl⟩ := ofEnum
  obtain ⟨codes', user, cursor, scope, before', emitted', found', messageOwn, rfl⟩ := ofMessage
  cases emitted.symm.trans emitted'
  obtain ⟨code, coded, ofDeclaring⟩ := exists_code emitted found
  obtain ⟨code', coded', ofUser⟩ := exists_code emitted found'
  have enumInside := enumOwn.length_lt ofDeclaring
  have messageInside := messageOwn.length_lt ofUser
  simp only [List.length_append] at messageInside ⊢
  rcases Nat.lt_trichotomy j i with earlier | same | later
  · have front : (flatFront options package files codes j).length + code.length ≤ _ :=
      length_flatFront_add_le coded earlier
    omega
  · subst same
    cases found.symm.trans found'
    have inOrder := enumOwn.lt_messagePlace messageOwn
    omega
  · have front : (flatFront options package files codes i).length + code'.length ≤ _ :=
      length_flatFront_add_le coded' later
    omega

end

/-- In a flat module, let a field of a message of the `i`th file have a default of an
enum that the `j`th file declares.  Both class statements stand at their places, and the
enum is defined before the message exactly when its file is not a later one. -/
theorem enum_defined_before_use_iff (options : Options) (types : TypeIndex) {package : Text}
    {files : List FileDescriptor} {outputs : List OutputFile} (nonempty : files ≠ [])
    (selected : Selects options.packages package)
    (generated : ((generator { options with flatPack := true } types).generatePackage package
      files).result = .ok outputs) :
    ∃ content, outputs = [{ path := flatPath package, content }] ∧
      ∀ {i j : Nat} {user declaring : FileDescriptor} {around : List Text} {fullName : Text}
        {m : MessageDescriptor} {field : FieldDescriptor} {e : EnumDescriptor},
        files[i]? = some user → files[j]? = some declaring → user.Visits around fullName m →
        field ∈ m.fields → field.DefaultsTo declaring e →
        (∃ value, TypeHint.defaultValue user.package field (FieldShape.of field m fullName) types =
          .ok (TypeHint.typeName user.package field.typeName ++ "." ++ value)) ∧
        (∃ place, EnumPlace options.withDefaults types package files j e place) ∧
        (∃ place, MessagePlace options.withDefaults types package files i fullName m place) ∧
        ∀ {enumPlace messagePlace : Text},
          EnumPlace options.withDefaults types package files j e enumPlace →
          MessagePlace options.withDefaults types package files i fullName m messagePlace →
          enumPlace ++ enumStatement e <+: content ∧
            messagePlace ++ messageStatement m <+: content ∧
            (enumPlace.length < messagePlace.length ↔ j ≤ i) := by
  rw [result_generatePackage_flat nonempty selected] at generated
  obtain ⟨codes, emitted, rfl⟩ := Result.map_eq_ok_iff.mp generated
  refine ⟨(flatFile options.withDefaults package files codes).content, by rw [flatFile_eq], ?_⟩
  intro i j user declaring around fullName m field e found found' visited member defaults
  refine ⟨?_, exists_enumPlace emitted found' defaults.declared,
    exists_messagePlace emitted found visited, ?_⟩
  · obtain ⟨code, -, ofUser⟩ := exists_code emitted found
    exact FieldDescriptor.exists_defaultValue ((visited.sound ofUser).fields field member)
      defaults.hasDefault user.package
  · intro enumPlace messagePlace ofEnum ofMessage
    exact ⟨ofEnum.stands emitted, ofMessage.stands emitted,
      enumPlace_lt_messagePlace_iff ofEnum ofMessage⟩

/-- An enum of an earlier file is defined when its value is used. -/
theorem enum_of_earlier_file_defined_before_use :
    let e : EnumDescriptor := { name := "E", values := [{ name := "A" }] }
    let field : FieldDescriptor := { name := "e", typeCode := 14, typeName := ".p.E" }
    let m : MessageDescriptor := { name := "M", fields := [field] }
    let declaring : FileDescriptor := { name := "a.proto", package := "p", enums := [e] }
    let user : FileDescriptor := { name := "b.proto", package := "p", messages := [m] }
    let files := [declaring, user]
    let types := TypeIndex.ofFiles files
    let content : Text := header ++ standardImports ++ "class E(_enum.Enum):\n\n    A = 0,\n\n\n\n\n"
      ++ "\n@_dc.dataclass\nclass M:\n\n    e: E = E.A\n"
    files ≠ [] ∧ Selects [] "p" ∧ field.DefaultsTo declaring e ∧
      ((generator { flatPack := true } types).generatePackage "p" files).result =
        .ok [{ path := "p.py", content }] ∧
      ∃ enumPlace messagePlace, enumPlace ++ Text.ofString "class E(_enum.Enum):" <+: content ∧
        messagePlace ++ Text.ofString "class M:" <+: content ∧
        enumPlace.length < messagePlace.length := by
  intro e field m declaring user files types content
  have nonempty : files ≠ [] := List.cons_ne_nil _ _
  have selected : Selects [] "p" := .inl rfl
  have defaults : field.DefaultsTo declaring e := ⟨by decide, List.mem_cons_self, by decide⟩
  have generated : ((generator { flatPack := true } types).generatePackage "p" files).result =
      .ok [{ path := "p.py", content }] := by decide +kernel
  refine ⟨nonempty, selected, defaults, generated, ?_⟩
  obtain ⟨whole, outputs, ordered⟩ :=
    enum_defined_before_use_iff {} types nonempty selected generated
  obtain rfl : content = whole := by
    have same := congrArg (List.map OutputFile.content) outputs
    exact List.head_eq_of_cons_eq same
  have visited : user.Visits [] (qualify user.package m.name) m := .top List.mem_cons_self
  obtain ⟨-, ⟨enumPlace, ofEnum⟩, ⟨messagePlace, ofMessage⟩, places⟩ :=
    ordered (i := 1) (j := 0) rfl rfl visited List.mem_cons_self defaults
  obtain ⟨enumStands, messageStands, before_iff⟩ := places ofEnum ofMessage
  exact ⟨enumPlace, messagePlace, enumStands, messageStands, before_iff.mpr (Nat.zero_le 1)⟩

/-- An enum of a later file is not: its value is used while the class of the message is
defined, and the class of the enum stands behind it. -/
theorem enum_of_later_file_defined_after_use :
    let e : EnumDescriptor := { name := "E", values := [{ name := "A" }] }
    let field : FieldDescriptor := { name := "e", typeCode := 14, typeName := ".p.E" }
    let m : MessageDescriptor := { name := "M", fields := [field] }
    let user : FileDescriptor := { name := "a.proto", package := "p", messages := [m] }
    let declaring : FileDescriptor := { name := "b.proto", package := "p", enums := [e] }
    let files := [user, declaring]
    let types := TypeIndex.ofFiles files
    field.DefaultsTo declaring e ∧ user.Visits [] "p.M" m ∧
      ((generator { flatPack := true } types).generatePackage "p" files).result =
        .ok [{
          path := "p.py"
          content := header ++ standardImports
            ++ "\n@_dc.dataclass\nclass M:\n\n    e: E = E.A\n\n\n\n"
            ++ "class E(_enum.Enum):\n\n    A = 0,\n" }] ∧
      ∃ enumPlace messagePlace,
        EnumPlace Options.standard types "p" files 1 e enumPlace ∧
        MessagePlace Options.standard types "p" files 0 "p.M" m messagePlace ∧
        ¬ enumPlace.length < messagePlace.length := by
  intro e field m user declaring files types
  have visited : user.Visits [] (qualify user.package m.name) m := .top List.mem_cons_self
  refine ⟨⟨by decide, List.mem_cons_self, by decide⟩, visited, by decide +kernel, ?_⟩
  have succeeds : Result.error? (bodies types files) = none := by decide +kernel
  obtain ⟨codes, emitted⟩ := Result.error?_eq_none_iff.mp succeeds
  obtain ⟨enumPlace, ofEnum⟩ : ∃ place, EnumPlace Options.standard types "p" files 1 e place :=
    exists_enumPlace emitted rfl List.mem_cons_self
  obtain ⟨messagePlace, ofMessage⟩ :
      ∃ place, MessagePlace Options.standard types "p" files 0 "p.M" m place :=
    exists_messagePlace emitted rfl visited
  refine ⟨enumPlace, messagePlace, ofEnum, ofMessage, ?_⟩
  rw [enumPlace_lt_messagePlace_iff ofEnum ofMessage]
  exact Nat.not_succ_le_zero 0

end Package

end Protoclass
