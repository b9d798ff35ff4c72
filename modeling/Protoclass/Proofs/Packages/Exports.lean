import Protoclass.Proofs.Layout.Places
import Protoclass.Proofs.Packages.FlatModule
import Protoclass.Proofs.Packages.Paths

/-!
# What a manifest exports

The manifest of a package names the enums and messages that its files declare at the
top, file by file, and nothing else.  Manifest and modules are written apart; that they
agree is seen at the class statements.  The statement of every exported class is a line
of its own, without indentation, in the module that the manifest names: at its place in
the code of the file, behind the header and the imports of the module.
-/

namespace Protoclass

open Text (newline)

/-! ## Lines within a text -/

namespace Text

/-- Behind `front`, `text` has `line` as a whole line. -/
structure LineBehind (front line text : Text) : Prop where
  start : StartsLine front
  oneLine : newline ∉ line
  stands : front ++ (line ++ [newline]) <+: text

theorem LineBehind.mem_splitOn {front line text : Text} (behind : LineBehind front line text) :
    line ∈ text.splitOn newline := by
  obtain ⟨rest, rfl⟩ := behind.stands
  have lineAlone : splitOn newline (line ++ newline :: rest) = line :: splitOn newline rest := by
    rw [splitOn_append_cons, splitOn_eq_singleton behind.oneLine, List.singleton_append]
  rw [List.append_assoc, List.append_assoc, List.singleton_append]
  rcases behind.start with rfl | ended
  · rw [List.nil_append, lineAlone]
    exact List.mem_cons_self
  · obtain ⟨before, rfl⟩ := List.getLast?_eq_some_iff.mp ended
    rw [List.append_assoc, List.singleton_append, splitOn_append_cons, lineAlone]
    exact List.mem_append_right _ List.mem_cons_self

end Text

open Text (StartsLine LineBehind)

/-! ## Messages at the top of a file -/

/-- Emission writes the class of a message that a file declares at the top behind `before`
and the decorator. -/
def FileDescriptor.TopPlace (types : TypeIndex) (file : FileDescriptor) (m : MessageDescriptor)
    (before : Text) : Prop :=
  ∃ r : Nat, file.MessagePlace types
    ((Cursor.under file.locations FieldNumber.fileMessage 0).step r) []
    (qualify file.package m.name) m before

theorem FileDescriptor.exists_topPlace {types : TypeIndex} {file : FileDescriptor} {text : Text}
    {m : MessageDescriptor} (declared : m ∈ file.messages)
    (emitted : (file.emit types).result = .ok text) :
    ∃ before, file.TopPlace types m before ∧ StartsLine before := by
  obtain ⟨r, found⟩ := List.mem_iff_getElem?.mp declared
  obtain ⟨enums, messages, -, ofEnums, ofMessages, -⟩ := exists_eq_of_emit emitted
  have ended : StartsLine (Text.join "\n" enums ++ "\n") := .inr List.getLast?_concat
  exact ⟨_, ⟨r, .top found ofEnums ofMessages⟩, ended.append (Text.startsLine_ofLines _)⟩

/-! ## Names of one line -/

/-- The names that a file declares at the top, of enums and then of messages. -/
def FileDescriptor.exported (file : FileDescriptor) : List Text :=
  file.enums.map (·.name) ++ file.messages.map (·.name)

/-- The name of a file and those it exports have no line end. -/
structure FileDescriptor.OneLineNames (file : FileDescriptor) : Prop where
  own : newline ∉ file.name
  exported : ∀ name ∈ file.exported, newline ∉ name

theorem ClassCode.newline_notMem_enumStatement {e : EnumDescriptor} (oneLine : newline ∉ e.name) :
    newline ∉ enumStatement e := by
  rw [enumStatement, List.mem_append, List.mem_append, not_or, not_or]
  exact ⟨⟨by decide, oneLine⟩, by decide⟩

theorem ClassCode.newline_notMem_messageStatement {m : MessageDescriptor}
    (oneLine : newline ∉ m.name) : newline ∉ messageStatement m := by
  rw [messageStatement, List.mem_append, List.mem_append, not_or, not_or]
  exact ⟨⟨by decide, oneLine⟩, by decide⟩

theorem Path.mem_of_mem_lastElement {path : Text} {b : UInt8} (member : b ∈ lastElement path) :
    b ∈ path := by
  rw [lastElement, List.mem_reverse] at member
  exact List.mem_reverse.mp ((List.takeWhile_prefix _).subset member)

theorem Path.mem_of_mem_dropTrailingSlashes {path : Text} {b : UInt8}
    (member : b ∈ dropTrailingSlashes path) : b ∈ path := by
  rw [dropTrailingSlashes, List.mem_reverse] at member
  exact List.mem_reverse.mp ((List.dropWhile_suffix _).subset member)

namespace Package

open ClassCode (decorator enumStatement messageStatement)

theorem newline_notMem_moduleName {file : Text} (oneLine : newline ∉ file) :
    newline ∉ moduleName file := by
  have inBase : newline ∉ Path.base file := by
    unfold Path.base
    dsimp only
    split
    case isTrue => decide
    case isFalse =>
      split
      case isTrue => decide
      case isFalse =>
        intro member
        exact oneLine (Path.mem_of_mem_dropTrailingSlashes (Path.mem_of_mem_lastElement member))
  intro member
  exact inBase ((Text.dropTail_isPrefix _ _).subset member)

/-! ## The lines of a manifest -/

/-- The first line of a manifest. -/
def headline : Text := "# Code generated by TRAC"

/-- The lines that re-export what a file declares at the top. -/
def reexports (file : FileDescriptor) : List Text :=
  file.exported.map fun name => "from ." ++ moduleName file.name ++ " import " ++ name

/-- The lines of a manifest for one file: its re-exports behind an empty line, or none. -/
def exportLines (file : FileDescriptor) : List Text :=
  if file.exported = [] then [] else [] :: reexports file

theorem exports_eq (file : FileDescriptor) : exports file = Text.ofLines (exportLines file) := by
  have names : file.enums.map (·.name) ++ file.messages.map (·.name) = file.exported := rfl
  have lines : (file.exported.map (exportLine (moduleName file.name))).flatten =
      Text.ofLines (reexports file) := by
    rw [Text.ofLines, reexports, List.flatMap_map, List.flatMap_def]
    rfl
  rw [exports, names, lines, exportLines]
  by_cases none : file.exported = []
  · simp [none]
  · simp [none, Text.ofLines_cons]

theorem manifestText_eq (files : List FileDescriptor) :
    manifestText files = Text.ofLines (headline :: files.flatMap exportLines) := by
  have first : Text.dropTail header "\n" = headline ++ [newline] := by decide
  have others : Text.ofLines (files.flatMap exportLines) =
      (files.map fun file => Text.ofLines (exportLines file)).flatten := by
    rw [Text.ofLines, List.flatMap_assoc, List.flatMap_def]
    rfl
  have rendered : (Fragment.render ∘ fun file : FileDescriptor =>
      Fragment.leaf file.name (exports file)) = fun file => Text.ofLines (exportLines file) := by
    funext file
    rw [Function.comp_apply, Fragment.render_leaf, exports_eq]
  rw [manifestText, Fragment.render_join, Text.join_nil, List.map_cons, Fragment.render_leaf,
    List.map_map, rendered, List.flatten_cons, ← others, first, Text.ofLines_cons,
    List.append_assoc, List.singleton_append]

theorem newline_notMem_reexports {file : FileDescriptor} (oneLine : file.OneLineNames) :
    ∀ line ∈ reexports file, newline ∉ line := by
  intro line member
  obtain ⟨name, exported, rfl⟩ := List.mem_map.mp member
  have inModule := newline_notMem_moduleName oneLine.own
  simp only [List.mem_append, not_or]
  exact ⟨⟨⟨by decide, inModule⟩, by decide⟩, oneLine.exported name exported⟩

/-- The lines of a manifest are read back from its text. -/
theorem splitOn_manifestText {files : List FileDescriptor}
    (oneLine : ∀ file ∈ files, file.OneLineNames) :
    (manifestText files).splitOn newline = headline :: files.flatMap exportLines ++ [[]] := by
  rw [manifestText_eq]
  apply Text.splitOn_ofLines
  rw [List.forall_mem_cons]
  refine ⟨by decide, ?_⟩
  intro line member
  obtain ⟨file, among, member⟩ := List.mem_flatMap.mp member
  rw [exportLines] at member
  split at member
  · contradiction
  · rcases List.mem_cons.mp member with rfl | member
    · exact List.not_mem_nil
    · exact newline_notMem_reexports (oneLine file among) line member

/-- Of the lines for a file, the re-exports are those that import from a sibling. -/
theorem filter_exportLines (file : FileDescriptor) :
    (exportLines file).filter (Text.startsWith · "from .") = reexports file := by
  have own : (reexports file).filter (Text.startsWith · "from .") = reexports file := by
    rw [List.filter_eq_self]
    intro line member
    obtain ⟨name, -, rfl⟩ := List.mem_map.mp member
    rw [Text.startsWith_iff]
    simp only [List.append_assoc]
    exact List.prefix_append _ _
  rw [exportLines]
  split
  case isTrue none => simp [reexports, none]
  case isFalse => exact (List.filter_cons_of_neg (by decide)).trans own

/-! ## Class statements in the module of a file -/

/-- What the module of a file has before the code of the file. -/
def fileFront (options : Options) (package : Text) (file : FileDescriptor) : Text :=
  header ++ standardImports ++ (fileImports options package file).render

theorem startsLine_fileFront (options : Options) (package : Text) (file : FileDescriptor) :
    StartsLine (fileFront options package file) := by
  have fixed : StartsLine (header ++ standardImports) := .inr (by decide)
  refine fixed.append ?_
  rw [ImportBlock.render]
  split
  · exact .inl rfl
  · right
    have ended : (Text.ofString "\n\n").getLast? = some newline := rfl
    rw [List.getLast?_append, ended, Option.some_or]

section

variable {options : Options} {types : TypeIndex} {package : Text} {file : FileDescriptor}
  {code : Text}

theorem content_fileModule : (fileModule options package file code).content =
    trimNewlines (fileFront options package file ++ code) := by
  simp only [fileModule_eq, fileFront]

/-- A line of the code of a file is one of its module. -/
theorem lineBehind_fileModule {before line : Text} {last : UInt8} (start : StartsLine before)
    (oneLine : newline ∉ line) (ends : line.getLast? = some last)
    (inCode : before ++ (line ++ [newline]) <+: code) :
    LineBehind (fileFront options package file ++ before) line
      (fileModule options package file code).content := by
  refine ⟨(startsLine_fileFront options package file).append start, oneLine, ?_⟩
  have unended : (fileFront options package file ++ before ++ line).getLast? ≠ some newline := by
    rw [List.getLast?_append, ends, Option.some_or]
    rintro ⟨⟩
    exact oneLine (List.mem_of_getLast? ends)
  have starts : fileFront options package file ++ before ++ line ++ [newline] <+:
      fileFront options package file ++ code := by
    simp only [List.append_assoc, List.prefix_append_right_inj]
    exact inCode
  rw [content_fileModule, ← List.append_assoc]
  exact line_prefix_trimNewlines starts unended

theorem exists_lineBehind_enumStatement (emitted : (file.emit types).result = .ok code)
    (oneLine : file.OneLineNames) {e : EnumDescriptor} (declared : e ∈ file.enums) :
    ∃ before, file.EnumPlace e before ∧
      LineBehind (fileFront options package file ++ before) (enumStatement e)
        (fileModule options package file code).content := by
  obtain ⟨before, place⟩ := FileDescriptor.exists_enumPlace declared emitted
  have start : StartsLine before := by
    obtain ⟨k, enums, -, -, rfl⟩ := place
    exact Text.startsLine_ofLines _
  have named : newline ∉ e.name :=
    oneLine.exported e.name (List.mem_append_left _ (List.mem_map_of_mem declared))
  exact ⟨before, place, lineBehind_fileModule start
    (ClassCode.newline_notMem_enumStatement named) (ClassCode.getLast?_enumStatement e)
    (place.line_stands emitted)⟩

theorem exists_lineBehind_messageStatement (emitted : (file.emit types).result = .ok code)
    (oneLine : file.OneLineNames) {m : MessageDescriptor} (declared : m ∈ file.messages) :
    ∃ before, file.TopPlace types m before ∧
      LineBehind (fileFront options package file ++ (before ++ decorator 0)) (messageStatement m)
        (fileModule options package file code).content := by
  obtain ⟨before, place, start⟩ := FileDescriptor.exists_topPlace declared emitted
  have decorated : StartsLine (decorator 0) := .inr (by decide)
  have named : newline ∉ m.name :=
    oneLine.exported m.name (List.mem_append_right _ (List.mem_map_of_mem declared))
  obtain ⟨r, visited⟩ := place
  exact ⟨before, ⟨r, visited⟩, lineBehind_fileModule (start.append decorated)
    (ClassCode.newline_notMem_messageStatement named) (ClassCode.getLast?_messageStatement m)
    (visited.line_stands emitted)⟩

end

/-- The manifest of a package that is written file by file re-exports what the files
declare at the top, enums before messages, and has no other re-exports.  The module that
a file is re-exported from is written, and the class statement of each of its enums and
messages is a line of it, without indentation, at its place behind the imports. -/
theorem manifest_exports_top_classes (options : Options) (types : TypeIndex) {package : Text}
    {files : List FileDescriptor} {written : List OutputFile}
    (perFile : options.flatPack = false ∨ files = [])
    (selected : Selects options.packages package)
    (oneLine : ∀ file ∈ files, file.OneLineNames)
    (generated : ((generator options types).generatePackage package files).result = .ok written) :
    ∃ modules content,
      written = modules ++ [{ path := Path.join (directory package) manifestName, content }] ∧
      content.splitOn newline = headline :: files.flatMap exportLines ++ [[]] ∧
      (content.splitOn newline).filter (Text.startsWith · "from .") = files.flatMap reexports ∧
      ∀ file ∈ files, let front := fileFront options.withDefaults package file
        ∃ code output, (file.emit types).result = .ok code ∧ output ∈ modules ∧
        output.path = Path.join (directory package) (moduleName file.name ++ extension) ∧
        output.content = trimNewlines (front ++ code) ∧
        (∀ e ∈ file.enums, ∃ before, file.EnumPlace e before ∧
          LineBehind (front ++ before) (enumStatement e) output.content ∧
          enumStatement e ∈ output.content.splitOn newline) ∧
        ∀ m ∈ file.messages, ∃ before, file.TopPlace types m before ∧
          LineBehind (front ++ (before ++ decorator 0)) (messageStatement m) output.content ∧
          messageStatement m ∈ output.content.splitOn newline := by
  rw [result_generatePackage_perFile perFile selected] at generated
  obtain ⟨codes, emitted, rfl⟩ := Result.map_eq_ok_iff.mp generated
  refine ⟨_, manifestText files, rfl, splitOn_manifestText oneLine, ?_, ?_⟩
  · rw [splitOn_manifestText oneLine, List.filter_append, List.filter_cons_of_neg (by decide),
      List.filter_flatMap]
    simp only [filter_exportLines]
    exact List.append_nil _
  · intro file member front
    obtain ⟨code, ofFile, among⟩ := exists_fileModule_mem emitted member
    refine ⟨code, _, ofFile, among, rfl, content_fileModule, ?_, ?_⟩
    · intro e declared
      obtain ⟨before, place, line⟩ :=
        exists_lineBehind_enumStatement ofFile (oneLine file member) declared
      exact ⟨before, place, line, line.mem_splitOn⟩
    · intro m declared
      obtain ⟨before, place, line⟩ :=
        exists_lineBehind_messageStatement ofFile (oneLine file member) declared
      exact ⟨before, place, line, line.mem_splitOn⟩

/-- Of three files, the first declares a type within a message and a service, the second
services only, and the third has a dot in its name. -/
theorem manifest_exports_of_three_files :
    let e : EnumDescriptor := { name := "E", values := [{ name := "A" }] }
    let m : MessageDescriptor := { name := "M", nested := [{ name := "N" }] }
    let files : List FileDescriptor :=
      [{ name := "trac/m/a.proto", package := "trac.m", enums := [e], messages := [m]
         services := [{ name := "S" }] },
       { name := "trac/m/s.proto", package := "trac.m", services := [{ name := "T" }] },
       { name := "trac/m/b.c.proto", package := "trac.m", messages := [{ name := "C" }] }]
    Selects [] "trac.m" ∧ (∀ file ∈ files, file.OneLineNames) ∧
      ∃ modules content,
        ((generator {} {}).generatePackage "trac.m" files).result =
          .ok (modules ++ [{ path := "trac/m/__init__.py", content }]) ∧
        (content.splitOn newline).filter (Text.startsWith · "from .") =
          [Text.ofString "from .a import E", Text.ofString "from .a import M",
            Text.ofString "from .b.c import C"] ∧
        ∃ output ∈ modules, output.path = Text.ofString "trac/m/a.py" ∧
          Text.ofString "class E(_enum.Enum):" ∈ output.content.splitOn newline ∧
          Text.ofString "class M:" ∈ output.content.splitOn newline := by
  intro e m files
  have selected : Selects [] "trac.m" := .inl rfl
  have oneLine : ∀ file ∈ files, file.OneLineNames := by
    simp only [files, List.forall_mem_cons, List.not_mem_nil, false_implies, implies_true]
    exact ⟨⟨by decide, by decide⟩, ⟨by decide, by decide⟩, ⟨by decide, by decide⟩, trivial⟩
  have succeeds :
      Result.error? ((generator {} {}).generatePackage "trac.m" files).result = none := by
    decide +kernel
  obtain ⟨written, generated⟩ := Result.error?_eq_none_iff.mp succeeds
  obtain ⟨modules, content, rfl, -, exported, classes⟩ :=
    manifest_exports_top_classes {} {} (.inl rfl) selected oneLine generated
  have listed : files.flatMap reexports = [Text.ofString "from .a import E",
      Text.ofString "from .a import M", Text.ofString "from .b.c import C"] := by decide
  obtain ⟨-, output, -, among, path, -, enums, messages⟩ := classes _ List.mem_cons_self
  obtain ⟨-, -, -, enumLine⟩ := enums e List.mem_cons_self
  obtain ⟨-, -, -, messageLine⟩ := messages m List.mem_cons_self
  exact ⟨selected, oneLine, modules, content, generated, exported.trans listed, output, among,
    path.trans (by decide), enumLine, messageLine⟩

end Package

end Protoclass
