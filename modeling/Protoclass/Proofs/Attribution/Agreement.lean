import Protoclass.Proofs.Attribution.Narrowing
import Protoclass.Proofs.Attribution.Relevance

/-!
# Comments stand where they belong

The emitter that narrows its table on the way down gives what the emitter by
absolute paths gives.  The two descend in step: the narrowed table always serves
the path of the node.  An entry at a path of no emitted node is never asked for.
-/

namespace Protoclass

/-! ## Indices -/

/-- There are as many children as an index of 32 bits can tell apart. -/
def Indexable {α : Type} (children : List α) : Prop := children.length < indexLimit

theorem Indexable.lt {α : Type} {children : List α} (indexable : Indexable children)
    {entry : α × Nat} (member : entry ∈ children.zipIdx) : entry.2 < indexLimit :=
  Nat.lt_trans (by simpa using List.snd_lt_of_mem_zipIdx member) indexable

mutual

/-- Every list of children in a message is indexable. -/
def MessageDescriptor.Indexable : MessageDescriptor → Prop
  | ⟨_, fields, nested, enums, _⟩ =>
    Protoclass.Indexable fields ∧ Protoclass.Indexable nested ∧ Protoclass.Indexable enums ∧
      (∀ e ∈ enums, Protoclass.Indexable e.values) ∧ MessageDescriptor.AllIndexable nested

/-- Every list of children in several messages is indexable. -/
def MessageDescriptor.AllIndexable : List MessageDescriptor → Prop
  | [] => True
  | m :: rest => m.Indexable ∧ MessageDescriptor.AllIndexable rest

end

/-- Every list of children in a file is indexable. -/
structure FileDescriptor.Indexable (file : FileDescriptor) : Prop where
  messages : Protoclass.Indexable file.messages
  enums : Protoclass.Indexable file.enums
  services : Protoclass.Indexable file.services
  fields : ∀ m ∈ file.messages, m.Indexable
  values : ∀ e ∈ file.enums, Protoclass.Indexable e.values
  methods : ∀ s ∈ file.services, Protoclass.Indexable s.methods

namespace PathEmitter

open LocationTable

/-! ## Descending in step -/

section Descent

variable {code : ClassCode} {comments : Comments} {path : List Int}

theorem documented_eq {α : Type} {table : LocationTable} (serves : table.Serves comments path)
    (field depth : Int) {children : List α} (indexable : Indexable children) :
    (Cursor.under table field depth).documented children =
      documentedAt comments path field children := by
  apply List.map_congr_left
  rintro ⟨child, i⟩ member
  have served := serves.child field depth (indexable.lt member)
  exact congrArg (Prod.mk child) served.comment

theorem result_emitEnum {cursor : Cursor} (serves : cursor.scope.Serves comments path)
    (scope fullName : Text) {e : EnumDescriptor} (indexable : Indexable e.values) :
    (ClassCode.emitEnum cursor scope fullName e).result =
      enumAt comments path cursor.depth scope e := by
  rw [ClassCode.emitEnum, enumAt]
  split
  · simp only [Logged.result_bind, Logged.result_debug, Logged.result_pure, Result.ok_bind]
    rw [documented_eq serves _ _ indexable, Cursor.comment, serves.comment]
    rfl
  · rfl

theorem result_emitService {cursor : Cursor} (serves : cursor.scope.Serves comments path)
    (fullName : Text) {s : ServiceDescriptor} (indexable : Indexable s.methods) :
    (ClassCode.emitService code cursor fullName s).result =
      .ok (serviceAt code comments path cursor.depth s) := by
  rw [ClassCode.emitService, serviceAt]
  simp only [Logged.result_bind, Logged.result_debug, Logged.result_pure, Result.ok_bind]
  rw [documented_eq serves _ _ indexable, Cursor.comment, serves.comment]
  rfl

theorem result_emitEnums {table : LocationTable} (serves : table.Serves comments path)
    (field depth : Int) (scope : Text) (fullName : EnumDescriptor → Text)
    {enums : List EnumDescriptor} (indexable : Indexable enums)
    (ofValues : ∀ e ∈ enums, Indexable e.values) :
    (enums.zipIdx.mapM fun (e, i) => (ClassCode.emitEnum
        ((Cursor.under table field depth).step i) scope (fullName e) e).result) =
      enums.zipIdx.mapM fun (e, i) =>
        enumAt comments (path ++ [field, (i : Int)]) depth scope e := by
  apply Result.mapM_congr
  rintro ⟨e, i⟩ member
  exact result_emitEnum (serves.child field depth (indexable.lt member)) scope (fullName e)
    (ofValues e (List.fst_mem_of_mem_zipIdx member))

mutual

theorem result_emitMessage (code : ClassCode) {cursor : Cursor} {path : List Int} :
    (scope fullName : Text) → (m : MessageDescriptor) → m.Indexable →
    cursor.scope.Serves comments path →
    (ClassCode.emitMessage code cursor scope fullName m).result =
      messageAt code comments path cursor.depth scope fullName m
  | scope, fullName, ⟨name, fields, nested, enums, mapEntry⟩, indexable, serves => by
    rw [MessageDescriptor.Indexable] at indexable
    obtain ⟨ofFields, ofNested, ofEnums, ofValues, inside⟩ := indexable
    have inRange : 0 + nested.length < indexLimit := by
      rw [Nat.zero_add]
      exact ofNested
    rw [ClassCode.emitMessage, messageAt]
    simp only [Logged.result_bind, Logged.result_debug, Logged.result_mapM, Logged.result_lift,
      Logged.result_pure, Result.ok_bind]
    rw [result_emitEnums serves _ _ _ (fun e => fullName ++ "." ++ e.name) ofEnums ofValues,
      result_emitNested code (cursor.depth + 1) _ fullName 0 nested inside inRange serves,
      documented_eq serves _ _ ofFields, Cursor.comment, serves.comment]
    rfl

theorem result_emitNested (code : ClassCode) {table : LocationTable} {path : List Int} :
    (depth : Int) → (scope fullName : Text) → (i : Nat) → (nested : List MessageDescriptor) →
    MessageDescriptor.AllIndexable nested → i + nested.length < indexLimit →
    table.Serves comments path →
    (ClassCode.emitNested code (Cursor.under table FieldNumber.messageNested depth)
        scope fullName i nested).result =
      nestedAt code comments path depth scope fullName i nested
  | _, _, _, _, [], _, _, _ => by
    rw [ClassCode.emitNested, nestedAt]
    rfl
  | depth, scope, fullName, i, m :: rest, indexable, inRange, serves => by
    rw [MessageDescriptor.AllIndexable] at indexable
    rw [List.length_cons] at inRange
    have served := serves.child FieldNumber.messageNested depth (Nat.lt_of_le_of_lt
      (Nat.le_add_right i (rest.length + 1)) inRange)
    have restInStep :=
      result_emitNested code depth scope fullName (i + 1) rest indexable.2 (by omega) serves
    rw [ClassCode.emitNested, nestedAt]
    cases m.mapEntry with
    | true =>
      simp only [if_true, Logged.result_bind, Logged.result_pure, restInStep]
      rfl
    | false =>
      simp only [Bool.false_eq_true, if_false, Logged.result_bind, Logged.result_pure, restInStep]
      rw [result_emitMessage code scope _ m indexable.1 served]
      rfl

end

theorem result_emitMessages (code : ClassCode) {table : LocationTable}
    (serves : table.Serves comments path) (field depth : Int) (scope : Text)
    (fullName : MessageDescriptor → Text) {messages : List MessageDescriptor}
    (indexable : Indexable messages) (ofMessages : ∀ m ∈ messages, m.Indexable) :
    (messages.zipIdx.mapM fun (m, i) => (ClassCode.emitMessage code
        ((Cursor.under table field depth).step i) scope (fullName m) m).result) =
      messages.zipIdx.mapM fun (m, i) =>
        messageAt code comments (path ++ [field, (i : Int)]) depth scope (fullName m) m := by
  apply Result.mapM_congr
  rintro ⟨m, i⟩ member
  exact result_emitMessage code scope (fullName m) m
    (ofMessages m (List.fst_mem_of_mem_zipIdx member))
    (serves.child field depth (indexable.lt member))

theorem result_emitServices (code : ClassCode) {table : LocationTable}
    (serves : table.Serves comments path) (field depth : Int)
    (fullName : ServiceDescriptor → Text) {services : List ServiceDescriptor}
    (indexable : Indexable services) (ofMethods : ∀ s ∈ services, Indexable s.methods) :
    (services.zipIdx.mapM fun (s, i) => (ClassCode.emitService code
        ((Cursor.under table field depth).step i) (fullName s) s).result) =
      .ok (services.zipIdx.map fun (s, i) =>
        serviceAt code comments (path ++ [field, (i : Int)]) depth s) := by
  rw [← Result.mapM_ok]
  apply Result.mapM_congr
  rintro ⟨s, i⟩ member
  exact result_emitService (serves.child field depth (indexable.lt member)) (fullName s)
    (ofMethods s (List.fst_mem_of_mem_zipIdx member))

end Descent

theorem result_emitFile (types : TypeIndex) {file : FileDescriptor} (indexable : file.Indexable) :
    (file.emit types).result =
      fileAt types (LocationTable.commentAt file.locations) file := by
  have serves := serves_whole file.locations
  rw [FileDescriptor.emit, fileAt]
  simp only [ClassCode.emit, Logged.result_bind, Logged.result_debug, Logged.result_mapM,
    Logged.result_pure, Result.ok_bind]
  rw [result_emitEnums serves _ _ _ (fun e => qualify file.package e.name) indexable.enums
      indexable.values,
    result_emitMessages _ serves _ _ _ (fun m => qualify file.package m.name) indexable.messages
      indexable.fields,
    result_emitServices _ serves _ _ (fun s => qualify file.package s.name) indexable.services
      indexable.methods]
  rfl

end PathEmitter

/-- Each declaration is documented with the comment of the first location at
exactly its path, or with nothing: emission that narrows the table on the way
down gives the text or the fault of emission by absolute paths.  A location at
the path of no emitted node, and any location when nothing is emitted, can be
left out. -/
theorem FileDescriptor.emit_eq_by_path (types : TypeIndex) (file : FileDescriptor)
    (indexable : file.Indexable) :
    (file.emit types).result =
        PathEmitter.fileAt types (LocationTable.commentAt file.locations) file ∧
      ∀ before entry after, file.locations = before ++ entry :: after →
        ((∃ text, (file.emit types).result = .ok text) →
          entry.path ∉ PathEmitter.nodePaths file) →
        (FileDescriptor.emit types { file with locations := before ++ after }).result =
          (file.emit types).result := by
  refine ⟨PathEmitter.result_emitFile types indexable, ?_⟩
  intro before entry after listed unasked
  have fewer : FileDescriptor.Indexable { file with locations := before ++ after } :=
    ⟨indexable.messages, indexable.enums, indexable.services, indexable.fields, indexable.values,
      indexable.methods⟩
  rw [PathEmitter.result_emitFile types indexable] at unasked ⊢
  rw [PathEmitter.result_emitFile types fewer]
  have same : PathEmitter.SameAt (entry.path ∉ PathEmitter.nodePaths file)
      (LocationTable.commentAt file.locations) (LocationTable.commentAt (before ++ after))
      (PathEmitter.nodePaths file) := by
    intro absent path member
    rw [listed]
    apply LocationTable.commentAt_erase
    rintro rfl
    exact absent member
  exact ((PathEmitter.alike_fileAt types same).eq unasked).symm

/-- The comment of a map entry is left out, and the message after it keeps its
own. -/
theorem emit_beside_map_entry :
    let inner : SourceLocation := ⟨[4, 0, 3, 1], " inner"⟩
    let entry : SourceLocation := ⟨[4, 0, 3, 0], " entry"⟩
    let outer : MessageDescriptor :=
      { name := "Outer", nested := [{ name := "Entry", mapEntry := true }, { name := "Inner" }] }
    let file : FileDescriptor := { messages := [outer], locations := [inner, entry, inner] }
    file.Indexable ∧
      (file.emit {}).result =
        PathEmitter.fileAt {} (LocationTable.commentAt file.locations) file ∧
      (FileDescriptor.emit {} { file with locations := [inner, inner] }).result =
        (file.emit {}).result := by
  intro inner entry outer file
  have indexable : file.Indexable := by
    constructor <;>
      simp [file, outer, Indexable, indexLimit, MessageDescriptor.Indexable,
        MessageDescriptor.AllIndexable]
  have byPath := file.emit_eq_by_path {} indexable
  refine ⟨indexable, byPath.1, byPath.2 [inner] entry [inner] rfl ?_⟩
  intro _
  decide

end Protoclass
