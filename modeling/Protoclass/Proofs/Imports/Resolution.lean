import Protoclass.Proofs.Imports.References

/-!
# What references to other packages resolve to

An import block binds names: the last name of each package that it imports, and
whatever a sibling module exports.  A reference resolves when it starts with a
bound name and the last import that binds the name binds it to the module of the
type's package.  That is so exactly when the reference is written with the last
name of the package and no later import binds that name to something else.
-/

namespace Protoclass

open TypeHint (reservedRoot typeName)

/-! ## Bindings -/

/-- What a sibling module exports under a name, if anything. -/
abbrev Exports := Text → Text → Option Text

namespace Import

/-- What an import binds a name to, if it binds the name. -/
def binding? (exports : Exports) (target name : Text) : Import → Option Text
  | .sibling module => exports module name
  | .package imported =>
    if lastName imported = name then some (moduleOf target imported) else none

/-- What the last of several imports that bind a name binds it to. -/
def bound? (exports : Exports) (target : Text) (imports : List Import) (name : Text) :
    Option Text :=
  imports.reverse.findSome? (binding? exports target name)

variable {exports : Exports} {target name : Text}

theorem bound?_append_cons (before later : List Import) (new : Import) :
    bound? exports target (before ++ new :: later) name =
      (bound? exports target later name).or
        ((binding? exports target name new).or (bound? exports target before name)) := by
  simp only [bound?, List.reverse_append, List.reverse_cons, List.findSome?_append,
    List.findSome?_cons, List.findSome?_nil, Option.or_assoc]
  cases binding? exports target name new <;> rfl

/-- A name that is bound has no dot, if none that is exported has. -/
theorem dot_notMem_of_bound? {imports : List Import} {module : Text}
    (plain : ∀ sibling exported, Text.dot ∈ exported → exports sibling exported = none)
    (bound : bound? exports target imports name = some module) : Text.dot ∉ name := by
  intro dotted
  obtain ⟨new, -, binds⟩ := List.exists_of_findSome?_eq_some bound
  cases new with
  | sibling sibling => simp [binding?, plain sibling name dotted] at binds
  | package imported =>
    rw [binding?] at binds
    split at binds
    · rename_i named
      exact dot_notMem_lastName imported (named ▸ dotted)
    · contradiction

end Import

/-- An expression starts with a bound name, which stands for `module`, and goes
on with `rest`. -/
def Resolves (bound : Text → Option Text) (module rest expression : Text) : Prop :=
  ∃ name, expression = name ++ "." ++ rest ∧ bound name = some module

theorem resolves_append_iff {bound : Text → Option Text} {module rest expression : Text}
    (suffix : Text) :
    Resolves bound module (rest ++ suffix) (expression ++ suffix) ↔
      Resolves bound module rest expression := by
  have cut : ∀ name : Text, expression ++ suffix = name ++ "." ++ (rest ++ suffix) ↔
      expression = name ++ "." ++ rest := by
    intro name
    rw [← List.append_assoc, List.append_left_inj]
  simp only [Resolves, cut]

/-- In `package`, a reference to the type `name` of the package
`rooted (above ++ [last])` is written with the last name of that package, and
the imports behind that of the package do not bind the last name to something
else. -/
def Resolvable (exports : Exports) (package target : Text) (above : List Text)
    (last name : Text) (later : List Import) : Prop :=
  WrittenByLastName package above last name ∧
    ∀ found, Import.bound? exports target later last = some found →
      found = Import.moduleOf target (rooted (above ++ [last]))

section

variable {exports : Exports} {package target : Text} {above : List Text} {last name : Text}

theorem resolves_iff_resolvable
    (plain : ∀ sibling exported, Text.dot ∈ exported → exports sibling exported = none)
    (noDot : Text.dot ∉ last) (before later : List Import) :
    Resolves (Import.bound? exports target (before ++ .package (rooted (above ++ [last])) :: later))
        (Import.moduleOf target (rooted (above ++ [last]))) name
        (typeName package ("." ++ (rooted (above ++ [last]) ++ "." ++ name))) ↔
      Resolvable exports package target above last name later := by
  have named : Import.lastName (rooted (above ++ [last])) = last := by
    rw [rooted_concat]
    exact lastName_concat noDot
  have bound_last : Import.bound? exports target
        (before ++ .package (rooted (above ++ [last])) :: later) last =
      some ((Import.bound? exports target later last).getD
        (Import.moduleOf target (rooted (above ++ [last])))) := by
    rw [Import.bound?_append_cons, Import.binding?, if_pos named]
    cases Import.bound? exports target later last <;> rfl
  rw [Resolvable, ← writtenByLastName_iff noDot]
  constructor
  · rintro ⟨short, written, bound⟩
    have short_eq : short = last := by
      have shortNoDot := Import.dot_notMem_of_bound? plain bound
      obtain ⟨front, split⟩ := (writtenAs_typeName package name (above ++ [last])).split
      rw [written, rooted_concat] at split
      have whole : (rooted above ++ "." ++ last) ++ ("." ++ name) =
          (front ++ "." ++ short) ++ ("." ++ name) := by
        simpa only [List.append_assoc] using split
      have names := congrArg Import.lastName (List.append_cancel_right whole)
      rw [lastName_concat noDot, lastName_concat shortNoDot] at names
      exact names.symm
    subst short_eq
    refine ⟨written, ?_⟩
    intro found rebound
    rw [bound_last, rebound] at bound
    exact Option.some.inj bound
  · rintro ⟨written, unchanged⟩
    refine ⟨last, written, ?_⟩
    rw [bound_last]
    cases rebound : Import.bound? exports target later last with
    | none => rfl
    | some found => exact congrArg some (unchanged found rebound)

end

/-! ## The imports of a file -/

namespace ImportBlock

theorem mem_add_iff {block : ImportBlock} {new old : Import} :
    old ∈ (block.add new).imports ↔ old ∈ block.imports ∨ old = new := by
  rw [add]
  split
  · rename_i present
    constructor
    · exact .inl
    · rintro (member | rfl)
      · exact member
      · exact present
  · simp

theorem mem_foldl_add_iff {block : ImportBlock} {news : List Import} {old : Import} :
    old ∈ (news.foldl add block).imports ↔ old ∈ block.imports ∨ old ∈ news := by
  induction news generalizing block with
  | nil => simp
  | cons new news ih => rw [List.foldl_cons, ih, mem_add_iff, List.mem_cons, or_assoc]

/-- A file's block imports every other package that the file depends on. -/
theorem package_mem_imports {block : ImportBlock} {paths : List Text} {skipSiblings : Bool}
    {path : Text} {dependency : Dependency} (listed : path ∈ paths)
    (read : Dependency.ofPath? path = some dependency)
    (other : dependency.package ≠ block.package) :
    .package dependency.package ∈ (block.addDependencies paths skipSiblings).imports := by
  rw [addDependencies, mem_foldl_add_iff, List.mem_filterMap]
  refine .inr ⟨path, listed, ?_⟩
  rw [importOf?, read, Option.bind_eq_bind, Option.bind_some, if_neg other]

/-- What a name stands for behind a block. -/
def bound? (block : ImportBlock) (exports : Exports) (name : Text) : Option Text :=
  Import.bound? exports block.target block.imports name

@[simp]
theorem target_add (block : ImportBlock) (new : Import) : (block.add new).target = block.target := by
  rw [add]
  split <;> rfl

@[simp]
theorem target_addDependencies (block : ImportBlock) (paths : List Text) (skipSiblings : Bool) :
    (block.addDependencies paths skipSiblings).target = block.target := by
  rw [addDependencies]
  induction paths.filterMap (importOf? block.package skipSiblings) generalizing block with
  | nil => rfl
  | cons new news ih => rw [List.foldl_cons, ih, target_add]

/-- A reference to a type of a package that a file depends on, and the default
of a field of such an enum type, resolve through the imports of the file exactly
when they are written with the last name of the package and no import behind
that of the package binds the name to something else.  What sibling modules
export is arbitrary, except that names have no dots. -/
theorem reference_resolves_iff (exports : Exports)
    (plain : ∀ sibling exported, Text.dot ∈ exported → exports sibling exported = none)
    (package target name : Text) (skipSiblings : Bool) {paths above : List Text}
    {last module : Text} (names : ∀ part ∈ above ++ [last], IsName part)
    (nonempty : module ≠ []) (noSlash : Text.slash ∉ module)
    (listed : filePath (rooted (above ++ [last])) module ∈ paths)
    (other : rooted (above ++ [last]) ≠ package) :
    let referred := rooted (above ++ [last])
    let block := ({ package, target } : ImportBlock).addDependencies paths skipSiblings
    .package referred ∈ block.imports ∧
    ∀ before later, block.imports = before ++ .package referred :: later →
      (Resolves (block.bound? exports) (Import.moduleOf target referred) name
          (typeName package ("." ++ (referred ++ "." ++ name))) ↔
        Resolvable exports package target above last name later) ∧
      ∀ (field : FieldDescriptor) (types : TypeIndex) (e : EnumDescriptor) (first : EnumValue)
        (others : List EnumValue), field.typeName = "." ++ (referred ++ "." ++ name) →
        types.lookup field.typeName = some (.enum e) → e.values = first :: others →
        ∃ expression, TypeHint.enumDefault package field types = .ok expression ∧
          (Resolves (block.bound? exports) (Import.moduleOf target referred)
              (name ++ "." ++ first.name) expression ↔
            Resolvable exports package target above last name later) := by
  intro referred block
  have read : Dependency.ofPath? (filePath referred module) =
      some { package := referred, module } := by
    obtain ⟨head, tail, spelled⟩ : ∃ head tail, above ++ [last] = head :: tail :=
      List.exists_cons_of_ne_nil (by simp)
    simp only [referred, spelled] at names ⊢
    exact ofPath?_filePath names nonempty noSlash
  refine ⟨package_mem_imports listed read other, ?_⟩
  intro before later imports
  have noDot := (names last (List.mem_append_right above List.mem_cons_self)).noDot
  have resolves : Resolves (block.bound? exports) (Import.moduleOf target referred) name
      (typeName package ("." ++ (referred ++ "." ++ name))) ↔
        Resolvable exports package target above last name later := by
    have target_eq : block.target = target := target_addDependencies _ paths skipSiblings
    have bound_eq : block.bound? exports =
        Import.bound? exports target (before ++ .package referred :: later) := by
      funext short
      rw [bound?, target_eq, imports]
    rw [bound_eq]
    exact resolves_iff_resolvable plain noDot before later
  refine ⟨resolves, ?_⟩
  intro field types e first others typed found values
  refine ⟨typeName package field.typeName ++ ("." ++ first.name), ?_, ?_⟩
  · rw [TypeHint.enumDefault, found]
    simp only [values, List.append_assoc]
  · rw [typed, List.append_assoc, resolves_append_iff]
    exact resolves

/-- A package directly below the root resolves. -/
theorem reference_to_config_resolves :
    let block := ({ package := "trac.metadata", target := "tracdap.rt" } : ImportBlock)
      |>.addDependencies ["trac/config/job.proto"] false
    typeName "trac.metadata" ".trac.config.Job" = "config.Job" ∧
      Resolves (block.bound? fun _ _ => none) "tracdap.rt.config" "Job"
        (typeName "trac.metadata" ".trac.config.Job") := by
  intro block
  have names : ∀ part ∈ ([] : List Text) ++ [Text.ofString "config"], IsName part := by
    intro part member
    obtain rfl := List.mem_singleton.mp member
    constructor <;> decide
  have listed : filePath (rooted ([] ++ [Text.ofString "config"])) "job" ∈
      [Text.ofString "trac/config/job.proto"] := by decide
  have resolves := reference_resolves_iff (fun _ _ => none) (fun _ _ _ => rfl) "trac.metadata"
    "tracdap.rt" "Job" false names (by decide) (by decide) listed (by decide)
  refine ⟨by decide, (resolves.2 [] [] rfl).1.mpr ⟨.inr (.inr ⟨rfl, by decide⟩), ?_⟩⟩
  intro found bound
  contradiction

/-- A package two levels below the root, referred to from elsewhere, does not
resolve: it is imported as `b`, and written as `a.b`. -/
theorem reference_to_deep_package_unresolved :
    let block := ({ package := "trac.c", target := "t" } : ImportBlock)
      |>.addDependencies ["trac/a/b/m.proto"] false
    block.statements = [Text.ofString "import t.a.b as b\n"] ∧
      typeName "trac.c" ".trac.a.b.T" = "a.b.T" ∧
      ¬ Resolves (block.bound? fun _ _ => none) "t.a.b" "T" (typeName "trac.c" ".trac.a.b.T") := by
  refine ⟨by decide, by decide, ?_⟩
  rintro ⟨short, written, bound⟩
  have whole : Text.ofString "a.b" ++ Text.ofString ".T" = short ++ Text.ofString ".T" := by
    rw [List.append_assoc] at written
    exact written
  obtain rfl := List.append_cancel_right whole
  exact Import.dot_notMem_of_bound? (fun _ _ _ => rfl) bound (by decide)

end ImportBlock

end Protoclass
