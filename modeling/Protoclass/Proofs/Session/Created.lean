import Protoclass.Proofs.Files.Building

/-!
# Directories that are created while others are watched

A directory that is created is added like the first one, with those below it that are not
excluded.  Names are looked at only from the directory that is added on, so one that is
created is watched whatever its own name is, and whatever the names of the directories
above it are.  A directory that lies in an excluded one is therefore watched exactly if a
created directory does, or is excluded itself; and only for a directory that is not excluded
it makes no difference whether it was there from the start.
-/

namespace Protoclass

open Protoclass.Path (Between)
open FileTree (LeadsTo)

/-- A name on the way from one path down to another is excluded. -/
def ExcludedBelow (exclude : List Text) (root path : Text) : Prop :=
  ∃ through, Between root path through ∧ ∃ name ∈ through, isExcluded exclude name = true

section ExcludedBelow

variable {exclude : List Text} {root path directory : Text} {through : List Text}

theorem excludedBelow_iff (given : root ≠ []) (between : Between root path through) :
    ExcludedBelow exclude root path ↔ ∃ name ∈ through, isExcluded exclude name = true := by
  constructor
  · rintro ⟨other, between', excluded⟩
    rwa [between.unique given between']
  · intro excluded
    exact ⟨through, between, excluded⟩

theorem not_excludedBelow_iff (given : root ≠ []) (between : Between root path through) :
    ¬ExcludedBelow exclude root path ↔ ∀ name ∈ through, isExcluded exclude name = false := by
  simp [excludedBelow_iff given between]

theorem not_excludedBelow_self (given : root ≠ []) : ¬ExcludedBelow exclude root root := by
  rw [not_excludedBelow_iff given (Path.between_self root)]
  exact List.forall_mem_nil _

theorem excludedBelow_clean_iff :
    ExcludedBelow exclude root (Path.clean path) ↔ ExcludedBelow exclude root path := by
  unfold ExcludedBelow
  simp only [Path.between_clean_iff]

/-- Below a directory on the way, it is excluded names before it or behind it that count. -/
theorem excludedBelow_iff_or (given : root ≠ []) (given' : path ≠ [])
    (above : Between root path through) {below : List Text}
    (between : Between path directory below) :
    ExcludedBelow exclude root directory ↔
      ExcludedBelow exclude root path ∨ ExcludedBelow exclude path directory := by
  rw [excludedBelow_iff given (above.trans given given' between), excludedBelow_iff given above,
    excludedBelow_iff given' between]
  simp only [List.mem_append, or_and_right, exists_or]

end ExcludedBelow

namespace Notifier

/-! ## One directory -/

section Add

variable {notifier next : Notifier} {system : FileSystem} {path directory : Text}

theorem mem_watched_foldl_watch {paths : List Text} :
    directory ∈ (paths.foldl watch notifier).watched ↔
      directory ∈ notifier.watched ∨ ∃ path ∈ paths, directory = Path.clean path := by
  induction paths generalizing notifier with
  | nil => simp
  | cons path paths ih =>
    rw [List.foldl_cons, ih, mem_watched_watch, List.exists_mem_cons_iff, or_assoc]

theorem directories_eq (filter : WatchFilter) {tree : FileTree}
    (resolved : system.resolve path = .ok tree) :
    directories system filter path =
      .ok ((tree.walk fun tree => isExcluded filter.exclude tree.name).filterMap fun reached =>
        if reached.2.isDirectory then some (reached.1.foldl Path.join path) else none) := by
  simp only [directories, FileSystem.visit, resolved, Result.ok_bind, FileTree.visit_eq_map_walk]
  rw [List.filterMap_map]
  rfl

theorem exists_resolve_of_directories {filter : WatchFilter} {found : List Text}
    (added : directories system filter path = .ok found) :
    ∃ tree, system.resolve path = .ok tree := by
  cases resolved : system.resolve path with
  | error cause =>
    rw [directories, FileSystem.visit, resolved] at added
    contradiction
  | ok tree => exact ⟨tree, rfl⟩

/-- What is added are the directories below, but for those in excluded ones. -/
theorem mem_directories_iff (sound : system.Sound) {filter : WatchFilter} {found : List Text}
    (added : directories system filter path = .ok found) :
    (∃ visited ∈ found, directory = Path.clean visited) ↔
      system.HasBelow path directory ∧ ¬ExcludedBelow filter.exclude path directory := by
  rcases exists_resolve_of_directories added with ⟨tree, resolved⟩
  have given := (FileSystem.resolve_eq_ok_iff.mp resolved).1
  have between {through : List Text} {node : FileTree} (leads : LeadsTo tree through node) :
      Between path (Path.clean (through.foldl Path.join path)) through :=
    Path.between_clean_iff.mpr ⟨leads.proper (sound.of_resolve resolved).1, rfl⟩
  rw [directories_eq filter resolved] at added
  cases added
  rw [FileSystem.hasBelow_iff_leadsTo]
  constructor
  · rintro ⟨visited, member, rfl⟩
    rcases List.mem_filterMap.mp member with ⟨⟨through, node⟩, reached, entered⟩
    rcases (FileTree.mem_walk_names_iff (isExcluded filter.exclude)).mp reached with
      ⟨leads, allowed⟩
    cases node with
    | file name content => contradiction
    | directory name entries =>
      cases entered
      constructor
      · exact ⟨tree, through, name, entries, resolved, leads, rfl⟩
      · exact (not_excludedBelow_iff given (between leads)).mpr allowed
  · rintro ⟨⟨_, through, name, entries, resolved', leads, rfl⟩, allowed⟩
    cases resolved.symm.trans resolved'
    rw [not_excludedBelow_iff given (between leads)] at allowed
    refine ⟨through.foldl Path.join path, List.mem_filterMap.mpr ?_, rfl⟩
    exact ⟨_, (FileTree.mem_walk_names_iff (isExcluded filter.exclude)).mpr ⟨leads, allowed⟩, rfl⟩

/-- What lies below a directory can be listed. -/
theorem hasBelow_iff_mem (sound : system.Sound) {below : List Text}
    (listed : (directories system {} path).map (List.map Path.clean) = .ok below) :
    system.HasBelow path directory ↔ directory ∈ below := by
  rcases Result.map_eq_ok_iff.mp listed with ⟨found, added, rfl⟩
  have none : ¬ExcludedBelow [] path directory := by
    rintro ⟨through, -, name, -, excluded⟩
    simp [isExcluded] at excluded
  have member : _ ↔ system.HasBelow path directory ∧ _ := mem_directories_iff sound added
  rw [and_iff_left none] at member
  rw [← member, List.mem_map]
  simp only [eq_comm]

theorem ne_nil_of_addDirectory (added : (notifier.addDirectory system path).result = .ok next) :
    path ≠ [] := by
  rw [result_addDirectory] at added
  rcases Result.map_eq_ok_iff.mp added with ⟨found, visited, -⟩
  rcases exists_resolve_of_directories visited with ⟨tree, resolved⟩
  exact (FileSystem.resolve_eq_ok_iff.mp resolved).1

theorem mem_watched_of_addDirectory (sound : system.Sound)
    (added : (notifier.addDirectory system path).result = .ok next) :
    directory ∈ next.watched ↔
      directory ∈ notifier.watched ∨
        system.HasBelow path directory ∧ ¬ExcludedBelow notifier.filter.exclude path directory := by
  rw [result_addDirectory] at added
  rcases Result.map_eq_ok_iff.mp added with ⟨found, visited, rfl⟩
  rw [mem_watched_foldl_watch, mem_directories_iff sound visited]

end Add

/-! ## One notice after the other -/

/-- The notifier after notices, each with the files as they are when it comes, up to one that
stops it. -/
def after (notifier : Notifier) : List (FileSystem × Notice) → Notifier
  | [] => notifier
  | (system, notice) :: rest =>
    let handled := (notifier.handle system notice).value
    if handled.stopped.isSome then handled.notifier else handled.notifier.after rest

/-- The directories that notices report as created, each with the files as they are then; there
are no more once changes or failures are closed. -/
def creations : List (FileSystem × Notice) → List (FileSystem × Text)
  | [] => []
  | (system, .change change) :: rest =>
    if change.bits.has ChangeBits.create && system.hasDirectory change.path then
      (system, change.path) :: creations rest
    else creations rest
  | (_, .failure _) :: rest => creations rest
  | (_, .changesClosed) :: _ => []
  | (_, .failuresClosed) :: _ => []

/-- The notices of a run come while the files stay as they are. -/
theorem notifier_run (notifier : Notifier) (system : FileSystem) (notices : List Notice) :
    (notifier.run system notices).value.notifier
      = notifier.after (notices.map fun notice => (system, notice)) := by
  induction notices generalizing notifier with
  | nil => rfl
  | cons notice rest ih =>
    rw [run, Logged.value_bind, List.map_cons, after]
    rcases (notifier.handle system notice).value with ⟨next, passedOn, stopped⟩
    cases stopped with
    | some reason => rfl
    | none =>
      exact (congrArg Handled.notifier (Logged.value_bind (next.run system rest) _)).trans (ih next)

section Handle

variable {notifier : Notifier} {system : FileSystem} {change : Change} {directory : Text}

theorem filter_handle_change (notifier : Notifier) (system : FileSystem) (change : Change) :
    (notifier.handle system (.change change)).value.notifier.filter = notifier.filter := by
  rcases exists_handle_change notifier system change with ⟨next, ⟨kept, -⟩, handled⟩
  rw [handled]
  exact kept

theorem after_change (rest : List (FileSystem × Notice)) :
    notifier.after ((system, .change change) :: rest)
      = (notifier.handle system (.change change)).value.notifier.after rest := by
  rcases exists_handle_change notifier system change with ⟨next, -, handled⟩
  rw [after, handled]
  rfl

/-- A directory that is created is added. -/
theorem mem_watched_handle_created (sound : system.Sound)
    (creates : (change.bits.has ChangeBits.create && system.hasDirectory change.path) = true) :
    directory ∈ (notifier.handle system (.change change)).value.notifier.watched ↔
      directory ∈ notifier.watched ∨
        system.HasBelow change.path directory ∧
          ¬ExcludedBelow notifier.filter.exclude change.path directory := by
  rcases FileSystem.hasDirectory_iff.mp (Bool.and_eq_true_iff.mp creates).2 with
    ⟨name, entries, resolved⟩
  have result := result_addDirectory notifier system change.path
  rw [directories_eq notifier.filter resolved] at result
  rw [handle, if_pos creates, Logged.value_bind, Logged.value_attempt]
  rw [← mem_watched_of_addDirectory sound result, result]
  rfl

theorem notifier_handle_of_not_created
    (other : ¬(change.bits.has ChangeBits.create && system.hasDirectory change.path) = true) :
    (notifier.handle system (.change change)).value.notifier = notifier := by
  rw [handle, if_neg other]
  rfl

end Handle

/-- What is watched in the end was watched before, or came with a created directory. -/
theorem mem_watched_after (notifier : Notifier) {later : List (FileSystem × Notice)}
    (sound : ∀ moment ∈ later, moment.1.Sound) {directory : Text} :
    directory ∈ (notifier.after later).watched ↔
      directory ∈ notifier.watched ∨
        ∃ created ∈ creations later, created.1.HasBelow created.2 directory ∧
          ¬ExcludedBelow notifier.filter.exclude created.2 directory := by
  induction later generalizing notifier with
  | nil => simp [after, creations]
  | cons moment rest ih =>
    rw [List.forall_mem_cons] at sound
    rcases moment with ⟨system, notice⟩
    cases notice with
    | change change =>
      rw [after_change, ih _ sound.2, filter_handle_change, creations]
      by_cases creates : change.bits.has ChangeBits.create && system.hasDirectory change.path
      · rw [if_pos creates, mem_watched_handle_created sound.1 creates, List.exists_mem_cons_iff,
          or_assoc]
      · rw [if_neg creates, notifier_handle_of_not_created creates]
    | failure message =>
      have unchanged : notifier.after ((system, .failure message) :: rest)
          = notifier.after rest := by
        cases message <;> rfl
      rw [unchanged, ih _ sound.2, creations]
    | changesClosed | failuresClosed =>
      rw [creations]
      exact (or_iff_left (by simp)).symm

/-! ## Excluded directories -/

theorem of_mem_creations {later : List (FileSystem × Notice)} {created : FileSystem × Text}
    (member : created ∈ creations later) :
    created.1.hasDirectory created.2 = true ∧ ∃ notice, (created.1, notice) ∈ later := by
  have further {moment : FileSystem × Notice} {rest : List (FileSystem × Notice)}
      (inside : created.1.hasDirectory created.2 = true ∧ ∃ notice, (created.1, notice) ∈ rest) :
      created.1.hasDirectory created.2 = true ∧
        ∃ notice, (created.1, notice) ∈ moment :: rest := by
    rcases inside with ⟨present, notice, among⟩
    exact ⟨present, notice, List.mem_cons_of_mem _ among⟩
  fun_induction creations later with
  | case1 => contradiction
  | case2 system change rest creates ih =>
    rcases List.mem_cons.mp member with rfl | later
    · exact ⟨(Bool.and_eq_true_iff.mp creates).2, .change change, List.mem_cons_self⟩
    · exact further (ih later)
  | case3 system change rest other ih => exact further (ih member)
  | case4 system message rest ih => exact further (ih member)
  | case5 => contradiction
  | case6 => contradiction

section Excluded

variable {system : FileSystem} {exclude : List Text} {root path directory : Text}

/-- Below a directory that lies in no excluded one, what is added lies in none either. -/
theorem not_excludedBelow_of_hasBelow (given : root ≠ []) (sound : system.Sound)
    (below : system.HasBelow path directory) (allowed : ¬ExcludedBelow exclude path directory)
    (own : ¬ExcludedBelow exclude root path) : ¬ExcludedBelow exclude root directory := by
  rintro ⟨through, between, name, among, excluded⟩
  rcases sound.of_hasBelow below with ⟨-, -, through', between'⟩
  rcases between.split given (FileSystem.ne_nil_of_hasBelow below) between' with
    ⟨first, higher, rfl⟩ | ⟨first, -, rfl⟩
  · rcases List.mem_append.mp among with before | behind
    · exact own ⟨first, higher, name, before, excluded⟩
    · exact allowed ⟨through', between', name, behind, excluded⟩
  · exact allowed ⟨_, between', name, List.mem_append_right _ among, excluded⟩

/-- What is added with a directory is what is added there with a higher one, exactly if it does
not lie in an excluded one. -/
theorem added_iff_of_hasBelow (sound : system.Sound) (higher : system.HasBelow root path) :
    (∀ directory, system.HasBelow path directory ∧ ¬ExcludedBelow exclude path directory ↔
      (system.HasBelow root directory ∧ ¬ExcludedBelow exclude root directory) ∧
        ∃ through, Between path directory through) ↔
      ¬ExcludedBelow exclude root path := by
  have given := FileSystem.ne_nil_of_hasBelow higher
  rcases sound.of_hasBelow higher with ⟨cleaned, present, through, above⟩
  have given' : path ≠ [] := cleaned ▸ Path.clean_ne_nil path
  constructor
  · intro same
    have here : system.HasBelow path path := by
      have := FileSystem.hasBelow_self present
      rwa [cleaned] at this
    exact ((same path).mp ⟨here, not_excludedBelow_self given'⟩).1.2
  · intro own directory
    rw [sound.hasBelow_iff_of_hasBelow higher]
    constructor
    · rintro ⟨⟨inside, through', between⟩, allowed⟩
      refine ⟨⟨inside, ?_⟩, through', between⟩
      rw [excludedBelow_iff_or given given' above between]
      exact not_or.mpr ⟨own, allowed⟩
    · rintro ⟨⟨inside, allowed⟩, through', between⟩
      refine ⟨⟨inside, through', between⟩, ?_⟩
      rw [excludedBelow_iff_or given given' above between] at allowed
      exact (not_or.mp allowed).2

end Excluded

section Watched

variable {filter : WatchFilter} {first : FileSystem} {root : Text} {notifier : Notifier}
  {later : List (FileSystem × Notice)}

theorem mem_watched_iff (sound : first.Sound) (soundLater : ∀ moment ∈ later, moment.1.Sound)
    (added : (({ filter } : Notifier).addDirectory first root).result = .ok notifier)
    (directory : Text) :
    directory ∈ (notifier.after later).watched ↔
      first.HasBelow root directory ∧ ¬ExcludedBelow filter.exclude root directory ∨
        ∃ created ∈ creations later, created.1.HasBelow created.2 directory ∧
          ¬ExcludedBelow filter.exclude created.2 directory := by
  have kept : notifier.filter = filter := (extends_of_addDirectory _ _ added).1
  have start : directory ∈ notifier.watched ↔
      first.HasBelow root directory ∧ ¬ExcludedBelow filter.exclude root directory := by
    rw [mem_watched_of_addDirectory sound added]
    exact or_iff_right List.not_mem_nil
  rw [mem_watched_after notifier soundLater, kept, start]

/-- Nothing in an excluded directory is watched exactly if no such directory is created. -/
theorem forall_watched_not_excludedBelow_iff (sound : first.Sound)
    (soundLater : ∀ moment ∈ later, moment.1.Sound)
    (added : (({ filter } : Notifier).addDirectory first root).result = .ok notifier) :
    (∀ directory ∈ (notifier.after later).watched, ¬ExcludedBelow filter.exclude root directory) ↔
      ∀ created ∈ creations later, ¬ExcludedBelow filter.exclude root created.2 := by
  constructor
  · intro none created member
    rcases of_mem_creations member with ⟨present, -⟩
    have below := FileSystem.hasBelow_self present
    have own : ¬ExcludedBelow filter.exclude created.2 (Path.clean created.2) := by
      rw [excludedBelow_clean_iff]
      exact not_excludedBelow_self (FileSystem.ne_nil_of_hasBelow below)
    have watched := (mem_watched_iff sound soundLater added _).mpr
      (.inr ⟨created, member, below, own⟩)
    rw [← excludedBelow_clean_iff]
    exact none _ watched
  · intro none directory watched
    rcases (mem_watched_iff sound soundLater added directory).mp watched with
      ⟨-, allowed⟩ | ⟨created, member, below, allowed⟩
    · exact allowed
    · rcases of_mem_creations member with ⟨-, notice, among⟩
      exact not_excludedBelow_of_hasBelow (ne_nil_of_addDirectory added) (soundLater _ among) below
        allowed (none created member)

/-- A directory that is created later comes to be watched as if it had been there from the start,
exactly if it lies in no excluded one. -/
theorem forall_watched_iff_not_excludedBelow (sound : first.Sound)
    (added : (({ filter } : Notifier).addDirectory first root).result = .ok notifier)
    {system : FileSystem} {path : Text} {bits : ChangeBits} (soundThen : system.Sound)
    (creates : bits.has ChangeBits.create = true) (higher : system.HasBelow root path)
    (without : ∀ directory, first.HasBelow root directory ↔
      system.HasBelow root directory ∧ ¬∃ through, Between path directory through) :
    (∀ directory, directory ∈ (notifier.after [(system, .change ⟨path, bits⟩)]).watched ↔
        system.HasBelow root directory ∧ ¬ExcludedBelow filter.exclude root directory) ↔
      ¬ExcludedBelow filter.exclude root path := by
  have once : creations [(system, .change ⟨path, bits⟩)] = [(system, path)] := by
    simp [creations, creates, (soundThen.of_hasBelow higher).2.1]
  rw [← added_iff_of_hasBelow soundThen higher]
  apply forall_congr'
  intro directory
  rw [mem_watched_iff sound (by simpa using soundThen) added, once, without]
  by_cases inside : ∃ through, Between path directory through
  · simp [inside]
  · have outside : ¬system.HasBelow path directory := by
      intro below
      exact inside ((soundThen.hasBelow_iff_of_hasBelow higher).mp below).2
    simp [inside, outside]

/-- The directories that are watched are those that lay below the first one at the start, or
below a created one when it was created, but for those with an excluded name on the way from
there.  So nothing in an excluded directory is watched exactly if no such directory is created;
and a directory that is created later, with all that lies below it, comes to be watched as if it
had been there from the start exactly if it lies in no excluded one. -/
theorem watched_after_creations (sound : first.Sound)
    (soundLater : ∀ moment ∈ later, moment.1.Sound)
    (added : (({ filter } : Notifier).addDirectory first root).result = .ok notifier) :
    (∀ directory, directory ∈ (notifier.after later).watched ↔
      first.HasBelow root directory ∧ ¬ExcludedBelow filter.exclude root directory ∨
        ∃ created ∈ creations later, created.1.HasBelow created.2 directory ∧
          ¬ExcludedBelow filter.exclude created.2 directory) ∧
    ((∀ directory ∈ (notifier.after later).watched, ¬ExcludedBelow filter.exclude root directory) ↔
      ∀ created ∈ creations later, ¬ExcludedBelow filter.exclude root created.2) ∧
    (∀ (system : FileSystem) (path : Text) (bits : ChangeBits), system.Sound →
      bits.has ChangeBits.create = true → system.HasBelow root path →
      (∀ directory, first.HasBelow root directory ↔
        system.HasBelow root directory ∧ ¬∃ through, Between path directory through) →
      ((∀ directory, directory ∈ (notifier.after [(system, .change ⟨path, bits⟩)]).watched ↔
          system.HasBelow root directory ∧ ¬ExcludedBelow filter.exclude root directory) ↔
        ¬ExcludedBelow filter.exclude root path)) ∧
    ∀ (system : FileSystem) (notices : List Notice),
      later = notices.map (fun notice => (system, notice)) →
        notifier.after later = (notifier.run system notices).value.notifier := by
  refine ⟨mem_watched_iff sound soundLater added,
    forall_watched_not_excludedBelow_iff sound soundLater added, ?_, ?_⟩
  · intro system path bits soundThen creates higher without
    exact forall_watched_iff_not_excludedBelow sound added soundThen creates higher without
  · rintro system notices rfl
    exact (notifier_run notifier system notices).symm

end Watched

/-! ## A project in which directories are created -/

/-- A project with a schema file and, behind it, some directories. -/
def project (directories : List FileTree) : FileSystem :=
  { entries := [.directory "project" (.file "a.proto" "" :: directories)] }

def packages : FileTree := .directory "node_modules" [.directory "pkg" []]

def sources : FileTree := .directory "src" [.directory "node_modules" [], .directory "v1" []]

/-- A notifier for all but directories of packages. -/
def outsidePackages : Notifier := { filter := { exclude := ["node_modules"] } }

/-- A directory of packages is not watched if it is there from the start, and is watched once it is
created. -/
theorem excluded_directory_watched_once_created :
    ExcludedBelow outsidePackages.filter.exclude "/project" "/project/node_modules" ∧
    (∃ notifier,
      (outsidePackages.addDirectory (project [packages]) "/project").result = .ok notifier ∧
        Text.ofString "/project/node_modules" ∉ notifier.watched) ∧
    ∃ notifier, (outsidePackages.addDirectory (project []) "/project").result = .ok notifier ∧
      Text.ofString "/project/node_modules" ∈
        (notifier.after [(project [packages],
          .change ⟨"/project/node_modules", ChangeBits.create⟩)]).watched := by
  refine ⟨?_, ⟨_, rfl, by decide⟩, ⟨_, rfl, by decide⟩⟩
  exact ⟨["node_modules"], ⟨by decide, rfl⟩, "node_modules", List.mem_singleton_self _, by decide⟩

theorem built_project_nil : (project []).Built := by
  show (({} : FileSystem).putFile "/project/a.proto" "").Built
  exact .putFile (.empty rfl) rfl ""

theorem built_project_sources : (project [sources]).Built := by
  show (((project []).putDirectory "/project/src/node_modules").putDirectory
    "/project/src/v1").Built
  exact .putDirectory (.putDirectory built_project_nil rfl) rfl

theorem watched_after_creations_of_sources :
    ∃ notifier, (outsidePackages.addDirectory (project []) "/project").result = .ok notifier ∧
      (∀ directory ∈ (notifier.after
          [(project [sources], .change ⟨"/project/src", ChangeBits.create⟩)]).watched,
        ¬ExcludedBelow ["node_modules"] "/project" directory) ∧
      ∀ directory, directory ∈ (notifier.after
          [(project [sources], .change ⟨"/project/src", ChangeBits.create⟩)]).watched ↔
        (project [sources]).HasBelow "/project" directory ∧
          ¬ExcludedBelow ["node_modules"] "/project" directory := by
  have added : (outsidePackages.addDirectory (project []) "/project").result
      = .ok { outsidePackages with watched := ["/project"] } := rfl
  have soundLater : ∀ moment ∈ [(project [sources],
      Notice.change ⟨"/project/src", ChangeBits.create⟩)], moment.1.Sound := by
    simpa using built_project_sources.rooted.sound
  have early (directory : Text) :
      (project []).HasBelow "/project" directory ↔ directory ∈ [Text.ofString "/project"] :=
    hasBelow_iff_mem built_project_nil.rooted.sound rfl
  have late (directory : Text) :
      (project [sources]).HasBelow "/project" directory ↔
        directory ∈ (["/project", "/project/src", "/project/src/node_modules",
          "/project/src/v1"] : List Text) :=
    hasBelow_iff_mem built_project_sources.rooted.sound rfl
  have between : Between "/project" "/project/src" ["src"] := ⟨by decide, rfl⟩
  have allowed : ¬ExcludedBelow ["node_modules"] "/project" "/project/src" := by
    rw [not_excludedBelow_iff (by decide) between]
    decide
  have apart : ¬∃ through, Between "/project/src" "/project" through := by
    rintro ⟨through, back⟩
    have same : [Text.ofString "project"] = Text.ofString "project" :: "src" :: through :=
      ((Path.between_iff (by decide)).mp back).2.2
    simp at same
  have without (directory : Text) :
      (project []).HasBelow "/project" directory ↔
        (project [sources]).HasBelow "/project" directory ∧
          ¬∃ through, Between "/project/src" directory through := by
    rw [early, late]
    simp only [List.mem_cons, List.not_mem_nil, or_false]
    constructor
    · rintro rfl
      exact ⟨.inl rfl, apart⟩
    · rintro ⟨rfl | rfl | rfl | rfl, outside⟩
      · rfl
      · exact absurd ⟨[], by decide, rfl⟩ outside
      · exact absurd ⟨["node_modules"], by decide, rfl⟩ outside
      · exact absurd ⟨["v1"], by decide, rfl⟩ outside
  rcases watched_after_creations built_project_nil.rooted.sound soundLater added with
    ⟨-, excluded, asFirst, -⟩
  refine ⟨_, added, excluded.mpr ?_, ?_⟩
  · show ∀ created ∈ [(project [sources], Text.ofString "/project/src")], _
    rw [List.forall_mem_singleton]
    exact allowed
  · exact (asFirst (project [sources]) "/project/src" ChangeBits.create built_project_sources.rooted.sound rfl
      ((late _).mpr (by simp)) without).mpr allowed

end Notifier

end Protoclass
