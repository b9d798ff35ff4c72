import Protoclass.Proofs.Files.Discovery
import Protoclass.Watch.Session

/-!
# Changes of discovered files

A notifier with the standard filter looks at every element of the path of a changed file,
and a session looks for the mark of temporary files anywhere in it.  Where the directory
that files are discovered in has nothing of either in its own path, it comes down to the
file: a change of it is let through unless its name is excluded, and asks for a pass unless
the path below the directory has the mark.
-/

namespace Protoclass

open Protoclass.Path (Proper)
open Text (slash)

/-- A file was written to. -/
def Change.written (path : Text) : Change := { path, bits := ChangeBits.write }

section Below

variable {root : Text} {above : List Text} {name : Text}

theorem Path.base_names (sound : ∀ part ∈ above ++ [name], Proper part ∧ slash ∉ part) :
    base (Text.join "/" (above ++ [name])) = name := by
  obtain ⟨proper, undivided⟩ := sound name (by simp)
  have based := base_ofElements false above proper.1 undivided
  rwa [ofElements, if_neg Bool.false_ne_true, if_neg (by simp)] at based

/-- Below a directory that is not excluded itself, it depends on the name of a schema file
whether it is watched. -/
theorem WatchFilter.accepts_join_iff {exclude : List Text} (given : root ≠ [])
    (sound : ∀ part ∈ above ++ [name], Proper part ∧ slash ∉ part)
    (outside : ∀ element ∈ Path.elements root, isExcluded exclude element = false)
    (allowed : ∀ element ∈ above, isExcluded exclude element = false)
    (ending : Text.ofString ".proto" <:+ name) :
    ({ Settings.standard.watch with exclude } : WatchFilter).accepts
        (Path.join root (Text.join "/" (above ++ [name]))) = true ↔
      isExcluded exclude name = false := by
  have leads := Path.leads_join (by simp) sound
  obtain ⟨proper, undivided⟩ := sound name (by simp)
  have single : ∀ part ∈ Path.elements root ++ above ++ [name], slash ∉ part := by
    rw [List.append_assoc, List.forall_mem_append]
    exact ⟨fun part member => (Path.ne_nil_of_mem_elements member).2,
      fun part member => (sound part member).2⟩
  have ends : Glob.Ends name ".proto" := by
    obtain ⟨front, rfl⟩ := ending
    exact ⟨front, fun inside => undivided (List.mem_append_left _ inside), rfl⟩
  rw [accepts_standard_iff, leads.join_eq_ofElements given, ← List.append_assoc,
    Path.base_ofElements _ _ proper.1 undivided]
  constructor
  · rintro ⟨shown, -⟩
    apply shown name _ proper.1
    rw [Path.mem_splitOn_ofElements_iff _ (by simp) single proper.1]
    simp
  · intro shown
    refine ⟨fun element member nonempty => ?_, ends⟩
    rw [Path.mem_splitOn_ofElements_iff _ (by simp) single nonempty, List.mem_append,
      List.mem_append, List.mem_singleton] at member
    rcases member with (inRoot | below) | rfl
    · exact outside element inRoot
    · exact allowed element below
    · exact shown

/-- Below a directory without the mark of temporary files, it depends on the path of a
schema file from there whether it is temporary. -/
theorem Session.isTemporary_join_iff (given : root ≠ [])
    (sound : ∀ part ∈ above ++ [name], Proper part ∧ slash ∉ part)
    (outside : ∀ element ∈ Path.elements root, ¬Text.ofString ".tmp" <:+: element)
    (ending : Text.ofString ".proto" <:+ name) :
    isTemporary (Path.join root (Text.join "/" (above ++ [name]))) = true ↔
      Text.ofString ".tmp" <:+: Text.join "/" (above ++ [name]) := by
  have leads := Path.leads_join (by simp) sound
  have kept : ¬Text.ofString "~" <:+ Path.join root (Text.join "/" (above ++ [name])) := by
    obtain ⟨front, lead, split⟩ := Path.exists_lead_join above name
    rw [leads.suffix_join_iff given (by simp) (by decide), split,
      lead.suffix_append_iff (by decide)]
    intro ending'
    rcases List.suffix_or_suffix_of_suffix ending' ending with short | long
    · exact absurd short (by decide)
    · exact absurd long (by decide)
  rw [isTemporary, Bool.or_eq_true, Text.hasPart_iff, Text.endsWith_iff, or_iff_left kept,
    leads.join_eq_ofElements given, Path.infix_ofElements_iff _ (by simp) (by decide) (by decide),
    Text.ofString_slash, Text.infix_join_iff (by decide) (by decide)]
  constructor
  · rintro ⟨element, member, inside⟩
    rcases List.mem_append.mp member with inRoot | below
    · exact absurd inside (outside element inRoot)
    · exact ⟨element, below, inside⟩
  · rintro ⟨element, below, inside⟩
    exact ⟨element, List.mem_append_right _ below, inside⟩

end Below

theorem Session.value_change_written {session : Session} {path : Text}
    (lasting : isTemporary path = false) :
    (session.change (.written path)).value = session.requestPass := by
  apply Logged.value_eq_of_result
  have modified : action? ChangeBits.write = some "modified" := rfl
  simp only [Session.change, Change.written, lasting, modified]
  cases running : session.state.running <;>
    simp [Logged.result_bind, Logged.result_info, Logged.result_debug]

namespace FileSystem

variable {system : FileSystem} {root : Text} {exclude : List Text}

/-- A change of a file that was discovered is passed on unless the name of the file is
excluded, and asks for a pass unless it is temporary. -/
theorem change_of_discovered_file {name path : Text} {entries : List FileTree} {found : List Text}
    (resolved : system.resolve root = .ok (.directory name entries))
    (named : (FileTree.directory name entries).HasNames)
    (discovered : system.discover root exclude = .ok found) (member : path ∈ found)
    (outside : ∀ element ∈ Path.elements root,
      isExcluded exclude element = false ∧ ¬Text.ofString ".tmp" <:+: element)
    {notifier : Notifier} (standard : notifier.filter = { Settings.standard.watch with exclude })
    (session : Session) :
    (notifier.filter.accepts (Path.join root path) = true ↔
      isExcluded exclude (Path.base path) = false) ∧
    (Session.isTemporary (Path.join root path) = true ↔ Text.ofString ".tmp" <:+: path) ∧
    (isExcluded exclude (Path.base path) = false → ¬Text.ofString ".tmp" <:+: path →
      (notifier.handle system (.change (.written (Path.join root path)))).value.passedOn
          = [.written (Path.join root path)] ∧
        (session.change (.written (Path.join root path))).value = session.requestPass) := by
  have given := ne_nil_of_resolve resolved
  rw [discover_eq resolved rfl named] at discovered
  obtain rfl := Except.ok.inj discovered
  obtain ⟨through, node, leads, isFile, rfl, ending, allowed⟩ := mem_map_schemaFiles_iff.mp member
  have sound := leads.proper named
  obtain ⟨above, last, rfl⟩ :=
    (List.eq_nil_or_concat' through).resolve_left (ne_nil_of_leadsTo rfl leads isFile)
  rw [List.dropLast_concat] at allowed
  have ending : Text.ofString ".proto" <:+ last := by
    obtain ⟨front, lead, split⟩ := Path.exists_lead_join above last
    rwa [split, lead.suffix_append_iff (by decide)] at ending
  have accepted := WatchFilter.accepts_join_iff given sound
    (fun element inRoot => (outside element inRoot).1)
    (fun element below => isExcluded_eq_false_iff.mpr (allowed element below)) ending
  have temporary := Session.isTemporary_join_iff given sound
    (fun element inRoot => (outside element inRoot).2) ending
  rw [Path.base_names sound, standard]
  refine ⟨accepted, temporary, fun shown lasting => ⟨?_, ?_⟩⟩
  · obtain ⟨after, -, handled⟩ := notifier.exists_handle_change system
      (.written (Path.join root (Text.join "/" (above ++ [last]))))
    rw [handled, standard]
    exact if_pos (accepted.mpr shown)
  · apply Session.value_change_written
    rw [← Bool.not_eq_true, temporary]
    exact lasting

theorem change_of_discovered_file_in_sample :
    (Notifier.handle { filter := { Settings.standard.watch with exclude := ["build/"] } }
        { entries := [sampleDirectory] }
        (.change (.written (Path.join "/project" "src/c.proto")))).value.passedOn
      = [.written (Path.join "/project" "src/c.proto")] ∧
    (Session.change { root := "/project" }
        (.written (Path.join "/project" "src/c.proto"))).value
      = Session.requestPass { root := "/project" } := by
  have resolved : resolve { entries := [sampleDirectory] } "/project" = .ok sampleDirectory := rfl
  have named : sampleDirectory.HasNames := by
    simp only [sampleDirectory, FileTree.HasNames, FileTree.HaveNames]
    decide
  have discovered : discover { entries := [sampleDirectory] } "/project" ["build/"]
      = .ok ["a.proto", "src/c.proto"] := by rfl
  exact (change_of_discovered_file resolved named discovered (by decide) (by decide) rfl
    { root := "/project" }).2.2 (by decide) (by decide +kernel)

/-- A discovered file whose own name is excluded is not watched, and one with the mark of
temporary files asks for no pass.  A directory above the project can be to the same effect. -/
theorem change_of_discovered_file_ignored :
    (discover { entries := [.directory "project" [.file "scratch.proto" ""]] } "/project"
        ["scratch.proto"] = .ok ["scratch.proto"] ∧
      WatchFilter.accepts { Settings.standard.watch with exclude := ["scratch.proto"] }
        (Path.join "/project" "scratch.proto") = false) ∧
    (discover { entries := [.directory "project" [.file "a.tmp.proto" ""]] } "/project" []
        = .ok ["a.tmp.proto"] ∧
      Session.isTemporary (Path.join "/project" "a.tmp.proto") = true) ∧
    (discover { entries := [.directory "node_modules" [.directory "project" [.file "a.proto" ""]]] }
        "/node_modules/project" ["node_modules"] = .ok ["a.proto"] ∧
      WatchFilter.accepts { Settings.standard.watch with exclude := ["node_modules"] }
        (Path.join "/node_modules/project" "a.proto") = false) ∧
    discover { entries := [.directory "x.tmp" [.file "a.proto" ""]] } "/x.tmp" [] = .ok ["a.proto"] ∧
      Session.isTemporary (Path.join "/x.tmp" "a.proto") = true := by
  refine ⟨⟨rfl, ?_⟩, ⟨rfl, ?_⟩, ⟨rfl, ?_⟩, rfl, ?_⟩ <;> decide

end FileSystem

end Protoclass
