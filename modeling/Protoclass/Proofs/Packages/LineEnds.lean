import Protoclass.Proofs.Packages.FlatModule

/-!
# How modules start and end

The code of a file ends in a line end, so a module ends in some of them, of which one
is kept; it starts with the header and the standard imports, or is nothing but these
when no code follows.  Which of the written files are modules is told by their place:
the manifest comes last, and a placeholder comes alone.

Collapsing final line ends can be done one at a time: a text that ends in two line
ends loses the last, until it does not.  That ends with every text, and in the same
text as collapsing them at once.
-/

namespace Protoclass

open Text (newline)

namespace Package

/-! ## Collapsing line ends one at a time -/

/-- A text that ends in two line ends without the last of them. -/
def shorten? (text : Text) : Option Text :=
  if Text.endsWith text "\n\n" then some text.dropLast else none

/-- Shortening a text for as long as it can be shortened ends in another. -/
inductive ShortensTo : Text → Text → Prop
  | stop {text : Text} (last : shorten? text = none) : ShortensTo text text
  | round {text shorter final : Text} (next : shorten? text = some shorter)
      (rest : ShortensTo shorter final) : ShortensTo text final

theorem ShortensTo.unique {text final final' : Text} (first : ShortensTo text final)
    (second : ShortensTo text final') : final = final' := by
  induction first with
  | stop last =>
    cases second with
    | stop _ => rfl
    | round next _ =>
      rw [last] at next
      contradiction
  | round next _ ih =>
    cases second with
    | stop last =>
      rw [last] at next
      contradiction
    | round next' rest' =>
      obtain rfl := Option.some.inj (next.symm.trans next')
      exact ih rest'

theorem shorten?_concat_concat (front : Text) :
    shorten? (front ++ [newline] ++ [newline]) = some (front ++ [newline]) := by
  have ended : Text.endsWith (front ++ [newline] ++ [newline]) "\n\n" = true := by
    rw [Text.endsWith, Option.isSome_iff_exists]
    exact ⟨front, Text.before?_eq_some_iff.mpr (List.append_assoc ..)⟩
  rw [shorten?, if_pos ended, List.dropLast_concat]

theorem shorten?_eq_none {text : Text} (single : ∀ front, text ≠ front ++ [newline] ++ [newline]) :
    shorten? text = none := by
  have unended : ¬Text.endsWith text "\n\n" = true := by
    rw [Text.endsWith, Option.isSome_iff_exists]
    rintro ⟨front, found⟩
    rw [Text.before?_eq_some_iff] at found
    exact single front (found.trans (List.append_assoc ..).symm)
  exact if_neg unended

section

variable {rest : Text} (unended : rest.getLast? ≠ some newline)

include unended

theorem ne_concat_newline (front : Text) : rest ≠ front ++ [newline] := by
  rintro rfl
  exact unended List.getLast?_concat

/-- Of several final line ends all but one go, one in each round. -/
theorem shortensTo_replicate_succ (n : Nat) :
    ShortensTo (rest ++ List.replicate (n + 1) newline) (rest ++ [newline]) := by
  induction n with
  | zero =>
    refine .stop (shorten?_eq_none fun front same => ?_)
    exact ne_concat_newline unended front (List.append_cancel_right same)
  | succ n ih =>
    rw [List.replicate_succ', ← List.append_assoc] at ih ⊢
    rw [List.replicate_succ', ← List.append_assoc]
    exact .round (shorten?_concat_concat _) ih

/-- A text is divided from its final line ends in one way. -/
theorem append_newlines_inj {rest' : Text} (unended' : rest'.getLast? ≠ some newline) {n n' : Nat}
    (same : rest ++ List.replicate n newline = rest' ++ List.replicate n' newline) :
    rest = rest' ∧ n = n' := by
  have within : rest <+: rest' := prefix_of_prefix_append_newlines ⟨_, same⟩ unended
  have around : rest' <+: rest := prefix_of_prefix_append_newlines ⟨_, same.symm⟩ unended'
  obtain rfl := within.eq_of_length_le around.length_le
  have lengths := congrArg List.length (List.append_cancel_left same)
  exact ⟨rfl, by simpa using lengths⟩

theorem trimNewlines_append_replicate (n : Nat) :
    trimNewlines (rest ++ List.replicate n newline) =
      rest ++ List.replicate (min n 1) newline := by
  obtain ⟨rest', n', unended', same, trimmed⟩ :=
    collapsesTo_trimNewlines (rest ++ List.replicate n newline)
  obtain ⟨rfl, rfl⟩ := append_newlines_inj unended unended' same
  exact trimmed

theorem shortensTo_trimNewlines_append (n : Nat) :
    ShortensTo (rest ++ List.replicate n newline)
      (trimNewlines (rest ++ List.replicate n newline)) := by
  rw [trimNewlines_append_replicate unended]
  cases n with
  | zero =>
    refine .stop (shorten?_eq_none fun front same => ?_)
    rw [List.replicate_zero, List.append_nil] at same
    exact ne_concat_newline unended _ same
  | succ n =>
    rw [Nat.min_eq_right (Nat.succ_le_succ n.zero_le)]
    exact shortensTo_replicate_succ unended n

end

/-- Shortening ends with every text, and in the text with its line ends collapsed. -/
theorem shortensTo_iff {text final : Text} : ShortensTo text final ↔ final = trimNewlines text := by
  obtain ⟨rest, n, unended, rfl, -⟩ := collapsesTo_trimNewlines text
  have ends := shortensTo_trimNewlines_append unended n
  constructor
  · intro run
    exact run.unique ends
  · rintro rfl
    exact ends

theorem trimNewlines_trimNewlines (text : Text) :
    trimNewlines (trimNewlines text) = trimNewlines text := by
  obtain ⟨rest, n, unended, rfl, trimmed⟩ := collapsesTo_trimNewlines text
  rw [trimmed, trimNewlines_append_replicate unended, Nat.min_assoc, Nat.min_self]

/-- Several final line ends become one, and any other text stays as it is. -/
theorem exists_trimNewlines_eq (text : Text) :
    ∃ rest n, rest.getLast? ≠ some newline ∧ text = rest ++ List.replicate n newline ∧
      trimNewlines text = if 2 ≤ n then rest ++ [newline] else text := by
  obtain ⟨rest, n, unended, rfl, trimmed⟩ := collapsesTo_trimNewlines text
  refine ⟨rest, n, unended, rfl, ?_⟩
  rw [trimmed]
  split
  case isTrue several => rw [Nat.min_eq_right (by omega), List.replicate_one]
  case isFalse few => rw [Nat.min_eq_left (by omega)]

/-! ## The text of a module -/

/-- The content starts with the header and the standard imports, or is these alone with
their final line ends collapsed, and it ends in one line end. -/
structure IsModuleText (content : Text) : Prop where
  starts : header ++ standardImports <+: content ∨
    content = trimNewlines (header ++ standardImports)
  ends : ∃ text, text.getLast? ≠ some newline ∧ content = text ++ [newline]

theorem trimNewlines_of_ended {text : Text} (ended : text.getLast? = some newline) :
    ∃ rest n, rest.getLast? ≠ some newline ∧ text = rest ++ List.replicate (n + 1) newline ∧
      trimNewlines text = rest ++ [newline] := by
  obtain ⟨rest, n, unended, rfl, trimmed⟩ := collapsesTo_trimNewlines text
  cases n with
  | zero =>
    rw [List.replicate_zero, List.append_nil] at ended
    contradiction
  | succ n =>
    rw [Nat.min_eq_right (Nat.succ_le_succ n.zero_le)] at trimmed
    exact ⟨rest, n, unended, rfl, trimmed⟩

/-- What a text starts with, up to a line end, is kept, unless nothing but line ends
follows. -/
theorem prefix_trimNewlines_or_eq {front back : Text} (ended : front.getLast? = some newline)
    (ended' : back.getLast? = some newline) :
    front <+: trimNewlines (front ++ back) ∨
      trimNewlines (front ++ back) = trimNewlines front := by
  have whole : (front ++ back).getLast? = some newline := by
    rw [List.getLast?_append, ended', Option.some_or]
  obtain ⟨rest, n, unended, split, trimmed⟩ := trimNewlines_of_ended whole
  have within : rest <+: front ++ back := ⟨_, split.symm⟩
  rcases List.prefix_or_prefix_of_prefix (List.prefix_append front back) within with
    shorter | ⟨ends, rfl⟩
  · left
    rw [trimmed]
    exact shorter.trans (List.prefix_append rest _)
  -- What is left of the front behind `rest` are line ends, and some.
  · right
    rw [List.append_assoc] at split
    have among : ends <+: List.replicate (n + 1) newline := ⟨back, List.append_cancel_left split⟩
    have ends_eq : ends = List.replicate ends.length newline :=
      List.eq_replicate_of_mem fun b member => List.eq_of_mem_replicate (among.subset member)
    have some_left : 1 ≤ ends.length := by
      rw [Nat.one_le_iff_ne_zero, ne_eq, List.length_eq_zero_iff]
      rintro rfl
      rw [List.append_nil] at ended
      exact unended ended
    rw [trimmed, ends_eq, trimNewlines_append_replicate unended, Nat.min_eq_right some_left,
      List.replicate_one]

theorem isModuleText_moduleText (imports : ImportBlock) {codes : List Text} (given : codes ≠ [])
    (ended : ∀ code ∈ codes, code.getLast? = some newline) :
    IsModuleText (moduleText imports codes) := by
  have last : (imports.render ++ codes.flatten).getLast? = some newline := by
    obtain ⟨front, code, rfl⟩ := List.eq_nil_or_concat codes |>.resolve_left given
    rw [List.concat_eq_append, List.flatten_concat, ← List.append_assoc, List.getLast?_append,
      ended code (by simp), Option.some_or]
  have front : (header ++ standardImports).getLast? = some newline := by decide
  have whole : (header ++ standardImports ++ (imports.render ++ codes.flatten)).getLast? =
      some newline := by
    rw [List.getLast?_append, last, Option.some_or]
  rw [moduleText_eq, List.append_assoc (header ++ standardImports)]
  obtain ⟨rest, -, unended, -, trimmed⟩ := trimNewlines_of_ended whole
  exact ⟨prefix_trimNewlines_or_eq front last, rest, unended, trimmed⟩

end Package

/-- The code of a file ends in a line end, also when it declares nothing. -/
theorem FileDescriptor.getLast?_of_emit {types : TypeIndex} {file : FileDescriptor} {code : Text}
    (emitted : (file.emit types).result = .ok code) : code.getLast? = some newline := by
  rw [emit] at emitted
  simp only [Logged.result_bind, Logged.result_debug, Logged.result_mapM, Logged.result_pure,
    Result.ok_bind] at emitted
  obtain ⟨enums, -, emitted⟩ := Result.bind_eq_ok_iff.mp emitted
  obtain ⟨messages, -, emitted⟩ := Result.bind_eq_ok_iff.mp emitted
  obtain ⟨services, -, emitted⟩ := Result.bind_eq_ok_iff.mp emitted
  rw [← Except.ok.inj emitted, Text.ofString_newline]
  exact List.getLast?_concat

/-! ## The modules of a package -/

namespace Package

/-- How many of the files that are written for a package are modules. -/
def moduleCount (options : Options) (package : Text) (files : List FileDescriptor) : Nat :=
  match output package options.packages with
  | .full => if options.flatPack && !files.isEmpty then 1 else files.length
  | .placeholder | .nothing => 0

/-- What is written for a package behind its modules. -/
def besideModules (options : Options) (package : Text) (files : List FileDescriptor) :
    List OutputFile :=
  match output package options.packages with
  | .full => if options.flatPack && !files.isEmpty then [] else [manifest package files]
  | .placeholder => [placeholder package]
  | .nothing => []

theorem getLast?_of_mem_bodies {types : TypeIndex} {files : List FileDescriptor}
    {codes : List Text} (emitted : bodies types files = .ok codes) :
    ∀ code ∈ codes, code.getLast? = some newline := by
  intro code member
  obtain ⟨file, -, ofFile⟩ := Result.exists_mem_of_mapM_eq_ok emitted member
  exact FileDescriptor.getLast?_of_emit ofFile

theorem length_of_bodies {types : TypeIndex} {files : List FileDescriptor} {codes : List Text}
    (emitted : bodies types files = .ok codes) : files.length = codes.length :=
  (Result.forall₂_of_mapM_eq_ok emitted).length_eq

/-- In full, a package is written as modules and what is beside them. -/
theorem exists_modules_of_assemble (options : Options) (package : Text) {types : TypeIndex}
    {files : List FileDescriptor} {codes : List Text} (emitted : bodies types files = .ok codes)
    (full : output package options.packages = .full) :
    ∃ modules, assemble options package files codes =
        modules ++ besideModules options package files ∧
      modules.length = moduleCount options package files ∧
      ∀ module ∈ modules, IsModuleText module.content := by
  have ended := getLast?_of_mem_bodies emitted
  have lengths := length_of_bodies emitted
  rw [assemble, besideModules, moduleCount, full]
  by_cases packed : (options.flatPack && !files.isEmpty) = true
  · have given : codes ≠ [] := by
      rintro rfl
      simp_all
    simp only [if_pos packed]
    refine ⟨[flatFile options package files codes], by simp, rfl, ?_⟩
    simp only [List.forall_mem_singleton, flatFile]
    exact isModuleText_moduleText _ given ended
  · simp only [if_neg packed]
    refine ⟨_, rfl, by simp [lengths], ?_⟩
    intro module member
    rw [← List.map_uncurry_zip_eq_zipWith] at member
    obtain ⟨⟨file, code⟩, among, rfl⟩ := List.mem_map.mp member
    simp only [Function.uncurry_apply_pair, fileModule]
    refine isModuleText_moduleText _ (List.cons_ne_nil code []) ?_
    rw [List.forall_mem_singleton]
    exact ended code (List.of_mem_zip among).2

theorem exists_modules_of_generate {options : Options} {types : TypeIndex} {package : Text}
    {files : List FileDescriptor} {written : List OutputFile}
    (generated : ((generator options types).generatePackage package files).result = .ok written) :
    ∃ modules, written = modules ++ besideModules options package files ∧
      modules.length = moduleCount options package files ∧
      ∀ module ∈ modules, IsModuleText module.content := by
  rw [result_generatePackage, result_generate] at generated
  obtain ⟨codes, emitted, rfl⟩ := Result.map_eq_ok_iff.mp generated
  -- Defaults are filled in for the target package and the language alone.
  have packages : options.withDefaults.packages = options.packages := rfl
  rw [packages]
  cases kind : output package options.packages with
  | full => exact exists_modules_of_assemble options.withDefaults package emitted kind
  | placeholder | nothing =>
    exact ⟨[], by simp [besideModules, kind], by simp [moduleCount, kind], by simp⟩

/-- What is written for a package is its modules and what is beside them.  Every module
starts with the header and the standard imports, or is these alone, up to final line ends,
and ends in exactly one line end.  Collapsing the final line ends of a text one at a time
comes to an end, in one text; done again it changes nothing; and it makes one line end of
two or more, and nothing else of any other text. -/
theorem modules_end_in_one_newline (options : Options) (types : TypeIndex) (package : Text)
    (files : List FileDescriptor) :
    (∀ written, ((generator options types).generatePackage package files).result = .ok written →
      ∃ modules, written = modules ++ besideModules options package files ∧
        modules.length = moduleCount options package files ∧
        ∀ module ∈ modules,
          (header ++ standardImports <+: module.content ∨
            module.content = trimNewlines (header ++ standardImports)) ∧
          ∃ text, text.getLast? ≠ some newline ∧ module.content = text ++ [newline]) ∧
    ∀ text, (∀ final, ShortensTo text final ↔ final = trimNewlines text) ∧
      trimNewlines (trimNewlines text) = trimNewlines text ∧
      ∃ rest n, rest.getLast? ≠ some newline ∧ text = rest ++ List.replicate n newline ∧
        trimNewlines text = if 2 ≤ n then rest ++ [newline] else text := by
  refine ⟨?_, fun text => ⟨fun final => shortensTo_iff, trimNewlines_trimNewlines text,
    exists_trimNewlines_eq text⟩⟩
  intro written generated
  obtain ⟨modules, rfl, count, each⟩ := exists_modules_of_generate generated
  exact ⟨modules, rfl, count, fun module member =>
    ⟨(each module member).starts, (each module member).ends⟩⟩

/-- Of two files the first declares nothing, so that its module is the standard imports
alone; and line ends behind a text and without one. -/
theorem modules_end_in_one_newline_beside_manifest :
    let files : List FileDescriptor :=
      [{ name := "m/a.proto", package := "m" },
       { name := "m/b.proto", package := "m", enums := [{ name := "E" }] }]
    (∃ first second, ((generator {} {}).generatePackage "m" files).result =
        .ok [first, second, manifest "m" files] ∧
      ∀ module ∈ [first, second],
        (header ++ standardImports <+: module.content ∨
          module.content = trimNewlines (header ++ standardImports)) ∧
        ∃ text, text.getLast? ≠ some newline ∧ module.content = text ++ [newline]) ∧
      ShortensTo "a\n\n\n" "a\n" ∧
      trimNewlines (trimNewlines "\n\n") = trimNewlines "\n\n" := by
  intro files
  obtain ⟨ofPackage, ofText⟩ := modules_end_in_one_newline {} {} "m" files
  refine ⟨?_, ((ofText "a\n\n\n").1 "a\n").mpr (by decide), (ofText "\n\n").2.1⟩
  have succeeds : Result.error? ((generator {} {}).generatePackage "m" files).result = none := by
    decide +kernel
  obtain ⟨written, generated⟩ := Result.error?_eq_none_iff.mp succeeds
  obtain ⟨modules, rfl, count, each⟩ := ofPackage written generated
  obtain ⟨first, second, rfl⟩ := List.length_eq_two.mp (count.trans (by decide))
  exact ⟨first, second, generated, each⟩

end Package

end Protoclass
