import Protoclass.Proofs.Imports.Dependencies

/-!
# How references to other packages are written

A reference to a type of another package loses the package it stands in, and
then the reserved root, where it starts with them.  What is left starts with the
last name of the type's package in three cases only, which depend on how the two
packages lie to each other.
-/

namespace Protoclass

open TypeHint (reservedRoot typeName)

/-- The package `rooted (above ++ [last])` lies to `package` in such a way that a
reference to its type `name` is written with the last name of the package. -/
def WrittenByLastName (package : Text) (above : List Text) (last name : Text) : Prop :=
  (rooted above = package ∧ last ≠ reservedRoot) ∨
    rooted above = package ++ "." ++ reservedRoot ∨
    (above = [] ∧ Text.startsWith (rooted (above ++ [last]) ++ "." ++ name) (package ++ ".") = false)

/-- A reference loses the package and then the root, where it starts with them. -/
theorem typeName_rooted (package : Text) (names : List Text) (name : Text) :
    typeName package ("." ++ (rooted names ++ "." ++ name)) =
      Text.dropLead (Text.dropLead (rooted names ++ "." ++ name) (package ++ "."))
        (reservedRoot ++ ".") := by
  rw [typeName, Text.dropLead_append]
  cases package with
  | nil => cases names <;> rfl
  | cons b rest => rfl

/-- How a reference reads: what is left of it behind the package, without the
root where that comes next; or without the root alone. -/
inductive WrittenAs (package full : Text) : Text → Prop where
  | within (rest : Text) (split : full = package ++ "." ++ rest)
      (other : Text.startsWith rest (reservedRoot ++ ".") = false) : WrittenAs package full rest
  | withinRoot (rest : Text) (split : full = package ++ "." ++ reservedRoot ++ "." ++ rest) :
      WrittenAs package full rest
  | below (rest : Text) (split : full = reservedRoot ++ "." ++ rest)
      (outside : Text.startsWith full (package ++ ".") = false) : WrittenAs package full rest

theorem writtenAs_typeName (package name : Text) (names : List Text) :
    WrittenAs package (rooted names ++ "." ++ name)
      (typeName package ("." ++ (rooted names ++ "." ++ name))) := by
  rw [typeName_rooted]
  generalize spelled : rooted names ++ "." ++ name = full
  cases inPackage : Text.startsWith full (package ++ ".") with
  | true =>
    obtain ⟨rest, split⟩ := Text.startsWith_iff.mp inPackage
    rw [← split, Text.dropLead_append]
    cases inRoot : Text.startsWith rest (reservedRoot ++ ".") with
    | true =>
      obtain ⟨below, rooted⟩ := Text.startsWith_iff.mp inRoot
      rw [← rooted, Text.dropLead_append]
      exact .withinRoot below (by simp only [List.append_assoc])
    | false =>
      rw [Text.dropLead_eq_self inRoot]
      exact .within rest rfl inRoot
  | false =>
    rw [Text.dropLead_eq_self inPackage]
    obtain ⟨rest, split⟩ : ∃ rest, full = reservedRoot ++ "." ++ rest := by
      rw [← spelled]
      cases names with
      | nil => exact ⟨name, rfl⟩
      | cons first others =>
        exact ⟨Text.join "." (first :: others) ++ "." ++ name, by
          simp only [rooted_cons, List.append_assoc]⟩
    subst split
    rw [Text.dropLead_append]
    exact .below rest rfl inPackage

/-- A reference is the full name without a part that ends in a dot. -/
theorem WrittenAs.split {package full rest : Text} (written : WrittenAs package full rest) :
    ∃ front, full = front ++ "." ++ rest := by
  cases written with
  | within split => exact ⟨package, split⟩
  | withinRoot split => exact ⟨package ++ "." ++ reservedRoot, split⟩
  | below split => exact ⟨reservedRoot, split⟩

section

variable {package name last : Text} {above : List Text} {rest : Text}

/-- The last name comes next exactly when what was taken off is the package
above. -/
theorem concat_eq_iff {front : Text} (split : rooted (above ++ [last]) ++ "." ++ name =
      front ++ "." ++ rest) : rest = last ++ "." ++ name ↔ rooted above = front := by
  rw [rooted_concat] at split
  constructor
  · rintro rfl
    have whole : rooted above ++ ("." ++ (last ++ ("." ++ name))) =
        front ++ ("." ++ (last ++ ("." ++ name))) := by
      simpa only [List.append_assoc] using split
    exact List.append_cancel_right whole
  · rintro rfl
    have whole : rooted above ++ ("." ++ (last ++ ("." ++ name))) =
        rooted above ++ ("." ++ rest) := by
      simpa only [List.append_assoc] using split
    simpa only [List.append_assoc] using
      (List.append_cancel_left (List.append_cancel_left whole)).symm

theorem startsWith_last_iff (noDot : Text.dot ∉ last) :
    Text.startsWith (last ++ "." ++ name) (reservedRoot ++ ".") = true ↔ last = reservedRoot := by
  rw [Text.startsWith_iff]
  constructor
  · rintro ⟨tail, equal⟩
    -- Both sides are cut at their first dot.
    have cut := congrArg (List.takeWhile (· != Text.dot)) equal
    have before : ∀ front back : Text, Text.dot ∉ front →
        (front ++ "." ++ back).takeWhile (· != Text.dot) = front := by
      intro front back absent
      have keeps : ∀ b ∈ front, (b != Text.dot) = true := by
        intro b member
        rw [bne_iff_ne]
        rintro rfl
        exact absent member
      rw [List.append_assoc, List.takeWhile_append_of_pos keeps]
      exact List.append_nil front
    rw [before _ _ noDot, before _ _ (by decide)] at cut
    exact cut.symm
  · rintro rfl
    exact ⟨name, rfl⟩

theorem rooted_eq_root_iff : rooted above = reservedRoot ↔ above = [] := by
  constructor
  · intro equal
    cases above with
    | nil => rfl
    | cons first others =>
      have lengths := congrArg List.length equal
      rw [rooted_cons, List.length_append, List.length_append] at lengths
      have dotted : List.length (Text.ofString ".") = 1 := rfl
      omega
  · rintro rfl
    rfl

theorem startsWith_append (front back : Text) : Text.startsWith (front ++ back) front = true :=
  Text.startsWith_iff.mpr ⟨back, rfl⟩

/-- A package directly below another starts with it and a dot. -/
theorem startsWith_of_parent {rest : Text} (parent : rooted above = package ++ rest)
    (dotted : Text.startsWith (rest ++ ".") "." = true) :
    Text.startsWith (rooted (above ++ [last]) ++ "." ++ name) (package ++ ".") = true := by
  obtain ⟨tail, split⟩ := Text.startsWith_iff.mp dotted
  rw [rooted_concat, parent, Text.startsWith_iff]
  refine ⟨tail ++ last ++ "." ++ name, ?_⟩
  rw [show package ++ rest ++ "." ++ last ++ "." ++ name =
    package ++ (rest ++ ".") ++ last ++ "." ++ name by simp only [List.append_assoc], ← split]
  simp only [List.append_assoc]

/-- A reference is written with the last name of its package exactly in the
three cases. -/
theorem writtenByLastName_iff (noDot : Text.dot ∉ last) :
    typeName package ("." ++ (rooted (above ++ [last]) ++ "." ++ name)) = last ++ "." ++ name ↔
      WrittenByLastName package above last name := by
  have written := writtenAs_typeName package name (above ++ [last])
  generalize typeName package ("." ++ (rooted (above ++ [last]) ++ "." ++ name)) = rest at written
  -- One case for each way to write the reference; in each, only one of the three
  -- relations between the packages is possible.
  cases written with
  | within split other =>
    rw [concat_eq_iff split]
    constructor
    · intro parent
      refine .inl ⟨parent, ?_⟩
      intro root
      rw [(concat_eq_iff split).mpr parent, (startsWith_last_iff noDot).mpr root] at other
      contradiction
    · rintro (⟨parent, _⟩ | parent | ⟨_, outside⟩)
      · exact parent
      · have rest_eq : reservedRoot ++ "." ++ (last ++ "." ++ name) = rest := by
          rw [rooted_concat, parent] at split
          have whole : package ++ ("." ++ (reservedRoot ++ "." ++ (last ++ "." ++ name))) =
              package ++ ("." ++ rest) := by simpa only [List.append_assoc] using split
          exact List.append_cancel_left (List.append_cancel_left whole)
        rw [← rest_eq, startsWith_append] at other
        contradiction
      · rw [split, startsWith_append] at outside
        contradiction
  | withinRoot split =>
    rw [concat_eq_iff split]
    constructor
    · intro parent
      exact .inr (.inl parent)
    · rintro (⟨parent, notRoot⟩ | parent | ⟨_, outside⟩)
      · have rest_eq : reservedRoot ++ "." ++ rest = last ++ "." ++ name :=
          (concat_eq_iff (by simpa only [List.append_assoc] using split)).mpr parent
        have root := (startsWith_last_iff noDot).mp (rest_eq ▸ startsWith_append _ rest)
        contradiction
      · exact parent
      · rw [split, List.append_assoc, List.append_assoc, startsWith_append] at outside
        contradiction
  | below split outside =>
    rw [concat_eq_iff split, rooted_eq_root_iff]
    constructor
    · intro nothing
      exact .inr (.inr ⟨nothing, outside⟩)
    · rintro (⟨parent, _⟩ | parent | ⟨nothing, _⟩)
      · rw [startsWith_of_parent (parent.trans (List.append_nil package).symm) (by decide)] at outside
        contradiction
      · rw [startsWith_of_parent (parent.trans (List.append_assoc _ _ _)) (by decide)] at outside
        contradiction
      · exact nothing

end

end Protoclass
