import Protoclass.Proofs.Attribution.PathEmitter
import Protoclass.Proofs.Result

/-!
# Comments that matter

Whether a file is emitted, and how emission fails, does not depend on its
comments.  When it is emitted, only the comments at the paths of its nodes
matter.  Both are one statement: emissions under two sets of comments are
alike, under the condition that the comments agree at those paths.
-/

namespace Protoclass.PathEmitter

open Result

variable {agree : Prop} {comments others : Comments} {path : List Int}

/-- Under the condition, two sets of comments agree at some paths. -/
def SameAt (agree : Prop) (comments others : Comments) (paths : List (List Int)) : Prop :=
  agree → ∀ path ∈ paths, comments path = others path

theorem SameAt.mono {paths fewer : List (List Int)} (same : SameAt agree comments others paths)
    (subset : fewer ⊆ paths) : SameAt agree comments others fewer :=
  fun agrees path member => same agrees path (subset member)

theorem SameAt.split {first second : List (List Int)}
    (same : SameAt agree comments others (first ++ second)) :
    SameAt agree comments others first ∧ SameAt agree comments others second :=
  ⟨same.mono (List.subset_append_left first second),
    same.mono (List.subset_append_right first second)⟩

/-- Agreement at the nodes of all children is agreement at those of each. -/
theorem SameAt.child {α : Type} {children : List α} {below : α × Nat → List (List Int)}
    (same : SameAt agree comments others (children.zipIdx.flatMap below)) {entry : α × Nat}
    (member : entry ∈ children.zipIdx) : SameAt agree comments others (below entry) :=
  same.mono fun _ inside => List.mem_flatMap.mpr ⟨entry, member, inside⟩

theorem documentedAt_congr {α : Type} {field : Int} {children : List α}
    (same : ∀ p ∈ childPaths path field children, comments p = others p) :
    documentedAt comments path field children = documentedAt others path field children := by
  apply List.map_congr_left
  rintro ⟨child, i⟩ member
  exact congrArg (Prod.mk child) (same _ (List.mem_map.mpr ⟨(child, i), member, rfl⟩))

theorem alike_enumAt {depth : Int} {scope : Text} {e : EnumDescriptor}
    (same : SameAt agree comments others (enumPaths path e)) :
    Alike agree (enumAt comments path depth scope e) (enumAt others path depth scope e) := by
  rw [enumAt, enumAt]
  split
  · intro agrees
    rw [same agrees path List.mem_cons_self,
      documentedAt_congr fun p member => same agrees p (List.mem_cons_of_mem path member)]
  · exact rfl

theorem alike_enumsAt {field depth : Int} {scope : Text} {enums : List EnumDescriptor}
    (same : SameAt agree comments others
      (enums.zipIdx.flatMap fun (e, i) => enumPaths (path ++ [field, (i : Int)]) e)) :
    Alike agree
      (enums.zipIdx.mapM fun (e, i) => enumAt comments (path ++ [field, (i : Int)]) depth scope e)
      (enums.zipIdx.mapM fun (e, i) => enumAt others (path ++ [field, (i : Int)]) depth scope e) :=
  Alike.mapM fun _ member => alike_enumAt (same.child member)

theorem alike_member {code : ClassCode} {depth : Int} {message : MessageDescriptor}
    {fullName : Text} {field : FieldDescriptor} {comment other : Text}
    (same : agree → comment = other) :
    Alike agree (ClassCode.member code depth message fullName (field, comment))
      (ClassCode.member code depth message fullName (field, other)) := by
  apply Alike.bind (Alike.refl _)
  intro hint hint' sameHint
  apply Alike.bind (Alike.refl _)
  intro value value' sameValue
  apply Alike.pure
  intro agrees
  rw [sameHint agrees, sameValue agrees, same agrees]

theorem alike_members {code : ClassCode} {depth : Int} {message : MessageDescriptor}
    {fullName : Text} {fields : List FieldDescriptor}
    (same : SameAt agree comments others (childPaths path 2 fields)) :
    Alike agree (ClassCode.members code depth message fullName (documentedAt comments path 2 fields))
      (ClassCode.members code depth message fullName (documentedAt others path 2 fields)) := by
  have each : Alike agree
      ((documentedAt comments path 2 fields).mapM (ClassCode.member code depth message fullName))
      ((documentedAt others path 2 fields).mapM (ClassCode.member code depth message fullName)) := by
    rw [documentedAt, documentedAt, List.mapM_map, List.mapM_map]
    apply Alike.mapM
    rintro ⟨field, i⟩ member
    apply alike_member
    intro agrees
    exact same agrees _ (List.mem_map.mpr ⟨(field, i), member, rfl⟩)
  cases fields with
  | nil => exact Alike.refl _
  | cons first rest =>
    apply each.bind
    intro texts texts' sameTexts
    apply Alike.pure
    intro agrees
    rw [sameTexts agrees]

mutual

theorem alike_messageAt (code : ClassCode) {path : List Int} (depth : Int) :
    (scope fullName : Text) → (m : MessageDescriptor) →
    SameAt agree comments others (messagePaths path m) →
    Alike agree (messageAt code comments path depth scope fullName m)
      (messageAt code others path depth scope fullName m)
  | scope, fullName, ⟨name, fields, nested, enums, mapEntry⟩, same => by
    rw [messagePaths] at same
    have sameHere : agree → comments path = others path :=
      fun agrees => same agrees path List.mem_cons_self
    have sameFields : SameAt agree comments others (childPaths path 2 fields) :=
      same.mono fun p member => by simp [member]
    have sameEnums : SameAt agree comments others
        (enums.zipIdx.flatMap fun (e, i) => enumPaths (path ++ [4, (i : Int)]) e) :=
      same.mono fun p member => by simp [member]
    have sameNested : SameAt agree comments others (nestedPaths path 0 nested) :=
      same.mono fun p member => by simp [member]
    rw [messageAt, messageAt]
    apply (alike_enumsAt sameEnums).bind
    intro enumTexts enumTexts' equalEnums
    apply (alike_nestedAt code _ _ fullName 0 nested sameNested).bind
    intro nestedTexts nestedTexts' equalNested
    apply (alike_members sameFields).bind
    intro body body' equalBody
    apply Alike.pure
    intro agrees
    rw [sameHere agrees, equalEnums agrees, equalNested agrees, equalBody agrees]

theorem alike_nestedAt (code : ClassCode) {path : List Int} (depth : Int) :
    (scope fullName : Text) → (i : Nat) → (nested : List MessageDescriptor) →
    SameAt agree comments others (nestedPaths path i nested) →
    Alike agree (nestedAt code comments path depth scope fullName i nested)
      (nestedAt code others path depth scope fullName i nested)
  | _, _, _, [], _ => by
    rw [nestedAt, nestedAt]
    exact Alike.refl _
  | scope, fullName, i, m :: rest, same => by
    rw [nestedPaths] at same
    have restAlike := alike_nestedAt code depth scope fullName (i + 1) rest
      same.split.2
    rw [nestedAt, nestedAt]
    cases entry : m.mapEntry with
    | true =>
      apply restAlike.bind
      intro more more' equalMore
      exact Alike.pure equalMore
    | false =>
      rw [entry] at same
      apply (alike_messageAt code _ scope _ m same.split.1).bind
      intro text text' equalText
      apply restAlike.bind
      intro more more' equalMore
      apply Alike.pure
      intro agrees
      rw [equalText agrees, equalMore agrees]

end

theorem serviceAt_congr {code : ClassCode} {depth : Int} {s : ServiceDescriptor}
    (same : ∀ p ∈ servicePaths path s, comments p = others p) :
    serviceAt code comments path depth s = serviceAt code others path depth s := by
  rw [serviceAt, serviceAt, same path List.mem_cons_self,
    documentedAt_congr fun p member => same p (List.mem_cons_of_mem path member)]

theorem alike_fileAt (types : TypeIndex) {file : FileDescriptor}
    (same : SameAt agree comments others (nodePaths file)) :
    Alike agree (fileAt types comments file) (fileAt types others file) := by
  rw [nodePaths] at same
  obtain ⟨sameDeclared, sameServices⟩ := same.split
  obtain ⟨sameEnums, sameMessages⟩ := sameDeclared.split
  apply (Alike.mapM fun _ member => alike_enumAt (sameEnums.child member)).bind
  intro enums enums' equalEnums
  apply (Alike.mapM fun _ member =>
    alike_messageAt _ _ _ _ _ (sameMessages.child member)).bind
  intro messages messages' equalMessages
  apply Alike.pure
  intro agrees
  rw [equalEnums agrees, equalMessages agrees]
  congr 3
  apply List.map_congr_left
  intro entry member
  exact serviceAt_congr (sameServices.child member agrees)

end Protoclass.PathEmitter
