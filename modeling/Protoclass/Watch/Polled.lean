import Protoclass.Watch.Session

/-!
# Changes found by looking again

Where nothing reports changes, they are found by comparing the files of two
moments.
-/

namespace Protoclass

/-- What changed from one state of some files to another: files that are new or
different, in order, and then those that are gone. -/
def changesBetween (before after : List (Text × Text)) : List Change :=
  (after.filterMap fun (path, content) =>
    match before.lookup path with
    | none => some ⟨path, ChangeBits.create⟩
    | some earlier => if earlier = content then none else some ⟨path, ChangeBits.write⟩)
    ++ before.filterMap fun (path, _) =>
      if after.any (·.1 = path) then none else some ⟨path, ChangeBits.remove⟩

namespace Session

/-- Take up all changes that the filter accepts. -/
def changeAll (session : Session) (filter : WatchFilter) (changes : List Change) :
    Logged Empty Session :=
  (changes.filter fun change => filter.accepts change.path).foldlM Session.change session

end Session

end Protoclass
