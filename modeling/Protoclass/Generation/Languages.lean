import Protoclass.Document.Fragment
import Protoclass.Fault
import Protoclass.Generation.Options
import Protoclass.TypeIndex

/-!
# Languages

A generator writes the code of one package at a time.  A backend makes a
generator for a run, from the options and the index of all types.  `Languages`
is a set of backends by the name of their language.
-/

namespace Protoclass

/-- What writes the code of a package in some language. -/
structure Generator where
  language : Text
  /-- What the name of a generated file ends in. -/
  extension : Text
  /-- The files of a package, from the schema files that declare it. -/
  generatePackage : Text → List FileDescriptor → Logged Fault (List OutputFile)

/-- What makes a generator for a run, or says why it cannot. -/
abbrev Backend := Options → TypeIndex → Except Text Generator

/-- Backends by the name of their language. -/
structure Languages where
  backends : List (Text × Backend) := []

namespace Languages

/-- Enter a backend, in place of an earlier one for the same language. -/
def register (languages : Languages) (name : Text) (backend : Backend) : Languages :=
  ⟨(name, backend) :: languages.backends.filter fun entry => entry.1 ≠ name⟩

/-- The backend of a language. -/
def get? (languages : Languages) (name : Text) : Option Backend :=
  languages.backends.lookup name

/-- The names of the languages, in order. -/
def names (languages : Languages) : List Text :=
  (languages.backends.map Prod.fst).mergeSort Text.le

end Languages

end Protoclass
