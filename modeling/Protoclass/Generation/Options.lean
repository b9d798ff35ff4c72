import Protoclass.Log
import Protoclass.Text.Blank
import Protoclass.Text.Quoted

/-!
# Generation options

The options of a run, their defaults, and the parameter text that carries them
into a plugin: items `key=value` divided by commas, with blanks around items,
keys and values left out of account.
-/

namespace Protoclass

/-- The options of a generation run. -/
structure Options where
  /-- The package that imports of other packages resolve to. -/
  targetPackage : Text := []
  /-- The package subtree that output is restricted to; empty for all. -/
  packages : Text := []
  /-- Whether all files of a package go into one module. -/
  flatPack : Bool := false
  /-- The language to generate. -/
  language : Text := []
  deriving DecidableEq, Repr

namespace Options

/-- The options of a run that sets none. -/
def standard : Options :=
  { targetPackage := "trac", language := "python" }

/-- The options with an empty target package or language replaced by its
default. -/
def withDefaults (options : Options) : Options :=
  { options with
    targetPackage :=
      if options.targetPackage.isEmpty then standard.targetPackage else options.targetPackage
    language := if options.language.isEmpty then standard.language else options.language }

/-! ## Parameters -/

/-- Why a parameter cannot be read. -/
inductive Error where
  | targetPackageEmpty
  | flatPackInvalid (value : Text)
  deriving DecidableEq, Repr

/-- The text of an error. -/
def Error.message : Error → Text
  | .targetPackageEmpty => "option target_package requires a value"
  | .flatPackInvalid value => "invalid value for flat_pack: " ++ Text.quoted value

/-- The words for the two truth values. -/
def readBool? (text : Text) : Option Bool :=
  if (["1", "t", "T", "TRUE", "true", "True"] : List Text).any (· = text) then some true
  else if (["0", "f", "F", "FALSE", "false", "False"] : List Text).any (· = text) then some false
  else none

/-- An item of a parameter: a key, and a value if there is an equals sign. -/
structure Item where
  key : Text
  value : Option Text
  deriving DecidableEq, Repr

/-- The item that a text between two commas stands for; none if it is blank. -/
def Item.read? (text : Text) : Option Item :=
  let trimmed := Text.trim text
  if trimmed.isEmpty then none
  else
    let (key, value) := Text.cut 61 trimmed
    some { key := Text.trim key, value := value.map Text.trim }

/-- The options after one item.  A key that is not known is logged and
ignored. -/
def set (options : Options) (item : Item) : Logged Error Options :=
  let value := item.value.getD []
  if item.key = "target_package" then
    if value.isEmpty then Logged.fail .targetPackageEmpty
    else pure { options with targetPackage := value }
  else if item.key = "packages" then pure { options with packages := value }
  else if item.key = "flat_pack" then
    match item.value with
    | none => pure { options with flatPack := true }
    | some value =>
      match readBool? value with
      | some flag => pure { options with flatPack := flag }
      | none => Logged.fail (.flatPackInvalid value)
  else if item.key = "lang" ∨ item.key = "language" then pure { options with language := value }
  else do
    Logged.warn "ignoring unknown option" [("option", .text item.key)]
    return options

/-- The items of a parameter, in order. -/
def items (parameter : Text) : List Item :=
  (parameter.splitOn 44).filterMap Item.read?

/-- The options that a parameter stands for. -/
def ofParameter (parameter : Text) : Logged Error Options :=
  (items parameter).foldlM set standard

end Options

end Protoclass
