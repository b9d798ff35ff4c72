import Protoclass.Text.Blank
import Protoclass.Text.Quoted

/-!
# Arguments of a command

Flags start with one dash or two and may stand anywhere among the other arguments.
A value follows its flag or an equals sign in it; a switch takes one only after an
equals sign.  No flag is read

* after an argument that is blank, or a single dash;
* after the name of a command;
* after `--`, which is kept.  But right after a flag and its value, `--` is left
  out, and flags are read after it.
-/

namespace Protoclass.CommandLine

/-- What a flag takes. -/
inductive FlagKind where
  | value
  /-- Nothing, or whether it is on. -/
  | switch
  deriving DecidableEq, Repr

/-- A flag, by the names that it has. -/
structure Flag where
  names : List Text
  kind : FlagKind := .value
  deriving DecidableEq, Repr

/-- A value that was given to a flag, under the flag's first name. -/
structure Given where
  name : Text
  value : Text
  deriving DecidableEq, Repr

/-- Why arguments make no sense. -/
inductive UsageError where
  | malformed (argument : Text)
  | undefined (name : Text)
  | missingValue (name : Text)
  | notSwitch (name value : Text)
  deriving DecidableEq, Repr

/-- The text of an error. -/
def UsageError.message : UsageError → Text
  | .malformed argument => "bad flag syntax: " ++ argument
  | .undefined name => "flag provided but not defined: -" ++ name
  | .missingValue name => "flag needs an argument: -" ++ name
  | .notSwitch name value =>
    "invalid boolean value " ++ Text.quoted value ++ " for -" ++ name ++ ": parse error"

/-- The words that turn a switch on or off. -/
def switchWords : List (Text × Bool) :=
  [("1", true), ("t", true), ("T", true), ("TRUE", true), ("true", true), ("True", true),
    ("0", false), ("f", false), ("F", false), ("FALSE", false), ("false", false),
    ("False", false)]

/-- The name of a flag in an argument, and the value after an equals sign. -/
def flagOf (argument : Text) : Except UsageError (Text × Option Text) :=
  let name := Text.dropLead (argument.drop 1) "-"
  match name with
  | [] | 45 :: _ | 61 :: _ => .error (.malformed argument)
  | _ => .ok (Text.cut 61 name)

/-- The value of a switch in words. -/
def switchValue (name : Text) : Option Text → Except UsageError Text
  | none => .ok "true"
  | some value =>
    match switchWords.lookup value with
    | some true => .ok "true"
    | some false => .ok "false"
    | none => .error (.notSwitch name value)

/-- Arguments that were read: what flags were given, and the others. -/
structure Arguments where
  given : List Given := []
  others : List Text := []
  deriving DecidableEq, Repr

namespace Arguments

/-- The values given to a flag, in order. -/
def values (arguments : Arguments) (name : Text) : List Text :=
  (arguments.given.filter (·.name = name)).map (·.value)

/-- The value given to a flag last. -/
def value? (arguments : Arguments) (name : Text) : Option Text :=
  (arguments.values name).getLast?

/-- Whether a switch is on. -/
def isOn (arguments : Arguments) (name : Text) : Bool :=
  arguments.value? name = some "true"

/-- The arguments with one more value before them. -/
def give (name value : Text) (arguments : Arguments) : Arguments :=
  { arguments with given := ⟨name, value⟩ :: arguments.given }

/-- The arguments with one more before them. -/
def put (argument : Text) (arguments : Arguments) : Arguments :=
  { arguments with others := argument :: arguments.others }

/-- Read arguments.  `afterFlag` says that a flag was read last. -/
def read (flags : List Flag) (commands : List Text) :
    (afterFlag : Bool) → List Text → Except UsageError Arguments
  | _, [] => .ok {}
  | afterFlag, argument :: rest =>
    if Text.isBlank argument || argument = ("-" : Text) then .ok { others := argument :: rest }
    else if argument = ("--" : Text) then
      if afterFlag then read flags commands false rest
      else .ok { others := argument :: rest }
    else if Text.startsWith argument "-" then do
      let (name, value) ← flagOf argument
      match flags.find? fun flag => name ∈ flag.names with
      | none => throw (.undefined name)
      | some flag =>
        let main := flag.names.headD []
        match flag.kind, value, rest with
        | .switch, value, rest =>
          return give main (← switchValue name value) (← read flags commands true rest)
        | .value, some value, rest => return give main value (← read flags commands true rest)
        | .value, none, value :: rest =>
          return give main value (← read flags commands true rest)
        | .value, none, [] => throw (.missingValue name)
    else if argument ∈ commands then .ok { others := argument :: rest }
    else return put argument (← read flags commands false rest)

end Arguments

end Protoclass.CommandLine
