import Protoclass.Command.Project
import Protoclass.CommandLine.Arguments

/-!
# What the program is asked to do

The first argument that is no flag names a command; without one, the program is a
plugin.  Before it stand flags of the program, after it those of the command.  How
much is logged can be said in both places, and the later place wins.
-/

namespace Protoclass.CommandLine

/-- What the program is asked to do. -/
inductive Request where
  | help
  | version
  | plugin
  | generate (flags : Protoclass.Flags)
  | watch (flags : Protoclass.Flags)
  | init
  deriving DecidableEq, Repr

/-- A request, with the threshold of the log if one is given. -/
structure Invocation where
  request : Request
  threshold : Option Text := none
  deriving DecidableEq, Repr

/-- The flag that asks for help. -/
def helpFlag : Flag := { names := ["help", "h"], kind := .switch }

/-- The flag for the threshold of the log. -/
def thresholdFlag : Flag := { names := ["log-level"] }

/-- The flags of the program. -/
def programFlags : List Flag :=
  [thresholdFlag, helpFlag, { names := ["version", "v"], kind := .switch }]

/-- The flags of a command that works on a project. -/
def projectFlags : List Flag :=
  [thresholdFlag, helpFlag, { names := ["config", "c"] }, { names := ["out", "o"] },
    { names := ["proto-path", "I"] }, { names := ["target-package"] }, { names := ["packages"] },
    { names := ["flat-pack"], kind := .switch }, { names := ["lang"] }]

/-- The names of the command that shows help. -/
def helpNames : List Text := ["help", "h"]

/-- Whether a word asks for help. -/
def asksHelp (word : Text) : Bool := helpNames.any (· = word)

/-- The commands. -/
def commandNames : List Text := ["generate", "watch", "init", "help", "h"]

/-- What the command line asks of a project.  Import paths may be given together,
with commas between them. -/
def flagsOf (arguments : Arguments) : Protoclass.Flags :=
  let text name := (arguments.value? name).getD []
  { settingsPath := text "config"
    out := text "out"
    importPaths := (arguments.values "proto-path").flatMap fun value =>
      (Text.splitOn 44 value).map Text.trim
    targetPackage := text "target-package"
    packages := text "packages"
    flatPack := arguments.isOn "flat-pack"
    language := text "lang"
    files := arguments.others }

/-- Read the arguments of a command and make a request of them. -/
def ofCommand (flags : List Flag) (threshold : Option Text) (request : Arguments → Request)
    (arguments : List Text) : Except UsageError Invocation := do
  let arguments ← Arguments.read flags helpNames false arguments
  let asksForHelp := arguments.isOn "help" || arguments.others.head?.any asksHelp
  return {
    request := if asksForHelp then .help else request arguments
    threshold := (arguments.value? "log-level").or threshold }

/-- The invocation that arguments make. -/
def Invocation.ofArguments (arguments : List Text) : Except UsageError Invocation := do
  let arguments ← Arguments.read programFlags commandNames false arguments
  let threshold := arguments.value? "log-level"
  if arguments.isOn "help" then return { request := .help, threshold }
  else if arguments.isOn "version" then return { request := .version, threshold }
  else
    match arguments.others with
    | [] => return { request := .plugin, threshold }
    | command :: rest =>
      if command = ("generate" : Text) then
        ofCommand projectFlags threshold (.generate ∘ flagsOf) rest
      else if command = ("watch" : Text) then
        ofCommand projectFlags threshold (.watch ∘ flagsOf) rest
      else if command = ("init" : Text) then
        ofCommand [thresholdFlag, helpFlag] threshold (fun _ => .init) rest
      else if asksHelp command then return { request := .help, threshold }
      else return { request := .plugin, threshold }

end Protoclass.CommandLine
