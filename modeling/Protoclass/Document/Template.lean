import Protoclass.Text.Basic

/-!
# Templates

A template is a text with places to fill: `%s` takes a text, `%d` a number, and
`%%` is a percent sign.  A place without a fitting argument, and an argument
without a place, leave a mark in the result.
-/

namespace Protoclass.Template

/-- What fills a place of a template. -/
inductive Argument where
  | text (t : Text)
  | int (n : Int)
  deriving DecidableEq, Repr

/-- The text of an argument. -/
def Argument.shown : Argument → Text
  | .text t => t
  | .int n => Text.ofInt n

/-- An argument with its type, as a mark shows it. -/
def Argument.described : Argument → Text
  | .text t => "string=" ++ t
  | .int n => "int=" ++ Text.ofInt n

/-- An argument in a place of a given letter. -/
def Argument.inPlace (letter : UInt8) : Argument → Text
  | .text t => if letter = 115 then t else "%!" ++ [letter] ++ "(string=" ++ t ++ ")"
  | .int n =>
    if letter = 100 then Text.ofInt n
    else "%!" ++ [letter] ++ "(int=" ++ Text.ofInt n ++ ")"

/-- The mark for arguments without a place. -/
def surplus : List Argument → Text
  | [] => []
  | args => "%!(EXTRA " ++ Text.join ", " (args.map Argument.described) ++ ")"

/-- The template with its places filled in order. -/
def fill : Text → List Argument → Text
  | [], args => surplus args
  | [37], args => "%!(NOVERB)" ++ surplus args
  | 37 :: 37 :: rest, args => 37 :: fill rest args
  | 37 :: letter :: rest, [] => "%!" ++ [letter] ++ "(MISSING)" ++ fill rest []
  | 37 :: letter :: rest, arg :: args => arg.inPlace letter ++ fill rest args
  | b :: rest, args => b :: fill rest args

end Protoclass.Template
