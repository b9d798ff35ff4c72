import Protoclass.Log
import Protoclass.Text.Folded

/-!
# Which log entries are written

A threshold is a number; entries of that level or a more important one are
written.  It is given by a word in either case, or as the number itself.
-/

namespace Protoclass

namespace Log

/-- A level's number. -/
def Level.code (level : Level) : Int := (level.rank : Int) - 1

/-- The least level of the entries that are written, as a number. -/
structure Threshold where
  least : Int
  deriving DecidableEq, Repr

namespace Threshold

/-- Whether entries of a level are written. -/
def admits (threshold : Threshold) (level : Level) : Bool :=
  threshold.least ≤ level.code

/-- The words for thresholds. -/
def words : List (Text × Int) :=
  [("trace", -1), ("debug", 0), ("info", 1), ("warn", 2), ("error", 3), ("fatal", 4),
    ("panic", 5), ("disabled", 7), ("", 6)]

/-- Why a text is no threshold. -/
inductive Error where
  | unknown (word : Text)
  | outOfBounds (number : Int)
  deriving DecidableEq, Repr

/-- The text of an error. -/
def Error.message : Error → Text
  | .unknown word => "Unknown Level String: '" ++ word ++ "', defaulting to NoLevel"
  | .outOfBounds number =>
    "Out-Of-Bounds Level: '" ++ Text.ofInt number ++ "', defaulting to NoLevel"

/-- The number that digits stand for. -/
def natural? (digits : Text) : Option Nat :=
  if digits.isEmpty || digits.any (fun b => b < 48 || 57 < b) then none
  else some (digits.foldl (fun value b => value * 10 + (b.toNat - 48)) 0)

/-- The number that digits with or without a sign stand for, if it has no more than
64 bits. -/
def integer? (text : Text) : Option Int := do
  let number : Int ← match text with
    | 45 :: digits => (natural? digits).map fun n => -(n : Int)
    | 43 :: digits => (natural? digits).map Int.ofNat
    | digits => (natural? digits).map Int.ofNat
  if Int.bmod number 18446744073709551616 = number then some number else none

/-- The threshold that a text stands for. -/
def ofText (text : Text) : Except Error Threshold :=
  match words.find? fun (word, _) => Text.isFolded word text with
  | some (_, least) => .ok ⟨least⟩
  | none =>
    match integer? text with
    | none => .error (.unknown text)
    | some number =>
      if -128 ≤ number && number ≤ 127 then .ok ⟨number⟩ else .error (.outOfBounds number)

end Threshold

end Log

end Protoclass
