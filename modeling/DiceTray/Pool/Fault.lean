import DiceTray.Pool.Basic
import DiceTray.Pool.Mark
import DiceTray.Text.Numeral
import DiceTray.Text.Quoted

/-!
Why a text is not a roll term. A fault is either a place in the text or the lack of one, or a flaw
of the draft that the text describes. `Fault.message` and `Flaw.message` hold the wording.
-/
namespace DiceTray
open Text

/-- Why a text is not a roll term. -/
inductive Fault where
  /-- A token that cannot stand where it does; `expected` could. -/
  | unexpected (found : Token) (expected : List Mark)
  /-- The text ends where one of `expected` is needed. -/
  | incomplete (expected : List Mark)
  /-- A number with more digits than its place allows. -/
  | tooLong (number : Token) (limit : Nat)
  /-- The text is complete, and describes dice that cannot be thrown. -/
  | unsound (flaw : Flaw)
deriving DecidableEq, Repr

def Flaw.message : Flaw → List Char
  | .tooFewSides sides =>
    "invalid configuration: dice need at least 2 sides, found ".toList ++ numeral sides
  | .zeroCount => "invalid configuration: at least one die must be rolled per group".toList
  | .zeroTimes => "invalid configuration: at least one roll group is required".toList

/-- Alternatives in a sentence: two are joined by "or", more by commas with an "or" before the
last. -/
def alternatives : List (List Char) → List Char
  | [] => []
  | [a] => a
  | [a, b] => a ++ " or ".toList ++ b
  | a :: b :: c :: rest => a ++ (listed b (c :: rest))
where
  /-- The alternatives after the first of three or more. -/
  listed (a : List Char) : List (List Char) → List Char
    | [] => ", or ".toList ++ a
    | b :: rest => ", ".toList ++ a ++ listed b rest

def Mark.alternatives (marks : List Mark) : List Char :=
  DiceTray.alternatives (marks.map fun mark => mark.name.toList)

def Fault.message : Fault → List Char
  | .unexpected found expected =>
    "(at position ".toList ++ numeral found.start ++ "): unexpected token; found ".toList ++
      quoted found.shown ++ ", expected ".toList ++ Mark.alternatives expected
  | .incomplete expected =>
    "unexpected end of roll term; expected ".toList ++ Mark.alternatives expected
  | .tooLong number limit =>
    "(at position ".toList ++ numeral number.start ++ "): ".toList ++ quoted number.text ++
      " has more than ".toList ++ numeral limit ++ " digits".toList
  | .unsound flaw => flaw.message

end DiceTray
