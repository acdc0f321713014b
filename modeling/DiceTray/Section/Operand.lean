import DiceTray.Pool.Reading
import DiceTray.Section.Joint
import DiceTray.Throw

/-!
Operands: the numbers, dice and texts that a section is made of. Only dice are ever rolled, and a
note is never part of a total.
-/
namespace DiceTray
open Text

/-- One operand of a section. -/
inductive Operand where
  | literal (value : Int)
  /-- Decoration between parentheses. -/
  | note (text : String)
  | dice (throw : Throw)
  /-- Text that is neither a number nor a roll term; it is kept as written and worth nothing. -/
  | plain (text : String)
deriving DecidableEq, Repr

/-- An operand and how it joins the ones before it. -/
structure Item where
  joint : Joint
  operand : Operand
deriving DecidableEq, Repr

/-- The highest number that is read as a literal. -/
def maxLiteral : Nat := 0x7fffffffffffffff

namespace Operand

variable {σ : Type}

/-- The operand with its dice, if it has any, drawn afresh. -/
def roll (t : Table σ) : Operand → StateM σ Operand
  | .dice throw => return .dice (← throw.roll t)
  | operand => return operand

/-- The operand with its dice, if it has any, drawn if they never were. -/
def settle (t : Table σ) : Operand → StateM σ Operand
  | .dice throw => return .dice (← throw.settle t)
  | operand => return operand

def value : Operand → Int
  | .literal value => value
  | .dice throw => throw.total
  | .note _ | .plain _ => 0

/-- The operand takes part in totals. -/
def scores : Operand → Bool
  | .note _ => false
  | _ => true

def note? : Operand → Option String
  | .note text => some text
  | _ => none

def throw? : Operand → Option Throw
  | .dice throw => some throw
  | _ => none

def chars : Operand → List Char
  | .literal value => signedNumeral value
  | .note text => '(' :: text.toList ++ [')']
  | .dice throw => throw.chars
  | .plain text => text.toList

/-- The operand that a word stands for: a literal if it is all digits and not too large, else dice
if it is a roll term in either case of letters, else plain text. -/
def ofWord (word : List Char) : Operand :=
  if word.all Char.isDigit && Text.value word ≤ maxLiteral then .literal (Text.value word)
  else match Pool.ofChars (word.map Char.toLower) with
    | .ok pool => .dice { pool }
    | .error _ => .plain (String.ofList word)

end Operand
end DiceTray
