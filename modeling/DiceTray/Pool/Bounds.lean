import DiceTray.Pool.Basic
import DiceTray.Number.Rounding
import DiceTray.Text.Numeral

/-!
The range of a group's total, from the settings alone. Exploding dice, dropped dice and targets are
left out of account, and so are the number of groups; a reroll threshold lifts the lowest face.
-/
namespace DiceTray
open Text

namespace Pool

/-- How many dice count; only `keep` lessens them here. -/
def selected (p : Pool) : Nat := if 0 < p.keep then min p.keep p.count else p.count

/-- The lowest face a die can come to rest on. -/
def lowest (p : Pool) : Nat := if p.sides ≤ p.reroll then p.sides else p.reroll + 1

def maximum (p : Pool) : Nat := p.selected * p.sides * p.scale

def minimum (p : Pool) : Nat := p.selected * p.lowest * p.scale

/-- Twice the average total. The sum of the bounds is kept to 53 significant binary digits. -/
def twiceAverage (p : Pool) : Nat := roundToBits 53 (p.maximum + p.minimum)

def averageText (p : Pool) : String :=
  String.ofList (numeral (p.twiceAverage / 2) ++
    if p.twiceAverage % 2 = 1 then ['.', '5'] else ['.', '0'])

end Pool
end DiceTray
