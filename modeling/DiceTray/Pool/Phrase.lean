import DiceTray.Pool.Basic
import DiceTray.Text.Numeral

/-!
Phrases: what a roll term says, `[times x][count]d sides` and a list of suffixes, before anyone
asks whether such dice can be thrown. `Phrase.draft` is its meaning and `Phrase.chars` its plain
spelling.
-/
namespace DiceTray
open Text

/-- A modifier, with its amount where one is written. -/
structure Suffix where
  modifier : Modifier
  amount? : Option Nat
deriving DecidableEq, Repr

/-- A roll term as written. -/
structure Phrase where
  times? : Option Nat
  count? : Option Nat
  sides : Nat
  suffixes : List Suffix
deriving DecidableEq, Repr

/-- The settings that the phrase describes. Suffixes act from left to right; one without an amount
means the number of sides. -/
def Phrase.draft (p : Phrase) : Draft :=
  p.suffixes.foldl (fun d s => d.apply s.modifier (s.amount?.getD p.sides))
    { times := p.times?.getD 1, count := p.count?.getD 1, sides := p.sides }

def Modifier.chars : Modifier → List Char
  | .explode => ['e']
  | .chain => ['i', 'e']
  | .keep => ['k']
  | .drop => ['d']
  | .reroll => ['r']
  | .multiply => ['*']
  | .target => ['t']

def optionalNumeral (n? : Option Nat) : List Char := n?.elim [] numeral

def Suffix.chars (s : Suffix) : List Char := s.modifier.chars ++ optionalNumeral s.amount?

def Phrase.chars (p : Phrase) : List Char :=
  p.times?.elim [] (fun n => numeral n ++ ['x']) ++ optionalNumeral p.count? ++
    'd' :: numeral p.sides ++ p.suffixes.flatMap Suffix.chars

end DiceTray
