import DiceTray.Pool.Phrase

/-!
The canonical text of a pool: every setting that is in force, each in its plain spelling, in a
fixed order. Settings that are off are left out, and so is a threshold equal to the number of sides
on exploding dice, which the bare suffix already means.
-/
namespace DiceTray
namespace Pool

def suffixIf (on : Bool) (modifier : Modifier) (amount : Nat) : List Suffix :=
  if on then [⟨modifier, some amount⟩] else []

def explodeSuffix (p : Pool) : List Suffix :=
  if p.explodes then
    [{ modifier := if p.chain then .chain else .explode
       amount? := if p.explode = p.sides then none else some p.explode }]
  else []

/-- The phrase in which a pool is written. -/
def phrase (p : Pool) : Phrase where
  times? := if 1 < p.times then some p.times else none
  count? := some p.count
  sides := p.sides
  suffixes := p.explodeSuffix ++ suffixIf (1 < p.multiplier) .multiply p.multiplier ++
    suffixIf (0 < p.keep) .keep p.keep ++ suffixIf (0 < p.drop) .drop p.drop ++
    suffixIf (0 < p.reroll) .reroll p.reroll ++ suffixIf (0 < p.target) .target p.target

def chars (p : Pool) : List Char := p.phrase.chars

def text (p : Pool) : String := String.ofList p.chars

end Pool
end DiceTray
