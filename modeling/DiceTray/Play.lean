import DiceTray.Script
import DiceTray.Shaker.Words

/-!
Playing a text at once, with dice from a generator of random words. A counter goes up by a fixed odd
step, so it takes every value of 64 bits once before it repeats, and each value is scrambled by two
rounds of shifting and multiplying. It is made for games, and is no secret to anyone who knows its
state.
-/
namespace DiceTray
namespace Mixer

def step : UInt64 := 0x9e3779b97f4a7c15

/-- Spreads the bits of the counter over 64 bits. Every stage can be undone, so no two counters are
spread to the same bits; the words of 32 bits that are taken from them can be the same. -/
def scramble (z : UInt64) : UInt64 :=
  let z := (z ^^^ (z >>> 30)) * 0xbf58476d1ce4e5b9
  let z := (z ^^^ (z >>> 27)) * 0x94d049bb133111eb
  z ^^^ (z >>> 31)

def word : StateM UInt64 Nat := do
  let counter := (← get) + step
  set counter
  return (scramble counter >>> 32).toNat

/-- Fair faces from the generator. At least half of all words are accepted for any number of sides,
so a hundred and twenty eight attempts do not fail in practice. -/
def shaker : Shaker UInt64 := Words.shaker word 128

/-- A table for play, with the usual limits. -/
def table : Table UInt64 := { shaker }

end Mixer

/-- Reads and rolls a text with random dice. The same seed gives the same dice. -/
def play (seed : UInt64) (text : String) : List Outcome :=
  ((Script.read text).roll Mixer.table seed).1.outcomes

end DiceTray
