import DiceTray.Pool.Basic
import DiceTray.Shaker.Basic

/-!
Throwing the dice of one group. A `Spill` records how every die came to rest: the faces it was
drawn again for, and the dice that it set off. The record also says where a limit cut something
short, so that what the limits do can be told from what the dice do.
-/
namespace DiceTray

/-- A die at rest. -/
structure Die where
  /-- The faces that were drawn again, in order. -/
  rejected : List Nat
  /-- The face it rests on. -/
  face : Nat
  /-- The face should have been drawn again, but the limit was reached. -/
  cut : Bool
deriving DecidableEq, Repr

/-- The dice that one die set off by exploding. -/
structure Burst where
  /-- The added dice, in order. -/
  added : List Die
  /-- Another die should have been added, but the limit was reached. -/
  cut : Bool
deriving DecidableEq, Repr

/-- All dice of one group. -/
structure Spill where
  /-- The dice that were thrown to begin with. -/
  opening : List Die
  /-- What each of them set off, in the same order. -/
  bursts : List Burst
deriving DecidableEq, Repr

def Burst.none : Burst := ⟨[], false⟩

/-- The faces of the group in the order in which the dice came to rest. -/
def Spill.tally (s : Spill) : List Nat :=
  (s.opening ++ s.bursts.flatMap Burst.added).map Die.face

variable {σ : Type}

/-- A die that has just shown `face`: while that is not above the threshold it is drawn again, at
most `allowance` times. -/
def Die.settle (draw : StateM σ Nat) (threshold : Nat) :
    (allowance : Nat) → (face : Nat) → StateM σ Die
  | 0, face => return ⟨[], face, face ≤ threshold⟩
  | allowance + 1, face =>
    if face ≤ threshold then do
      let die ← settle draw threshold allowance (← draw)
      return { die with rejected := face :: die.rejected }
    else return ⟨[], face, false⟩

/-- What a die showing `face` sets off: a face at or above the threshold adds a die, and under
`chain` the added die may add another, up to `allowance` dice in all. -/
def Burst.after (throwDie : StateM σ Die) (threshold : Nat) (chain : Bool) :
    (allowance : Nat) → (face : Nat) → StateM σ Burst
  | 0, face => return ⟨[], threshold ≤ face⟩
  | allowance + 1, face =>
    if threshold ≤ face then do
      let die ← throwDie
      if chain then
        let burst ← after throwDie threshold chain allowance die.face
        return { burst with added := die :: burst.added }
      else return ⟨[die], false⟩
    else return Burst.none

namespace Table

def throwDie (t : Table σ) (p : Pool) : StateM σ Die := do
  let face ← t.shaker p.sides
  if p.rerolls then Die.settle (t.shaker p.sides) p.reroll t.limits.reroll face
  else return ⟨[], face, false⟩

def throwBurst (t : Table σ) (p : Pool) (opener : Die) : StateM σ Burst :=
  if p.explodes then
    Burst.after (t.throwDie p) p.explode p.chain t.limits.explode opener.face
  else return Burst.none

/-- Throws one group: first all opening dice, then what each of them sets off. -/
def spill (t : Table σ) (p : Pool) : StateM σ Spill := do
  let opening ← collect (t.throwDie p) p.count
  let bursts ← opening.mapM (t.throwBurst p)
  return { opening, bursts }

end Table
end DiceTray
