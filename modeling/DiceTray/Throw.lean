import DiceTray.Group.Score
import DiceTray.Pool.Canonical

/-!
Throws: a pool together with the groups of its last roll. A throw starts without any, `roll` always
draws fresh dice, and `settle` draws only if there are none yet; reading a throw never draws.
-/
namespace DiceTray

/-- A pool and the groups it was last rolled to, if it was rolled. -/
structure Throw where
  pool : Pool
  groups? : Option (List Group) := none
deriving DecidableEq, Repr

namespace Throw

variable {σ : Type}

/-- Rolls every group afresh. -/
def roll (t : Table σ) (w : Throw) : StateM σ Throw :=
  return { w with groups? := some (← collect (t.throwGroup w.pool) w.pool.times) }

def settle (t : Table σ) (w : Throw) : StateM σ Throw :=
  if w.groups?.isSome then return w else w.roll t

/-- The groups of the last roll, in order; none before the first. -/
def groups (w : Throw) : List Group := w.groups?.getD []

def tallies (w : Throw) : List (List Nat) := w.groups.map Group.tally

/-- The exact sum of the groups' totals. -/
def total (w : Throw) : Nat := w.groups.foldr (fun g n => g.total + n) 0

/-- The groups of the last roll as a program holds them, if there was a roll. -/
def lastIn (o : Overflow) (w : Throw) : Option (Option (List Scored)) :=
  w.groups?.mapM fun groups => groups.mapM fun g => w.pool.scoreIn o g.tally

/-- The groups of the last roll as a program holds them; none before the first. -/
def scoredIn (o : Overflow) (w : Throw) : Option (List Scored) := return (← w.lastIn o).getD []

/-- The sum of the groups' totals, computed with words. -/
def totalIn (o : Overflow) (w : Throw) : Option Int := do
  o.sum ((← w.scoredIn o).map Scored.total)

/-- The canonical text of the pool; the dice do not show in it. -/
def chars (w : Throw) : List Char := w.pool.chars

/-- Settling leaves a throw that was rolled as it is, and draws nothing. -/
theorem settle_of_rolled (t : Table σ) {w : Throw} (h : w.groups?.isSome = true) :
    w.settle t = pure w := by
  rw [settle, if_pos h]

/-- Settling a throw that was never rolled rolls it. -/
theorem settle_of_not_rolled (t : Table σ) {w : Throw} (h : w.groups? = none) :
    w.settle t = w.roll t := by
  simp [settle, h]

end Throw
end DiceTray
